import PiWorkflows.Proofs.ContentRoundTrip
import PiWorkflows.Proofs.ViewGenerations
import PiWorkflows.Tui.Requests

/-!
# What is outstanding after a pass

A pass sends what is wanted and has no key among those sent. So nothing stays loading
as long as a key that is there stands for a request that is under way: the invariant
(`Linked`) says so of the run that is watched and of every content that is loading.

It breaks where a key outlives its request: when a run is left and entered again
between two passes, when a content is asked for anew while a request for it is under
way, and when such a request is refused. `LinkFits` excludes these steps.
-/

namespace PiWorkflows.Tui

open Fallible

variable {α : Type} {sha256 : Bytes → Vector UInt8 32} {decoder : ViewDecoder α}

/-! ## What is asked of the state of a connection -/

/-- The last request to watch a run is still to be answered by a snapshot. -/
def Awaits (log : List LinkEvent) (runId : String) : Prop :=
  ∃ before after, log = before ++ .watchSent runId :: after ∧ .connected ∉ after ∧
    .discarded runId ∉ after ∧ .snapshotCame runId ∉ after

/-- The offset a request asks a content from. -/
def askedOffset (key : String × String) (request : Request) : Option Nat :=
  match request.operation with
  | .content runId path offset => if (runId, path) = key then some offset else none
  | _ => none

/-- The offsets from which a content is asked for. -/
def askedOffsets (requests : List Request) (key : String × String) : List Nat :=
  requests.filterMap (askedOffset key)

/-- The run that is watched has a snapshot or waits for one, and every content that is
loading has one request under way, from its length on. -/
def Covered (link : Link α) : Prop :=
  (∀ runId ∈ link.runs.shared.watched, link.runs.shared.rawViews.get? runId = none →
    Awaits link.log runId) ∧
    ∀ key bytes, link.runs.shared.artifacts.get? key = some (.loading bytes) →
      askedOffsets link.outstanding key = [bytes.length]

/-- Ids of runs have no colon. -/
def Plain (runId : String) : Prop :=
  ':' ∉ runId.toList

/-- What is asked of a content is what follows its first `n` bytes: the request is under
way and its key is there, or neither is. -/
def AsksFrom (link : Link α) (key : String × String) (n : Nat) : Prop :=
  askedOffsets link.outstanding key = [] ∧ contentRequestKey key.1 key.2 n ∉ link.sent ∨
    askedOffsets link.outstanding key = [n] ∧
      ∀ offset, contentRequestKey key.1 key.2 offset ∈ link.sent ↔ offset = n

/-- The paths of the contents that a view is decoded with. -/
def artifactPaths (raw : Json) : List String :=
  [workflowDefinitionArtifact raw, graphHistoryArtifact raw, displayReasonArtifact raw].filterMap
    fun artifact => artifact.map ArtifactRef.path

/-- An answer that is not a chunk. -/
def Answer.NoChunk (answer : Answer) : Prop :=
  ∃ outcome receipt, answer = .other outcome receipt ∧ ∀ value, receipt = some value →
    textMember value "schema" ≠ some "pi-workflows.content-chunk.v1"

/-- The server sends chunks only for contents, and a content that is loading gets one. -/
def AnswerFits (state : Shared) (answer : Answer) : Operation → Prop
  | .content runId path offset =>
      (∃ record, answer = .chunk record ∧ record.path = path ∧
        offset ≤ record.bytes.length ∧ record.bytes.length ≤ BUFFER_MAX_LENGTH) ∨
      answer.NoChunk ∧ ∀ bytes, state.artifacts.get? (runId, path) ≠ some (.loading bytes)
  | _ => answer.NoChunk

/-- The steps behind which a key that was sent still stands for a request. -/
def LinkFits (link : Link α) : LinkAction → Prop
  | .pass | .reconnect => True
  | .call (.message (.response _ _)) => False
  | .call (.message _) | .call (.requestPage _ _ _) => True
  | .call (.watch runId) => runId ∈ link.runs.shared.watched ∨ runKey runId ∉ link.sent
  | .call (.requestArtifact runId path) => Plain runId ∧
      (link.runs.shared.artifacts.get? (runId, path) = none → AsksFrom link (runId, path) 0)
  | .call (.view runId) => Plain runId ∧ ∀ raw path,
      link.runs.shared.rawViews.get? runId = some raw → path ∈ artifactPaths raw.value →
      link.runs.shared.artifacts.get? (runId, path) = none → AsksFrom link (runId, path) 0
  | .respond index answer => ∀ request, link.outstanding[index]? = some request →
      AnswerFits link.runs.shared answer request.operation

/-! ## The keys of contents -/

theorem contentRequestKey_inj {key key' : String × String} {offset offset' : Nat}
    (hplain : Plain key.1) (hplain' : Plain key'.1)
    (h : contentRequestKey key.1 key.2 offset = contentRequestKey key'.1 key'.2 offset') :
    key = key' ∧ offset = offset' := by
  have hdigits : ∀ n : Nat, ':' ∉ n.repr.toList.reverse := by
    intro n hmem
    rw [List.mem_reverse, Nat.toList_repr] at hmem
    exact absurd (Nat.isDigit_of_mem_toDigits (by decide) (by decide) hmem) (by decide)
  have hlist : ∀ (runId path : String) (offset : Nat),
      (contentRequestKey runId path offset).toList =
        "content:".toList ++ (runId.toList ++ ':' :: (path.toList ++ ':' :: offset.repr.toList)) := by
    intro runId path offset
    have hcolon : (":" : String).toList = [':'] := rfl
    simp only [contentRequestKey, String.toList_append, hcolon, List.append_assoc,
      List.cons_append, List.nil_append]
  have hchars := congrArg String.toList h
  rw [hlist, hlist] at hchars
  obtain ⟨hrun, hrest⟩ := cut_inj hplain hplain' (List.append_cancel_left hchars)
  have hreverse := congrArg List.reverse hrest
  rw [List.reverse_append, List.reverse_append, List.reverse_cons, List.reverse_cons,
    List.append_assoc, List.append_assoc] at hreverse
  obtain ⟨hoffset, hpath⟩ := cut_inj (hdigits offset) (hdigits offset') hreverse
  refine ⟨Prod.ext (String.toList_injective hrun) ?_, ?_⟩
  · exact String.toList_injective (List.reverse_injective hpath)
  · exact natRepr_inj (String.toList_injective (List.reverse_injective hoffset))

theorem startsWith_append (start rest : String) : startsWith start (start ++ rest) = true := by
  rw [startsWith, String.toList_append, List.isPrefixOf_iff_prefix]
  exact List.prefix_append _ _

theorem startsWith_contentKey (runId path : String) (offset : Nat) :
    startsWith "content:" (contentRequestKey runId path offset) = true := by
  have hassoc : contentRequestKey runId path offset =
      "content:" ++ (runId ++ ":" ++ path ++ ":" ++ offset.repr) := by
    simp only [contentRequestKey, String.append_assoc]
  rw [hassoc]
  exact startsWith_append _ _

theorem startsWith_runKey (runId : String) : startsWith "run:" (runKey runId) = true :=
  startsWith_append _ _

theorem startsWith_pageKey (runId : String) (kind : PageKind) (cursor revision : Nat) :
    startsWith "page:" (pageKey runId kind cursor revision) = true := by
  have hassoc : pageKey runId kind cursor revision =
      "page:" ++ (runId ++ ":" ++ pageName kind ++ ":" ++ cursor.repr ++ ":" ++ revision.repr) := by
    simp only [pageKey, String.append_assoc]
  rw [hassoc]
  exact startsWith_append _ _

/-- Keys of two kinds differ. -/
theorem startsWith_exclusive {start other key : String} (hstart : startsWith start key = true)
    (hlength : start.toList.head? ≠ other.toList.head?) (hsome : other.toList ≠ [])
    (hsome' : start.toList ≠ []) : startsWith other key = false := by
  rw [startsWith, List.isPrefixOf_iff_prefix] at hstart
  rw [startsWith, Bool.eq_false_iff, ne_eq, List.isPrefixOf_iff_prefix]
  intro hother
  obtain ⟨c, cs, hc⟩ := List.exists_cons_of_ne_nil hsome'
  obtain ⟨d, ds, hd⟩ := List.exists_cons_of_ne_nil hsome
  obtain ⟨rest, hrest⟩ := hstart
  obtain ⟨rest', hrest'⟩ := hother
  rw [hc, hd] at hlength
  rw [hc] at hrest
  rw [hd, ← hrest] at hrest'
  exact hlength (congrArg some (List.cons.inj hrest').1.symm)

theorem runKey_notContent (runId : String) : startsWith "content:" (runKey runId) = false :=
  startsWith_exclusive (startsWith_runKey runId) (by decide) (by decide) (by decide)

theorem runKey_injective {runId runId' : String} (h : runKey runId = runKey runId') :
    runId = runId' :=
  (String.append_right_inj _).1 h

/-! ## One pass -/

theorem mem_sent_ask {pass : Pass} {key key' : String} {operation : Operation} :
    key' ∈ (pass.ask key operation).sent ↔ key' = key ∨ key' ∈ pass.sent := by
  rw [Pass.ask]
  split
  · next h =>
      refine ⟨.inr, ?_⟩
      rintro (rfl | h')
      · exact h
      · exact h'
  · exact List.mem_cons

theorem requests_ask (pass : Pass) (key : String) (operation : Operation) :
    (pass.ask key operation).requests =
      pass.requests ++ if key ∈ pass.sent then [] else [⟨wrappingSucc pass.counter, operation⟩] := by
  rw [Pass.ask]
  split
  · exact (List.append_nil _).symm
  · rfl

theorem mem_sent_retain {pass : Pass} {start : String} {desired : List String} {key : String} :
    key ∈ (pass.retain start desired).sent ↔
      key ∈ pass.sent ∧ (startsWith start key = true → key ∈ desired) := by
  rw [Pass.retain, List.mem_filter]
  refine and_congr_right fun _ => ?_
  cases startsWith start key <;> simp

/-- A relation of every step of a fold, if it composes. -/
theorem foldl_related {σ β : Type*} {R : σ → σ → Prop} (hrefl : ∀ s, R s s)
    (htrans : ∀ a b c, R a b → R b c → R a c) {f : σ → β → σ} {l : List β}
    (hstep : ∀ s, ∀ b ∈ l, R s (f s b)) (s : σ) : R s (l.foldl f s) := by
  induction l generalizing s with
  | nil => exact hrefl s
  | cons b rest ih =>
      exact htrans _ _ _ (hstep s b List.mem_cons_self)
        (ih (fun s b hb => hstep s b (List.mem_cons_of_mem _ hb)) (f s b))

/-- Nothing is done about contents. -/
structure SameContents (pass later : Pass) : Prop where
  sent : ∀ key, startsWith "content:" key = true → (key ∈ later.sent ↔ key ∈ pass.sent)
  asked : ∀ key, askedOffsets later.requests key = askedOffsets pass.requests key

theorem SameContents.refl (pass : Pass) : SameContents pass pass :=
  ⟨fun _ _ => Iff.rfl, fun _ => rfl⟩

theorem SameContents.trans {first second third : Pass} (h : SameContents first second)
    (h' : SameContents second third) : SameContents first third :=
  ⟨fun key hkey => (h'.sent key hkey).trans (h.sent key hkey),
    fun key => (h'.asked key).trans (h.asked key)⟩

theorem askedOffsets_append (first second : List Request) (key : String × String) :
    askedOffsets (first ++ second) key = askedOffsets first key ++ askedOffsets second key :=
  List.filterMap_append

theorem sameContents_ask {pass : Pass} {key : String} {operation : Operation}
    (hkey : startsWith "content:" key = false)
    (hoperation : ∀ id k, askedOffset k ⟨id, operation⟩ = none) :
    SameContents pass (pass.ask key operation) := by
  refine ⟨fun key' hkey' => ?_, fun k => ?_⟩
  · rw [mem_sent_ask]
    refine or_iff_right fun heq => ?_
    rw [heq, hkey] at hkey'
    cases hkey'
  · rw [requests_ask, askedOffsets_append]
    split
    · exact List.append_nil _
    · rw [askedOffsets, askedOffsets, List.filterMap_cons, hoperation]
      exact List.append_nil _

theorem sameContents_unwatch (pass : Pass) (runId : String) :
    SameContents pass (pass.unwatch runId) := by
  refine ⟨fun key hkey => ?_, fun k => ?_⟩
  · rw [Pass.unwatch]
    simp only [List.mem_filter, decide_eq_true_eq]
    refine and_iff_left fun heq => ?_
    rw [heq, runKey_notContent] at hkey
    cases hkey
  · rw [Pass.unwatch, Pass.push]
    dsimp only
    rw [askedOffsets_append]
    exact List.append_nil _

theorem sameContents_retain {pass : Pass} {start : String} {desired : List String}
    (h : ∀ key, startsWith "content:" key = true → startsWith start key = false) :
    SameContents pass (pass.retain start desired) := by
  refine ⟨fun key hkey => ?_, fun k => rfl⟩
  rw [mem_sent_retain]
  refine and_iff_left fun hstart => ?_
  rw [h key hkey] at hstart
  cases hstart

theorem sameContents_unwatchOthers (pass : Pass) (watched : List String) :
    SameContents pass (pass.unwatchOthers watched) :=
  foldl_related (R := SameContents) .refl (fun _ _ _ => .trans) (fun pass runId _ => sameContents_unwatch pass runId) _

theorem sameContents_watchRuns (pass : Pass) (watched : List String) :
    SameContents pass (pass.watchRuns watched) :=
  foldl_related (R := SameContents) .refl (fun _ _ _ => .trans)
    (fun _ runId _ => sameContents_ask (runKey_notContent runId) fun _ _ => rfl) _

theorem sameContents_askPages (pass : Pass) (state : Shared) :
    SameContents pass (pass.askPages state) := by
  have hretain : SameContents pass
      (pass.retain "page:" (state.pageRequests.rows.map (Pass.keyOfPage state))) :=
    sameContents_retain fun key hkey =>
      startsWith_exclusive hkey (by decide) (by decide) (by decide)
  refine hretain.trans (foldl_related (R := SameContents) .refl (fun _ _ _ => .trans) (fun pass e _ => ?_) _)
  exact sameContents_ask
    (startsWith_exclusive (startsWith_pageKey ..) (by decide) (by decide) (by decide))
    fun _ _ => rfl

/-- The key of a content that is wanted is sent, and nothing else of it. -/
theorem sent_askAll {rows : List ((String × String) × Nat)} (hrows : ∀ e ∈ rows, Plain e.1.1)
    {key : String × String} (hplain : Plain key.1) (pass : Pass) (offset : Nat) :
    contentRequestKey key.1 key.2 offset ∈ (rows.foldl
      (fun pass e => pass.ask (Pass.keyOfContent e) (.content e.1.1 e.1.2 e.2)) pass).sent ↔
      contentRequestKey key.1 key.2 offset ∈ pass.sent ∨ (key, offset) ∈ rows := by
  induction rows generalizing pass with
  | nil => simp
  | cons e rest ih =>
      have hkeys : contentRequestKey key.1 key.2 offset = Pass.keyOfContent e ↔
          (key, offset) = e := by
        constructor
        · intro heq
          obtain ⟨hkey, hoffset⟩ := contentRequestKey_inj hplain (hrows e List.mem_cons_self) heq
          exact Prod.ext hkey hoffset
        · rintro rfl
          rfl
      rw [List.foldl_cons, ih (fun e he => hrows e (List.mem_cons_of_mem _ he)), mem_sent_ask,
        hkeys, List.mem_cons, or_assoc, or_left_comm]

theorem askedOffset_other {key key' : String × String} (h : key ≠ key') (id offset : Nat) :
    askedOffset key ⟨id, .content key'.1 key'.2 offset⟩ = none :=
  if_neg fun heq => h heq.symm

theorem askedOffset_self (key : String × String) (id offset : Nat) :
    askedOffset key ⟨id, .content key.1 key.2 offset⟩ = some offset :=
  if_pos rfl

/-- A content that is not wanted is not asked for. -/
theorem asked_askAll_other {rows : List ((String × String) × Nat)} {key : String × String}
    (hkey : key ∉ rows.map Prod.fst) (pass : Pass) :
    askedOffsets (rows.foldl
      (fun pass e => pass.ask (Pass.keyOfContent e) (.content e.1.1 e.1.2 e.2)) pass).requests key =
      askedOffsets pass.requests key := by
  induction rows generalizing pass with
  | nil => rfl
  | cons e rest ih =>
      rw [List.map_cons, List.mem_cons, not_or] at hkey
      rw [List.foldl_cons, ih hkey.2, requests_ask, askedOffsets_append]
      split
      · exact List.append_nil _
      · rw [askedOffsets, askedOffsets, List.filterMap_cons, askedOffset_other hkey.1]
        exact List.append_nil _

/-- A content that is wanted is asked for unless its key has been sent. -/
theorem asked_askAll {rows : List ((String × String) × Nat)}
    (hnodup : (rows.map Prod.fst).Nodup) (hrows : ∀ e ∈ rows, Plain e.1.1)
    {key : String × String} {n : Nat} (hmem : (key, n) ∈ rows) (pass : Pass) :
    askedOffsets (rows.foldl
      (fun pass e => pass.ask (Pass.keyOfContent e) (.content e.1.1 e.1.2 e.2)) pass).requests key =
      askedOffsets pass.requests key ++
        if contentRequestKey key.1 key.2 n ∈ pass.sent then [] else [n] := by
  have hplain : Plain key.1 := hrows (key, n) hmem
  induction rows generalizing pass with
  | nil => exact absurd hmem List.not_mem_nil
  | cons e rest ih =>
      rw [List.map_cons, List.nodup_cons] at hnodup
      have hrest : ∀ e ∈ rest, Plain e.1.1 := fun e he => hrows e (List.mem_cons_of_mem _ he)
      rw [List.foldl_cons]
      rcases List.mem_cons.1 hmem with rfl | hmem
      · rw [asked_askAll_other hnodup.1, requests_ask, askedOffsets_append]
        congr 1
        show askedOffsets (if contentRequestKey key.1 key.2 n ∈ pass.sent then [] else _) key = _
        split
        · rfl
        · rw [askedOffsets, List.filterMap_cons, askedOffset_self]
          rfl
      · have hne : key ≠ e.1 := fun heq => hnodup.1 (heq ▸ List.mem_map_of_mem hmem)
        have hsame : contentRequestKey key.1 key.2 n ∈
            (pass.ask (Pass.keyOfContent e) (.content e.1.1 e.1.2 e.2)).sent ↔
            contentRequestKey key.1 key.2 n ∈ pass.sent := by
          rw [mem_sent_ask]
          exact or_iff_right fun heq =>
            hne (contentRequestKey_inj hplain (hrows e List.mem_cons_self) heq).1
        rw [ih hnodup.2 hrest hmem, requests_ask, askedOffsets_append]
        simp only [hsame]
        congr 1
        split
        · exact List.append_nil _
        · rw [askedOffsets, askedOffsets, List.filterMap_cons, askedOffset_other hne]
          exact List.append_nil _

/-- What is done about a content that is wanted. -/
theorem askContents_content {state : Shared}
    (hplain : ∀ key n, state.contentRequests.get? key = some n → Plain key.1)
    {key : String × String} {n : Nat} (hwanted : state.contentRequests.get? key = some n)
    (pass : Pass) :
    (∀ offset, contentRequestKey key.1 key.2 offset ∈ (pass.askContents state).sent ↔
      offset = n) ∧
      askedOffsets (pass.askContents state).requests key = askedOffsets pass.requests key ++
        if contentRequestKey key.1 key.2 n ∈ pass.sent then [] else [n] := by
  have hrows : ∀ e ∈ state.contentRequests.rows, Plain e.1.1 := fun e he =>
    hplain e.1 e.2 (Table.mem_rows.1 he)
  have hkey : Plain key.1 := hplain key n hwanted
  have hmem : (key, n) ∈ state.contentRequests.rows := Table.mem_rows.2 hwanted
  have hunique : ∀ offset, (key, offset) ∈ state.contentRequests.rows → offset = n := by
    intro offset hrow
    have hget : state.contentRequests.get? key = some offset := Table.mem_rows.1 hrow
    exact Option.some.inj (hget.symm.trans hwanted)
  have hdesired : ∀ offset, contentRequestKey key.1 key.2 offset ∈
      state.contentRequests.rows.map Pass.keyOfContent ↔ offset = n := by
    intro offset
    constructor
    · intro h
      obtain ⟨e, he, heq⟩ := List.mem_map.1 h
      obtain ⟨hsame, hoffset⟩ := contentRequestKey_inj (hrows e he) hkey heq
      exact hunique offset (hsame ▸ hoffset ▸ he)
    · rintro rfl
      exact List.mem_map.2 ⟨(key, offset), hmem, rfl⟩
  have hretained : ∀ offset, contentRequestKey key.1 key.2 offset ∈
      (pass.retain "content:" (state.contentRequests.rows.map Pass.keyOfContent)).sent ↔
        contentRequestKey key.1 key.2 offset ∈ pass.sent ∧ offset = n := by
    intro offset
    have hstart := startsWith_contentKey key.1 key.2 offset
    rw [mem_sent_retain, hdesired]
    exact ⟨fun h => ⟨h.1, h.2 hstart⟩, fun h => ⟨h.1, fun _ => h.2⟩⟩
  constructor
  · intro offset
    rw [Pass.askContents, sent_askAll hrows hkey, hretained]
    constructor
    · rintro (⟨-, heq⟩ | hrow)
      · exact heq
      · exact hunique offset hrow
    · rintro rfl
      exact .inr hmem
  · rw [Pass.askContents, asked_askAll state.contentRequests.nodup hrows hmem]
    congr 1
    have hsent := hretained n
    rw [and_iff_left rfl] at hsent
    simp only [hsent]

/-- What a pass does about a content that is wanted. -/
theorem reconcile_content {state : Shared} (sent : List String) (counter : Nat)
    (hplain : ∀ key n, state.contentRequests.get? key = some n → Plain key.1)
    {key : String × String} {n : Nat} (hwanted : state.contentRequests.get? key = some n) :
    (∀ offset, contentRequestKey key.1 key.2 offset ∈
      (reconcileRequests state sent counter).sent ↔ offset = n) ∧
      askedOffsets (reconcileRequests state sent counter).requests key =
        if contentRequestKey key.1 key.2 n ∈ sent then [] else [n] := by
  have hask : SameContents { sent := sent, counter := counter }
      (Pass.ask { sent := sent, counter := counter } "runs" .watchRuns) :=
    sameContents_ask (by decide +kernel) fun _ _ => rfl
  have hbefore := ((hask.trans (sameContents_unwatchOthers _ state.watched)).trans
    (sameContents_watchRuns _ state.watched)).trans (sameContents_askPages _ state)
  obtain ⟨hsent, hasked⟩ := askContents_content hplain hwanted
    ((((Pass.ask { sent := sent, counter := counter } "runs" .watchRuns).unwatchOthers
      state.watched).watchRuns state.watched).askPages state)
  refine ⟨hsent, hasked.trans ?_⟩
  have hkey := hbefore.sent _ (startsWith_contentKey key.1 key.2 n)
  rw [hbefore.asked key]
  simp only [hkey]
  exact List.nil_append _

/-- Requests are only added. -/
def Grows (pass later : Pass) : Prop :=
  pass.requests ⊆ later.requests

theorem grows_ask (pass : Pass) (key : String) (operation : Operation) :
    Grows pass (pass.ask key operation) := by
  rw [Grows, requests_ask]
  exact List.subset_append_left _ _

theorem Grows.trans {first second third : Pass} (h : Grows first second) (h' : Grows second third) :
    Grows first third :=
  List.Subset.trans h h'

theorem grows_asks {β : Type*} (key : β → String) (operation : β → Operation) (l : List β)
    (pass : Pass) : Grows pass (l.foldl (fun pass b => pass.ask (key b) (operation b)) pass) :=
  foldl_related (R := Grows) (fun _ => List.Subset.refl _) (fun _ _ _ => .trans)
    (fun pass b _ => grows_ask pass (key b) (operation b)) pass

theorem sent_unwatchOthers (pass : Pass) (watched : List String) :
    (pass.unwatchOthers watched).sent ⊆ pass.sent :=
  foldl_related (R := fun first second : Pass => second.sent ⊆ first.sent)
    (fun _ => List.Subset.refl _) (fun _ _ _ h h' => List.Subset.trans h' h)
    (fun _ _ _ => List.filter_subset_self _) pass

theorem watchRuns_asks {watched : List String} {runId : String} (hrun : runId ∈ watched)
    (pass : Pass) (hnew : runKey runId ∉ pass.sent) :
    ∃ id, ⟨id, .watchRun runId⟩ ∈ (pass.watchRuns watched).requests := by
  induction watched generalizing pass with
  | nil => exact absurd hrun List.not_mem_nil
  | cons first rest ih =>
      by_cases heq : runId = first
      · subst heq
        refine ⟨wrappingSucc pass.counter, ?_⟩
        have hasked : (⟨wrappingSucc pass.counter, .watchRun runId⟩ : Request) ∈
            (pass.ask (runKey runId) (.watchRun runId)).requests := by
          rw [requests_ask, if_neg hnew]
          exact List.mem_append_right _ List.mem_cons_self
        exact grows_asks runKey .watchRun rest _ hasked
      · refine ih ((List.mem_cons.1 hrun).resolve_left heq) _ fun hsent => ?_
        rcases mem_sent_ask.1 hsent with hkey | hsent
        · exact heq (runKey_injective hkey)
        · exact hnew hsent

/-- A run that is watched and has no key is asked for. -/
theorem reconcile_watches {state : Shared} {sent : List String} (counter : Nat) {runId : String}
    (hrun : runId ∈ state.watched) (hnew : runKey runId ∉ sent) :
    ∃ id, ⟨id, .watchRun runId⟩ ∈ (reconcileRequests state sent counter).requests := by
  have hbefore : runKey runId ∉ ((Pass.ask { sent := sent, counter := counter } "runs"
      .watchRuns).unwatchOthers state.watched).sent := by
    intro hsent
    rcases mem_sent_ask.1 (sent_unwatchOthers _ _ hsent) with hkey | hsent
    · have hchars := congrArg (fun key => key.toList[3]?) hkey
      rw [runKey, String.toList_append, List.getElem?_append_left (by decide)] at hchars
      exact absurd hchars (by decide)
    · exact hnew hsent
  obtain ⟨id, hasked⟩ := watchRuns_asks hrun _ hbefore
  refine ⟨id, ?_⟩
  rw [reconcileRequests, Pass.askContents, Pass.askPages]
  exact grows_asks _ _ _ _ (grows_asks _ _ _ _ hasked)

/-! ## The invariant -/

/-- A key that was sent stands for a request under way. -/
structure Linked (link : Link α) : Prop where
  requests : ∀ key n, link.runs.shared.contentRequests.get? key = some n ↔
    ∃ bytes, link.runs.shared.artifacts.get? key = some (.loading bytes) ∧ bytes.length = n
  plain : ∀ key n, link.runs.shared.contentRequests.get? key = some n → Plain key.1
  contents : ∀ key bytes, link.runs.shared.artifacts.get? key = some (.loading bytes) →
    AsksFrom link key bytes.length
  watches : ∀ runId ∈ link.runs.shared.watched, link.runs.shared.rawViews.get? runId = none →
    runKey runId ∈ link.sent → Awaits link.log runId

/-- Events that leave a request to watch a run waiting. -/
theorem Awaits.append {log events : List LinkEvent} {runId : String} (h : Awaits log runId)
    (hconnected : .connected ∉ events) (hdiscarded : .discarded runId ∉ events)
    (hsnapshot : .snapshotCame runId ∉ events) : Awaits (log ++ events) runId := by
  obtain ⟨before, after, rfl, hc, hd, hs⟩ := h
  refine ⟨before, after ++ events, by rw [List.append_assoc]; rfl, ?_, ?_, ?_⟩
  · exact fun hmem => (List.mem_append.1 hmem).elim hc hconnected
  · exact fun hmem => (List.mem_append.1 hmem).elim hd hdiscarded
  · exact fun hmem => (List.mem_append.1 hmem).elim hs hsnapshot

theorem watchEvent_sent {requests : List Request} {event : LinkEvent}
    (h : event ∈ requests.filterMap Link.watchEvent) : ∃ runId, event = .watchSent runId := by
  obtain ⟨request, -, hevent⟩ := List.mem_filterMap.1 h
  obtain ⟨id, operation⟩ := request
  cases operation with
  | watchRun runId => exact ⟨runId, (Option.some.inj hevent).symm⟩
  | watchRuns | unwatchRun _ | page _ _ _ | content _ _ _ => cases hevent

theorem awaits_sent {log : List LinkEvent} {requests : List Request} {runId : String} {id : Nat}
    (h : ⟨id, .watchRun runId⟩ ∈ requests) :
    Awaits (log ++ requests.filterMap Link.watchEvent) runId := by
  have hevent : LinkEvent.watchSent runId ∈ requests.filterMap Link.watchEvent :=
    List.mem_filterMap.2 ⟨_, h, rfl⟩
  obtain ⟨before, after, hsplit⟩ := List.append_of_mem hevent
  have hafter : ∀ event ∈ after, ∃ runId, event = .watchSent runId := fun event hmem =>
    watchEvent_sent (hsplit ▸ List.mem_append_right _ (List.mem_cons_of_mem _ hmem))
  refine ⟨log ++ before, after, by rw [hsplit, List.append_assoc], ?_, ?_, ?_⟩
  all_goals
    intro hmem
    obtain ⟨other, hother⟩ := hafter _ hmem
    cases hother

variable {link : Link α}

/-- Behind a pass everything is under way. -/
theorem pass_linked (h : Linked link) : Linked link.pass ∧ Covered link.pass := by
  have hwatches : ∀ runId ∈ link.runs.shared.watched,
      link.runs.shared.rawViews.get? runId = none → Awaits link.pass.log runId := by
    intro runId hrun hnone
    by_cases hsent : runKey runId ∈ link.sent
    · refine (h.watches runId hrun hnone hsent).append ?_ ?_ ?_
      all_goals
        intro hmem
        obtain ⟨other, hother⟩ := watchEvent_sent hmem
        cases hother
    · obtain ⟨id, hasked⟩ := reconcile_watches link.counter hrun hsent
      exact awaits_sent hasked
  have hcontents : ∀ key bytes, link.runs.shared.artifacts.get? key = some (.loading bytes) →
      askedOffsets link.pass.outstanding key = [bytes.length] ∧
        ∀ offset, contentRequestKey key.1 key.2 offset ∈ link.pass.sent ↔
          offset = bytes.length := by
    intro key bytes hloading
    have hwanted := (h.requests key bytes.length).2 ⟨bytes, hloading, rfl⟩
    obtain ⟨hsent, hasked⟩ := reconcile_content link.sent link.counter h.plain hwanted
    refine ⟨?_, hsent⟩
    rw [Link.pass, askedOffsets_append, hasked]
    rcases h.contents key bytes hloading with ⟨hnone, hnew⟩ | ⟨hone, hkey⟩
    · rw [hnone, if_neg hnew, List.nil_append]
    · rw [hone, if_pos ((hkey _).2 rfl), List.append_nil]
  refine ⟨⟨h.requests, h.plain, fun key bytes hloading => .inr (hcontents key bytes hloading),
    fun runId hrun hnone _ => hwatches runId hrun hnone⟩, hwatches,
    fun key bytes hloading => (hcontents key bytes hloading).1⟩

theorem reconnect_linked (h : Linked link) : Linked link.reconnect :=
  ⟨h.requests, h.plain, fun _ _ _ => .inl ⟨rfl, List.not_mem_nil⟩,
    fun _ _ _ hsent => absurd hsent List.not_mem_nil⟩

/-! ## Calls of the user and events -/

/-- What a call does to the entry of a content and to the wish for it. -/
inductive EntryStep (key : String × String) (state later : Shared) : Prop where
  | same (hentry : later.artifacts.get? key = state.artifacts.get? key)
      (hwish : later.contentRequests.get? key = state.contentRequests.get? key)
  | marked (content message : String) (hready : state.artifacts.get? key = some (.ready content))
      (herror : later.artifacts.get? key = some (.error message))
      (hwish : later.contentRequests.get? key = state.contentRequests.get? key)
  | asked (hnone : state.artifacts.get? key = none)
      (hloading : later.artifacts.get? key = some (.loading []))
      (hwish : later.contentRequests.get? key = some 0)

theorem EntryStep.refl (key : String × String) (state : Shared) : EntryStep key state state :=
  .same rfl rfl

theorem EntryStep.trans {key : String × String} {first second third : Shared}
    (h : EntryStep key first second) (h' : EntryStep key second third) :
    EntryStep key first third := by
  cases h with
  | same hentry hwish =>
      cases h' with
      | same hentry' hwish' => exact .same (hentry'.trans hentry) (hwish'.trans hwish)
      | marked content message hready herror hwish' =>
          exact .marked content message (hentry ▸ hready) herror (hwish'.trans hwish)
      | asked hnone hloading hwish' => exact .asked (hentry ▸ hnone) hloading hwish'
  | marked content message hready herror hwish =>
      cases h' with
      | same hentry' hwish' =>
          exact .marked content message hready (hentry'.trans herror) (hwish'.trans hwish)
      | marked content' message' hready' =>
          rw [herror] at hready'
          cases hready'
      | asked hnone =>
          rw [herror] at hnone
          cases hnone
  | asked hnone hloading hwish =>
      cases h' with
      | same hentry' hwish' =>
          exact .asked hnone (hentry'.trans hloading) (hwish'.trans hwish)
      | marked content message hready =>
          rw [hloading] at hready
          cases hready
      | asked hnone' =>
          rw [hloading] at hnone'
          cases hnone'

/-- A content is dropped together with the wish for it. -/
def Dropped (key : String × String) (later : Shared) : Prop :=
  later.artifacts.get? key = none ∧ later.contentRequests.get? key = none

/-- Steps that neither send nor end a request. What is asked for must not have been. -/
theorem linked_of_entries {later : Link α} (h : Linked link)
    (houtstanding : later.outstanding = link.outstanding) (hsent : later.sent = link.sent)
    (hentries : ∀ key, EntryStep key link.runs.shared later.runs.shared ∨
      Dropped key later.runs.shared)
    (hfresh : ∀ key, link.runs.shared.artifacts.get? key = none →
      later.runs.shared.artifacts.get? key = some (.loading []) → Plain key.1 ∧ AsksFrom link key 0)
    (hwatches : ∀ runId ∈ later.runs.shared.watched,
      later.runs.shared.rawViews.get? runId = none → runKey runId ∈ link.sent →
        Awaits later.log runId) : Linked later := by
  refine ⟨fun key n => ?_, fun key n hwish => ?_, fun key bytes hloading => ?_,
    fun runId hrun hnone hkey => hwatches runId hrun hnone (hsent ▸ hkey)⟩
  · rcases hentries key with (⟨hentry, hwish⟩ | ⟨content, message, hready, herror, hwish⟩ |
      ⟨hnone, hloading, hwish⟩) | ⟨hentry, hwish⟩
    · rw [hentry, hwish]
      exact h.requests key n
    · rw [herror, hwish, h.requests key n, hready]
      simp
    · rw [hloading, hwish]
      simp [eq_comm]
    · rw [hentry, hwish]
      simp
  · rcases hentries key with (⟨hentry, hsame⟩ | ⟨content, message, hready, herror, hsame⟩ |
      ⟨hnone, hloading, hsame⟩) | ⟨hentry, hsame⟩
    · exact h.plain key n (hsame ▸ hwish)
    · exact h.plain key n (hsame ▸ hwish)
    · exact (hfresh key hnone hloading).1
    · rw [hsame] at hwish
      cases hwish
  · rw [AsksFrom, houtstanding, hsent]
    rcases hentries key with (⟨hentry, hwish⟩ | ⟨content, message, hready, herror, hwish⟩ |
      ⟨hnone, hasked, hwish⟩) | ⟨hentry, hwish⟩
    · exact h.contents key bytes (hentry ▸ hloading)
    · rw [herror] at hloading
      cases hloading
    · obtain ⟨-, hasks⟩ := hfresh key hnone hasked
      rw [hasked] at hloading
      cases hloading
      exact hasks
    · rw [hentry] at hloading
      cases hloading

variable (sha256) in
theorem artifactContent_entry (state : Shared) (runId : String) (artifact : Option ArtifactRef)
    (types : List String) (label : String) (key : String × String) :
    EntryStep key state (artifactContent sha256 state runId artifact types label).2 ∧
      ((artifactContent sha256 state runId artifact types label).2.artifacts.get? key =
          state.artifacts.get? key ∨
        ∃ a, artifact = some a ∧ key = (runId, a.path)) := by
  cases artifact with
  | none => exact ⟨.refl key state, .inl rfl⟩
  | some artifact =>
      by_cases hkey : key = (runId, artifact.path)
      · subst hkey
        refine ⟨?_, .inr ⟨artifact, rfl, rfl⟩⟩
        simp only [artifactContent, referencedContent]
        split
        · next content hready =>
            split
            · exact .refl _ state
            · exact .marked content _ hready (Table.get?_put_self ..) rfl
        · exact .refl _ state
        · exact .refl _ state
        · next hnone => exact .asked hnone (Table.get?_put_self ..) (Table.get?_put_self ..)
      · have hput : ∀ entry, (state.artifacts.put (runId, artifact.path) entry).get? key =
            state.artifacts.get? key := fun entry => Table.get?_put_ne hkey _ _
        have hwish : (state.contentRequests.put (runId, artifact.path) 0).get? key =
            state.contentRequests.get? key := Table.get?_put_ne hkey _ _
        simp only [artifactContent, referencedContent]
        split
        · split
          · exact ⟨.refl _ state, .inl rfl⟩
          · exact ⟨.same (hput _) rfl, .inl (hput _)⟩
        · exact ⟨.refl _ state, .inl rfl⟩
        · exact ⟨.refl _ state, .inl rfl⟩
        · exact ⟨.same (hput _) hwish, .inl (hput _)⟩

variable (sha256) in
/-- Decoding asks for the contents that its snapshot refers to. -/
theorem viewContent_entry (state : Shared) (runId : String) (raw : Json) (key : String × String) :
    EntryStep key state (viewContent sha256 state runId raw).2 ∧
      ((viewContent sha256 state runId raw).2.artifacts.get? key = state.artifacts.get? key ∨
        ∃ path ∈ artifactPaths raw, key = (runId, path)) := by
  have hpath : ∀ {artifact : Option ArtifactRef}, artifact ∈ [workflowDefinitionArtifact raw,
      graphHistoryArtifact raw, displayReasonArtifact raw] → ∀ {e e' : Option ArtifactEntry},
      (e' = e ∨ ∃ a, artifact = some a ∧ key = (runId, a.path)) →
      e' = e ∨ ∃ path ∈ artifactPaths raw, key = (runId, path) := by
    rintro artifact hmem e e' (hsame | ⟨a, hsome, hkey⟩)
    · exact .inl hsame
    · exact .inr ⟨a.path, List.mem_filterMap.2 ⟨artifact, hmem, by rw [hsome]; rfl⟩, hkey⟩
  have hcompose : ∀ {e e' e'' : Option ArtifactEntry} {P : Prop}, (e' = e ∨ P) → (e'' = e' ∨ P) →
      (e'' = e ∨ P) := by
    rintro e e' e'' P (rfl | hp) h
    · exact h
    · exact .inr hp
  simp only [viewContent]
  obtain ⟨hstep, hentry⟩ := artifactContent_entry sha256 state runId
    (workflowDefinitionArtifact raw) ["application/json"] "workflow definition" key
  obtain ⟨hstep', hentry'⟩ := artifactContent_entry sha256
    (artifactContent sha256 state runId (workflowDefinitionArtifact raw) ["application/json"]
      "workflow definition").2 runId
    (graphHistoryArtifact raw) ["application/json"] "workflow graph history" key
  obtain ⟨hstep'', hentry''⟩ := artifactContent_entry sha256 _ runId
    (displayReasonArtifact raw) ["text/plain", "application/json"] "workflow display reason" key
  exact ⟨(hstep.trans hstep').trans hstep'',
    hcompose (hcompose (hpath (by simp) hentry) (hpath (by simp) hentry')) (hpath (by simp) hentry'')⟩

theorem get?_watch (runs : RemoteRuns α) (runId : String) :
    (∀ other, (runs.watch runId).shared.rawViews.get? other =
      if other ∈ runs.shared.watched ∧ other ≠ runId then none
      else runs.shared.rawViews.get? other) ∧
      ∀ key, ((runs.watch runId).shared.artifacts.get? key = runs.shared.artifacts.get? key ∧
          (runs.watch runId).shared.contentRequests.get? key =
            runs.shared.contentRequests.get? key) ∨
        Dropped key (runs.watch runId).shared := by
  have hleft : ∀ (left : List String) (runs : RemoteRuns α),
      (∀ other, (left.foldl RemoteRuns.leave runs).shared.rawViews.get? other =
        if other ∈ left then none else runs.shared.rawViews.get? other) ∧
      ∀ key : String × String,
        (left.foldl RemoteRuns.leave runs).shared.artifacts.get? key =
            (if key.1 ∈ left then none else runs.shared.artifacts.get? key) ∧
          (left.foldl RemoteRuns.leave runs).shared.contentRequests.get? key =
            if key.1 ∈ left then none else runs.shared.contentRequests.get? key := by
    intro left
    induction left with
    | nil => exact fun runs => ⟨fun other => rfl, fun key => ⟨rfl, rfl⟩⟩
    | cons old rest ih =>
        intro runs
        obtain ⟨hraw, hentry⟩ := ih (runs.leave old)
        have hdelete : ∀ {ρ : Type} (t : Table (String × String) ρ) (key : String × String),
            (t.deleteWhere fun k _ => decide (k.1 = old)).get? key =
              if key.1 = old then none else t.get? key := by
          intro ρ t key
          rw [Table.get?_deleteWhere]
          cases t.get? key with
          | none => simp
          | some r =>
              by_cases heq : key.1 = old
              · simp [heq]
              · simp [heq]
        have hite : ∀ {ρ : Type} (x : Option ρ) (left : String),
            (if left ∈ rest then none else if left = old then none else x) =
              if left ∈ old :: rest then none else x := by
          intro ρ x left
          by_cases hrest : left ∈ rest
          · simp [hrest]
          · by_cases hold : left = old
            · simp [hold]
            · simp [hrest, hold]
        refine ⟨fun other => ?_, fun key => ?_⟩
        · rw [List.foldl_cons, hraw, RemoteRuns.leave, get?_discarded, hite]
        · obtain ⟨hartifact, hwish⟩ := hentry key
          rw [List.foldl_cons, hartifact, hwish, RemoteRuns.leave, discardRunState, hdelete,
            hdelete, hite, hite]
          exact ⟨rfl, rfl⟩
  obtain ⟨hraw, hentry⟩ := hleft (runs.shared.watched.filter (· ≠ runId)) runs
  refine ⟨fun other => ?_, fun key => ?_⟩
  · refine (hraw other).trans ?_
    simp only [List.mem_filter, decide_eq_true_eq]
  · obtain ⟨hartifact, hwish⟩ := hentry key
    split at hartifact
    · next hmem =>
        rw [if_pos hmem] at hwish
        exact .inr ⟨hartifact, hwish⟩
    · next hmem =>
        rw [if_neg hmem] at hwish
        exact .inl ⟨hartifact, hwish⟩

theorem watch_linked (h : Linked link) {runId : String}
    (hfits : LinkFits link (.call (.watch runId))) :
    Linked (link.call sha256 decoder (.watch runId)) := by
  obtain ⟨hraw, hentries⟩ := get?_watch link.runs runId
  refine linked_of_entries h rfl rfl (fun key => ?_) (fun key hnone hloading => ?_) ?_
  · exact (hentries key).imp (fun hsame => .same hsame.1 hsame.2) id
  · rcases hentries key with hsame | hdropped
    · have hbefore := hsame.1.symm.trans hloading
      rw [hnone] at hbefore
      cases hbefore
    · have hafter := hdropped.1.symm.trans hloading
      cases hafter
  · intro other hother hnone hkey
    obtain rfl : other = runId := List.mem_singleton.1 hother
    have hbefore : link.runs.shared.rawViews.get? other = none := by
      rw [← hnone]
      refine ((hraw other).trans (if_neg fun hleft => hleft.2 rfl)).symm
    have hwatched : other ∈ link.runs.shared.watched := hfits.resolve_right fun hnew => hnew hkey
    refine (h.watches other hwatched hbefore hkey).append ?_ ?_ ?_
    · simp [Link.callEvents]
    · simp [Link.callEvents]
    · simp [Link.callEvents]

/-- A call after which the same runs are watched, with the same snapshots. -/
theorem linked_of_same (h : Linked link) {action : ClientAction}
    (hevents : link.callEvents action = [])
    (hwatched : (link.runs.act sha256 decoder action).shared.watched = link.runs.shared.watched)
    (hraw : (link.runs.act sha256 decoder action).shared.rawViews = link.runs.shared.rawViews)
    (hentries : ∀ key, EntryStep key link.runs.shared
      (link.runs.act sha256 decoder action).shared)
    (hfresh : ∀ key, link.runs.shared.artifacts.get? key = none →
      (link.runs.act sha256 decoder action).shared.artifacts.get? key = some (.loading []) →
      Plain key.1 ∧ AsksFrom link key 0) :
    Linked (link.call sha256 decoder action) := by
  refine linked_of_entries h rfl rfl (fun key => .inl (hentries key)) hfresh ?_
  intro runId hrun hnone hkey
  rw [Link.call, hwatched] at hrun
  rw [Link.call, hraw] at hnone
  rw [Link.call, hevents, List.append_nil]
  exact h.watches runId hrun hnone hkey

theorem linked_of_unchanged (h : Linked link) {action : ClientAction}
    (hevents : link.callEvents action = [])
    (hsame : (link.runs.act sha256 decoder action).shared = link.runs.shared) :
    Linked (link.call sha256 decoder action) := by
  refine linked_of_same h hevents (by rw [hsame]) (by rw [hsame]) (fun key => ?_)
    (fun key hnone hloading => ?_)
  · rw [hsame]
    exact .refl key _
  · rw [hsame, hnone] at hloading
    cases hloading

theorem requestArtifact_linked (h : Linked link) {runId path : String}
    (hfits : LinkFits link (.call (.requestArtifact runId path))) :
    Linked (link.call sha256 decoder (.requestArtifact runId path)) := by
  obtain ⟨hplain, hfresh⟩ := hfits
  by_cases hthere : (link.runs.shared.artifacts.get? (runId, path)).isSome = true
  · refine linked_of_unchanged h rfl ?_
    rw [RemoteRuns.act, RemoteRuns.requestArtifact, if_pos hthere]
  · have hput : link.runs.act sha256 decoder (.requestArtifact runId path) =
        { link.runs with
          shared := { link.runs.shared with
            artifacts := link.runs.shared.artifacts.put (runId, path) (.loading [])
            contentRequests := link.runs.shared.contentRequests.put (runId, path) 0 } } := by
      rw [RemoteRuns.act, RemoteRuns.requestArtifact, if_neg hthere]
    have hnone : link.runs.shared.artifacts.get? (runId, path) = none :=
      Option.not_isSome_iff_eq_none.1 hthere
    refine linked_of_same h rfl (by rw [hput]) (by rw [hput]) (fun key => ?_)
      (fun key hfree hloading => ?_)
    · rw [hput]
      by_cases hkey : key = (runId, path)
      · subst hkey
        exact .asked hnone (Table.get?_put_self ..) (Table.get?_put_self ..)
      · exact .same (Table.get?_put_ne hkey ..) (Table.get?_put_ne hkey ..)
    · by_cases hkey : key = (runId, path)
      · subst hkey
        exact ⟨hplain, hfresh hnone⟩
      · rw [hput] at hloading
        have hbefore := (Table.get?_put_ne hkey link.runs.shared.artifacts
          (.loading [])).symm.trans hloading
        rw [hfree] at hbefore
        cases hbefore

variable (sha256) in
theorem viewContent_watched (state : Shared) (runId : String) (raw : Json) :
    (viewContent sha256 state runId raw).2.watched = state.watched := by
  have hstep : ∀ (state : Shared) (artifact : Option ArtifactRef) (types : List String)
      (label : String),
      (artifactContent sha256 state runId artifact types label).2.watched = state.watched := by
    intro state artifact types label
    cases artifact with
    | none => rfl
    | some artifact =>
        simp only [artifactContent, referencedContent]
        split
        · split
          · rfl
          · rfl
        all_goals rfl
  simp only [viewContent, hstep]

theorem view_linked (h : Linked link) {runId : String}
    (hfits : LinkFits link (.call (.view runId))) :
    Linked (link.call sha256 decoder (.view runId)) := by
  obtain ⟨hplain, hfresh⟩ := hfits
  rcases view_cases sha256 decoder link.runs runId with
    ⟨-, hview⟩ | ⟨states, hview⟩ | ⟨raw, hheld, -, hview⟩
  · exact linked_of_unchanged h rfl (by rw [RemoteRuns.act, hview])
  · exact linked_of_unchanged h rfl (by rw [RemoteRuns.act, hview])
  · have hshared : (link.runs.act sha256 decoder (.view runId)).shared =
        (viewContent sha256 link.runs.shared runId raw.value).2 := by
      rw [RemoteRuns.act, hview]
      exact shared_keepOutcome ..
    refine linked_of_same h rfl ?_ ?_ (fun key => ?_) (fun key hnone hloading => ?_)
    · rw [hshared, viewContent_watched]
    · rw [hshared, (viewContent_frame sha256 link.runs.shared runId raw.value).1]
    · rw [hshared]
      exact (viewContent_entry sha256 link.runs.shared runId raw.value key).1
    · rw [hshared] at hloading
      rcases (viewContent_entry sha256 link.runs.shared runId raw.value key).2 with
        hsame | ⟨path, hpath, rfl⟩
      · rw [hsame, hnone] at hloading
        cases hloading
      · exact ⟨hplain, hfresh raw path hheld hpath hnone⟩

theorem message_linked (h : Linked link) {message : ServerMessage}
    (hfits : LinkFits link (.call (.message message))) :
    Linked (link.call sha256 decoder (.message message)) := by
  cases message with
  | hello => exact linked_of_unchanged h rfl rfl
  | response outcome receipt => exact hfits.elim
  | runSnapshot runId revision payload =>
      cases runId with
      | none => exact linked_of_unchanged h rfl rfl
      | some runId =>
          refine linked_of_entries h rfl rfl (fun key => .inl (.same rfl rfl))
            (fun key hnone hloading => ?_) (fun other hother hnone hkey => ?_)
          · have hbefore : link.runs.shared.artifacts.get? key = some (.loading []) := hloading
            rw [hnone] at hbefore
            cases hbefore
          · have hput : (link.runs.shared.rawViews.put runId
                ⟨revision.getD 0, (u64Member payload "revision").getD (revision.getD 0),
                  wrappingSucc link.runs.shared.nextViewGeneration, payload⟩).get? other = none :=
              hnone
            rw [Table.get?_put] at hput
            split at hput
            · cases hput
            · next hne =>
                refine (h.watches other hother hput hkey).append ?_ ?_ ?_
                · simp [Link.callEvents]
                · simp [Link.callEvents]
                · simpa [Link.callEvents] using hne

theorem call_linked (h : Linked link) {action : ClientAction}
    (hfits : LinkFits link (.call action)) : Linked (link.call sha256 decoder action) := by
  cases action with
  | message message => exact message_linked h hfits
  | watch runId => exact watch_linked h hfits
  | requestPage runId kind cursor =>
      refine linked_of_same h rfl rfl rfl (fun key => .same rfl rfl) (fun key hnone hloading => ?_)
      have hbefore : link.runs.shared.artifacts.get? key = some (.loading []) := hloading
      rw [hnone] at hbefore
      cases hbefore
  | requestArtifact runId path => exact requestArtifact_linked h hfits
  | view runId => exact view_linked h hfits

end PiWorkflows.Tui
