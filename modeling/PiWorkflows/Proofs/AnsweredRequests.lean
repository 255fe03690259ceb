import PiWorkflows.Proofs.LinkRequests

/-!
# Answers, and runs of a connection

A chunk answers the one request for its content that is under way, from the length of
what is there, so the content is complete behind it or it is longer and not asked for:
the invariant of `LinkRequests.lean` holds behind an answer too, and by induction over
the run behind every pass.
-/

namespace PiWorkflows.Tui

open Fallible ViewContents

variable {α : Type} {sha256 : Bytes → Vector UInt8 32} {decoder : ViewDecoder α}

/-! ## Reading a chunk -/

theorem u64Member_same {a b : Json} (h : SameJson a b) (key : String) :
    u64Member a key = u64Member b key := by
  rw [u64Member, u64Member]
  rcases (h.member? key).eq_or_composite with heq | ⟨_, _, ha, hb⟩ | ⟨_, _, ha, hb⟩
  · rw [heq]
  · rw [ha, hb]
    rfl
  · rw [ha, hb]
    rfl

theorem u64Member_of (value : Json) (key : String) (n : Nat)
    (hmember : value.member? key = some (.num (.ofNat n))) (hn : n < 2 ^ 64) :
    u64Member value key = some n := by
  have hvalue : Nat.ofDigitChars 10 (JsNumber.ofNat n).text.toList 0 = n := by
    rw [JsNumber.ofNat, Nat.toList_repr, Nat.ofDigitChars_ten_toDigits]
  rw [u64Member, hmember, Option.bind_some, asU64, hvalue, if_pos ⟨rfl, hn⟩]

theorem decodeBase64_of (bytes : Bytes) :
    decodeBase64 (String.ofList (base64OfBytes bytes)) = some bytes := by
  rw [decodeBase64, String.toList_ofList, bytesOfBase64_base64OfBytes]
  exact if_pos rfl

/-- The fields a chunk is read as. -/
def chunkOf (runId : String) (record : ContentRecord) (offset : Nat) : ContentChunk where
  runId := runId
  path := record.path
  offset := offset
  nextOffset := chunkEnd record offset
  total := record.bytes.length
  sha256 := record.sha256
  complete := decide (chunkEnd record offset = record.bytes.length)
  data := (record.bytes.drop offset).take (chunkEnd record offset - offset)

theorem contentChunk?_of {runId : String} {record : ContentRecord} {offset : Nat}
    (hbytes : record.bytes.length ≤ BUFFER_MAX_LENGTH) (hoffset : offset ≤ record.bytes.length) :
    contentChunk? (normalizeJson (ViewContents.contentChunk runId record offset)) =
      .ok (chunkOf runId record offset) := by
  have hsame := sameJson_normalize (ViewContents.contentChunk runId record offset)
  have hend : chunkEnd record offset ≤ record.bytes.length := Nat.min_le_left _ _
  have hsafe : BUFFER_MAX_LENGTH < 2 ^ 64 := by decide
  have hstart := u64Member_of (ViewContents.contentChunk runId record offset) "offset" offset rfl
    (by omega)
  have hnext := u64Member_of (ViewContents.contentChunk runId record offset) "nextOffset"
    (chunkEnd record offset) rfl (by omega)
  have htotal := u64Member_of (ViewContents.contentChunk runId record offset) "bytes"
    record.bytes.length rfl (by omega)
  simp only [contentChunk?, bind_ok, orThrow_ok, textMember_same hsame, u64Member_same hsame,
    boolMember_same hsame]
  exact ⟨_, rfl, _, rfl, _, hstart, _, hnext, _, htotal, _, rfl, _, rfl, _, rfl, _,
    decodeBase64_of _, rfl⟩

/-! ## What an answer does -/

theorem askedOffsets_eraseIdx {requests : List Request} {index : Nat} {request : Request}
    (h : requests[index]? = some request) (key : String × String) :
    ∃ before after, askedOffsets requests key =
        before ++ (askedOffset key request).toList ++ after ∧
      askedOffsets (requests.eraseIdx index) key = before ++ after := by
  obtain ⟨hlt, rfl⟩ := List.getElem?_eq_some_iff.1 h
  refine ⟨askedOffsets (requests.take index) key, askedOffsets (requests.drop (index + 1)) key,
    ?_, ?_⟩
  · have hsplit : requests = requests.take index ++ (requests[index] :: requests.drop (index + 1)) := by
      rw [List.cons_getElem_drop_succ, List.take_append_drop]
    conv_lhs => rw [hsplit, askedOffsets_append]
    rw [List.append_assoc]
    congr 1
    rw [askedOffsets, List.filterMap_cons]
    cases askedOffset key requests[index] with
    | none => rfl
    | some offset => rfl
  · rw [List.eraseIdx_eq_take_drop_succ, askedOffsets_append]

/-- What an answer does to a content: nothing, or the content is no longer loading, or
there is more of it. -/
inductive AnswerStep (key : String × String) (request : Request) (state later : Shared) : Prop where
  | same (hentry : later.artifacts.get? key = state.artifacts.get? key)
      (hwish : later.contentRequests.get? key = state.contentRequests.get? key)
      (hother : ∀ bytes, state.artifacts.get? key = some (.loading bytes) →
        askedOffset key request = none)
  | ended (hentry : ∀ bytes, later.artifacts.get? key ≠ some (.loading bytes))
      (hwish : later.contentRequests.get? key = none)
  | appended (bytes more : Bytes) (hloading : state.artifacts.get? key = some (.loading bytes))
      (hasked : askedOffset key request = some bytes.length)
      (hbegins : bytes <+: more) (hlonger : bytes.length < more.length)
      (hentry : later.artifacts.get? key = some (.loading more))
      (hwish : later.contentRequests.get? key = some more.length)

theorem completeEntry_settled (chunk : ContentChunk) (bytes more : Bytes) :
    completeEntry sha256 chunk bytes ≠ .loading more := by
  rw [completeEntry]
  split
  · nofun
  · split
    · nofun
    · nofun

/-- A content that is settled is no longer loading, and the others are as they were. -/
theorem answerStep_settle {state : Shared} {runId path : String} {id offset : Nat}
    {entry : ArtifactEntry} (hentry : ∀ bytes, entry ≠ .loading bytes) (k : String × String) :
    AnswerStep k ⟨id, .content runId path offset⟩ state
      (settleContent state (runId, path) entry) := by
  by_cases hkey : k = (runId, path)
  · subst hkey
    refine .ended (fun bytes hloading => ?_) ?_
    · exact hentry bytes (Option.some.inj
        ((Table.get?_put_self state.artifacts (runId, path) entry).symm.trans hloading))
    · exact (Table.get?_erase ..).trans (if_pos rfl)
  · exact .same (Table.get?_put_ne hkey ..) ((Table.get?_erase ..).trans (if_neg hkey))
      fun bytes hloading => askedOffset_other hkey id offset

/-- A chunk of a content that is loading. -/
theorem answerStep_merge {state : Shared} {runId : String} {record : ContentRecord}
    {offset id : Nat} {bytes : Bytes}
    (hloading : state.artifacts.get? (runId, record.path) = some (.loading bytes))
    (hoffset : offset ≤ record.bytes.length) (k : String × String) :
    AnswerStep k ⟨id, .content runId record.path offset⟩ state
      (mergeChunk sha256 state (chunkOf runId record offset) bytes) := by
  have hend : chunkEnd record offset = min record.bytes.length (offset + CONTENT_CHUNK_BYTES) := rfl
  have hchunk : 0 < CONTENT_CHUNK_BYTES := by decide
  have hdata : (chunkOf runId record offset).data.length = chunkEnd record offset - offset := by
    rw [chunkOf, List.length_take, List.length_drop]
    omega
  rw [mergeChunk]
  split
  · exact answerStep_settle (fun _ heq => by cases heq) k
  · next hfits =>
      split
      · exact answerStep_settle (fun more => completeEntry_settled _ _ more) k
      · next hmore =>
          have hpart : chunkEnd record offset ≠ record.bytes.length := fun heq =>
            hmore (decide_eq_true heq)
          have hstart : bytes.length = offset := by
            by_contra hne
            exact hfits (.inl hne)
          have hlength : (bytes ++ (chunkOf runId record offset).data).length =
              chunkEnd record offset := by
            rw [List.length_append, hdata]
            omega
          by_cases hkey : k = (runId, record.path)
          · subst hkey
            refine .appended bytes _ hloading ?_ (List.prefix_append _ _) ?_
              (Table.get?_put_self ..) ?_
            · rw [hstart]
              exact askedOffset_self (runId, record.path) id offset
            · rw [hlength]
              omega
            · rw [hlength]
              exact Table.get?_put_self ..
          · exact .same (Table.get?_put_ne hkey ..) (Table.get?_put_ne hkey ..)
              fun bytes hloading => askedOffset_other hkey id offset

/-- An answer leaves the runs that are watched, and the snapshots there are. -/
structure Answered (request : Request) (state later : Shared) : Prop where
  watched : later.watched = state.watched
  held : ∀ runId, later.rawViews.get? runId = none → state.rawViews.get? runId = none
  contents : ∀ key, AnswerStep key request state later

/-- What no request for a content does not concern. -/
theorem answerStep_refl {request : Request} {state later : Shared}
    (hartifacts : later.artifacts = state.artifacts)
    (hwishes : later.contentRequests = state.contentRequests) (key : String × String)
    (hother : ∀ bytes, state.artifacts.get? key = some (.loading bytes) →
      askedOffset key request = none) : AnswerStep key request state later :=
  .same (by rw [hartifacts]) (by rw [hwishes]) hother

theorem answered_chunk {state later : Shared} {runId : String} {record : ContentRecord}
    {offset id : Nat} (hbytes : record.bytes.length ≤ BUFFER_MAX_LENGTH)
    (hoffset : offset ≤ record.bytes.length)
    (h : handleServerMessage sha256 state
      ((Answer.chunk record).message (.content runId record.path offset)) = .ok later) :
    Answered ⟨id, .content runId record.path offset⟩ state later := by
  have hschema : textMember (normalizeJson (ViewContents.contentChunk runId record offset))
      "schema" = some "pi-workflows.content-chunk.v1" := by
    rw [textMember_same (sameJson_normalize _)]
    rfl
  have hmerge : mergeContent sha256 state
      (normalizeJson (ViewContents.contentChunk runId record offset)) = .ok later := by
    rw [← h, Answer.message, handleServerMessage.eq_def]
    dsimp only
    rw [if_neg (by decide), hschema]
    rfl
  simp only [mergeContent, bind_ok] at hmerge
  obtain ⟨chunk, hchunk, hmerge⟩ := hmerge
  obtain rfl : chunkOf runId record offset = chunk :=
    Except.ok.inj ((contentChunk?_of hbytes hoffset).symm.trans hchunk)
  split at hmerge
  · next bytes hloading =>
      obtain rfl := Except.ok.inj hmerge
      refine ⟨?_, fun other hnone => ?_, answerStep_merge hloading hoffset⟩
      · rw [mergeChunk]
        split
        · rfl
        · split
          · rfl
          · rfl
      · have hsettled : ∀ entry, (settleContent state (runId, record.path) entry).rawViews.get?
            other = none → state.rawViews.get? other = none := by
          intro entry hgone
          simp only [settleContent, bumpViewGeneration, Table.get?_update] at hgone
          split at hgone
          · exact Option.map_eq_none_iff.1 hgone
          · exact hgone
        rw [mergeChunk] at hnone
        split at hnone
        · exact hsettled _ hnone
        · split at hnone
          · exact hsettled _ hnone
          · exact hnone
  · next hnot =>
      obtain rfl := Except.ok.inj hmerge
      refine ⟨rfl, fun _ hnone => hnone, fun key => answerStep_refl rfl rfl key ?_⟩
      intro bytes hloading
      have hne : key ≠ (runId, record.path) := by
        rintro rfl
        exact hnot bytes hloading
      exact askedOffset_other hne id offset

theorem answered_other {request : Request} {answer : Answer} {state later : Shared}
    {operation : Operation} (hanswer : answer.NoChunk)
    (hrequest : ∀ key bytes, state.artifacts.get? key = some (.loading bytes) →
      askedOffset key request = none)
    (h : handleServerMessage sha256 state (answer.message operation) = .ok later) :
    Answered request state later := by
  obtain ⟨outcome, receipt, rfl, hreceipt⟩ := hanswer
  have hsame : Answered request state state :=
    ⟨rfl, fun _ hnone => hnone, fun key => answerStep_refl rfl rfl key (hrequest key)⟩
  rw [Answer.message, handleServerMessage.eq_def] at h
  dsimp only at h
  split at h
  · obtain rfl := Except.ok.inj h
    exact hsame
  · split at h
    · obtain rfl := Except.ok.inj h
      exact hsame
    · next value =>
        split at h
        · split at h
          · rcases mergePage_ok h with rfl | ⟨runId, raw, page, hheld, rfl⟩
            · exact hsame
            · refine ⟨rfl, fun other hnone => ?_,
                fun key => .same rfl rfl (hrequest key)⟩
              rw [Table.get?_put] at hnone
              split at hnone
              · cases hnone
              · exact hnone
          · obtain rfl := Except.ok.inj h
            exact hsame
        · next hchunk => exact absurd hchunk (hreceipt value rfl)
        · obtain rfl := Except.ok.inj h
          exact hsame

theorem answered_of_fits {request : Request} {answer : Answer} {state later : Shared}
    (hfits : AnswerFits state answer request.operation)
    (h : handleServerMessage sha256 state (answer.message request.operation) = .ok later) :
    Answered request state later := by
  obtain ⟨id, operation⟩ := request
  cases operation with
  | content runId path offset =>
      rcases hfits with ⟨record, rfl, rfl, hoffset, hbytes⟩ | ⟨hanswer, hsettled⟩
      · exact answered_chunk hbytes hoffset h
      · refine answered_other hanswer (fun key bytes hloading => ?_) h
        have hne : key ≠ (runId, path) := by
          rintro rfl
          exact hsettled bytes hloading
        exact askedOffset_other hne id offset
  | watchRuns | watchRun _ | unwatchRun _ | page _ _ _ =>
      exact answered_other hfits (fun _ _ _ => rfl) h

variable {link : Link α}

/-- An answer takes its request away, and that is the one its content waits for. -/
theorem answered_linked (h : Linked link) {index : Nat} {request : Request} {later : Shared}
    (hrequest : link.outstanding[index]? = some request)
    (hanswered : Answered request link.runs.shared later) :
    Linked { link with
      runs := { link.runs with shared := later }
      outstanding := link.outstanding.eraseIdx index } := by
  refine ⟨fun key n => ?_, fun key n hwish => ?_, fun key bytes hloading => ?_,
    fun runId hrun hnone hkey => ?_⟩
  · show later.contentRequests.get? key = some n ↔ _
    rcases hanswered.contents key with ⟨hentry, hwish, -⟩ | ⟨hentry, hwish⟩ |
      ⟨bytes, more, -, -, -, -, hentry, hwish⟩
    · rw [hentry, hwish]
      exact h.requests key n
    · rw [hwish]
      constructor
      · intro hnone
        cases hnone
      · rintro ⟨bytes, hloading, -⟩
        exact absurd hloading (hentry bytes)
    · rw [hentry, hwish]
      simp
  · rcases hanswered.contents key with ⟨-, hsame, -⟩ | ⟨-, hgone⟩ |
      ⟨bytes, more, hloading, -, -, -, -, -⟩
    · exact h.plain key n (hsame ▸ hwish)
    · rw [hgone] at hwish
      cases hwish
    · exact h.plain key _ ((h.requests key _).2 ⟨bytes, hloading, rfl⟩)
  · obtain ⟨before, after, hasked, hleft⟩ := askedOffsets_eraseIdx hrequest key
    show askedOffsets (link.outstanding.eraseIdx index) key = [] ∧ _ ∨ _
    rcases hanswered.contents key with ⟨hentry, -, hother⟩ | ⟨hentry, -⟩ |
      ⟨bytes', more, hbefore, hoffset, -, hlonger, hentry, -⟩
    · have hbefore := hentry ▸ hloading
      rw [hother bytes hbefore, Option.toList_none, List.append_nil] at hasked
      rw [hleft, ← hasked]
      exact h.contents key bytes hbefore
    · exact absurd hloading (hentry bytes)
    · obtain rfl : more = bytes := ArtifactEntry.loading.inj
        (Option.some.inj (hentry.symm.trans hloading))
      rw [hoffset, Option.toList_some] at hasked
      left
      rcases h.contents key bytes' hbefore with ⟨hnone, -⟩ | ⟨hone, hsent⟩
      · rw [hasked] at hnone
        simp at hnone
      · rw [hasked] at hone
        have hlengths := congrArg List.length hone
        simp only [List.length_append, List.length_singleton] at hlengths
        have hempty : (before ++ after).length = 0 := by
          rw [List.length_append]
          omega
        refine ⟨hleft.trans (List.length_eq_zero_iff.1 hempty), fun hkey => ?_⟩
        have hsame := (hsent more.length).1 hkey
        omega
  · rw [hanswered.watched] at hrun
    exact h.watches runId hrun (hanswered.held runId hnone) hkey

theorem respond_linked (h : Linked link) {index : Nat} {answer : Answer}
    (hfits : LinkFits link (.respond index answer)) : Linked (link.respond sha256 index answer) := by
  rw [Link.respond]
  split
  · exact h
  · next request hrequest =>
      split
      · exact reconnect_linked h
      · next later hhandled =>
          exact answered_linked h hrequest (answered_of_fits (hfits request hrequest) hhandled)

/-- What is there of a content grows by the answer to the request for what follows. -/
theorem respond_appends {index : Nat} {answer : Answer}
    (hfits : LinkFits link (.respond index answer)) {key : String × String} {bytes more : Bytes}
    (hloading : link.runs.shared.artifacts.get? key = some (.loading bytes))
    (hafter : (link.respond sha256 index answer).runs.shared.artifacts.get? key =
      some (.loading more)) :
    more = bytes ∨ bytes <+: more ∧ bytes.length < more.length ∧
      ∃ request, link.outstanding[index]? = some request ∧
        askedOffset key request = some bytes.length := by
  have hunchanged : link.runs.shared.artifacts.get? key = some (.loading more) → more = bytes := by
    intro hsame
    exact ArtifactEntry.loading.inj (Option.some.inj (hsame.symm.trans hloading))
  rw [Link.respond] at hafter
  split at hafter
  · exact .inl (hunchanged hafter)
  · next request hrequest =>
      split at hafter
      · exact .inl (hunchanged hafter)
      · next later hhandled =>
          rcases (answered_of_fits (hfits request hrequest) hhandled).contents key with
            ⟨hentry, -, -⟩ | ⟨hentry, -⟩ | ⟨bytes', more', hbefore, hasked, hbegins, hlonger, hentry, -⟩
          · exact .inl (hunchanged (hentry ▸ hafter))
          · exact absurd hafter (hentry more)
          · obtain rfl : bytes' = bytes := ArtifactEntry.loading.inj
              (Option.some.inj (hbefore.symm.trans hloading))
            obtain rfl : more' = more := ArtifactEntry.loading.inj
              (Option.some.inj (hentry.symm.trans hafter))
            exact .inr ⟨hbegins, hlonger, request, hrequest, hasked⟩

/-! ## Runs -/

theorem linked_act (h : Linked link) {action : LinkAction} (hfits : LinkFits link action) :
    Linked (link.act sha256 decoder action) := by
  cases action with
  | pass => exact (pass_linked h).1
  | call action => exact call_linked h hfits
  | respond index answer => exact respond_linked h hfits
  | reconnect => exact reconnect_linked h

theorem linked_empty : Linked ({} : Link α) where
  requests key n := by simp
  plain key n hwish := by cases hwish
  contents key bytes hloading := by cases hloading
  watches runId hrun := absurd hrun List.not_mem_nil

/-- Every step of a run fits the connection before it. -/
def LinkRunFits (sha256 : Bytes → Vector UInt8 32) (decoder : ViewDecoder α)
    (actions : List LinkAction) : Prop :=
  ∀ before action after, actions = before ++ action :: after →
    LinkFits (Link.acts sha256 decoder {} before) action

theorem linked_acts {actions : List LinkAction} (hfits : LinkRunFits sha256 decoder actions) :
    Linked (Link.acts sha256 decoder {} actions) := by
  induction actions using List.reverseRecOn with
  | nil => exact linked_empty
  | append_singleton actions action ih =>
      rw [Link.acts, List.foldl_append]
      refine linked_act (ih fun before a after heq => ?_) (hfits actions action [] rfl)
      exact hfits before a (after ++ [action]) (by rw [heq, List.append_assoc]; rfl)

/-- Behind every pass of a run whose steps fit, a run that is watched has a snapshot or waits
for one on this connection, and a content that is loading has one request under way, from
its length on. What there is of a content only grows, by the answer to that request. -/
theorem passes_covered (sha256 : Bytes → Vector UInt8 32) (decoder : ViewDecoder α)
    (actions : List LinkAction) (hfits : LinkRunFits sha256 decoder actions) :
    let link := Link.acts sha256 decoder {} actions
    Covered link.pass ∧ ∀ index answer, LinkFits link (.respond index answer) →
      ∀ key bytes more, link.runs.shared.artifacts.get? key = some (.loading bytes) →
        (link.respond sha256 index answer).runs.shared.artifacts.get? key =
          some (.loading more) →
        more = bytes ∨ bytes <+: more ∧ bytes.length < more.length ∧
          ∃ request, link.outstanding[index]? = some request ∧
            askedOffset key request = some bytes.length := by
  intro link
  have hlinked : Linked link := linked_acts hfits
  refine ⟨(pass_linked hlinked).2, fun index answer hanswer key bytes more hloading hafter => ?_⟩
  exact respond_appends hanswer hloading hafter

theorem linkRunFits_concat {actions : List LinkAction} {action : LinkAction}
    (hfits : LinkRunFits sha256 decoder actions)
    (hlast : LinkFits (Link.acts sha256 decoder {} actions) action) :
    LinkRunFits sha256 decoder (actions ++ [action]) := by
  intro before a after heq
  rcases List.eq_nil_or_concat after with rfl | ⟨rest, last, rfl⟩
  · obtain ⟨rfl, hsame⟩ := List.append_inj' heq rfl
    obtain rfl : action = a := List.head_eq_of_cons_eq hsame
    exact hlast
  · refine hfits before a rest ?_
    rw [List.concat_eq_append, ← List.cons_append, ← List.append_assoc] at heq
    exact (List.append_inj' heq rfl).1

/-! A content of one chunk: it is asked for while the run waits for its snapshot. -/

def notes : ContentRecord :=
  ⟨"run", "notes.txt", .text, [104, 105], String.ofList (hexDigest noDigest [104, 105])⟩

/-- The run is watched and its content is asked for in one pass. -/
def askedLink : Link Json :=
  Link.acts noDigest wholeDecoder {}
    [.call (.watch "run"), .call (.requestArtifact "run" "notes.txt"), .pass]

theorem notes_covered : askedOffsets askedLink.outstanding ("run", "notes.txt") = [0] ∧
    Covered (askedLink.respond noDigest 2 (.chunk notes)).pass := by
  have hplain : Plain "run" := by
    rw [Plain]
    decide
  have hfree : LinkRunFits noDigest wholeDecoder [] := by
    intro before action after heq
    simp at heq
  have hwatch : LinkRunFits noDigest wholeDecoder [.call (.watch "run")] :=
    linkRunFits_concat hfree (.inr List.not_mem_nil)
  have hasked : LinkRunFits noDigest wholeDecoder
      [.call (.watch "run"), .call (.requestArtifact "run" "notes.txt")] :=
    linkRunFits_concat hwatch ⟨hplain, fun _ => .inl ⟨rfl, List.not_mem_nil⟩⟩
  have hpass : LinkRunFits noDigest wholeDecoder
      [.call (.watch "run"), .call (.requestArtifact "run" "notes.txt"), .pass] :=
    linkRunFits_concat hasked trivial
  have hrequest : askedLink.outstanding[2]? = some ⟨3, .content "run" "notes.txt" 0⟩ := by
    decide +kernel
  refine ⟨by decide +kernel, ?_⟩
  have hanswer : LinkFits askedLink (.respond 2 (.chunk notes)) := by
    intro request hthere
    obtain rfl := Option.some.inj (hrequest.symm.trans hthere)
    exact .inl ⟨notes, rfl, rfl, Nat.zero_le _, by decide⟩
  exact (passes_covered noDigest wholeDecoder _ (linkRunFits_concat hpass hanswer)).1

/-! A run that is left and entered again between two passes. -/

/-- A snapshot of the first run has come before it is left. -/
def reenteredLink : Link Json :=
  Link.acts noDigest wholeDecoder {}
    [.call (.watch "first"), .pass,
      .call (.message (.runSnapshot (some "first") (some 1) (.obj []))),
      .call (.watch "second"), .call (.watch "first")]

theorem reenteredRun_uncovered : "first" ∈ reenteredLink.pass.runs.shared.watched ∧
    reenteredLink.pass.runs.shared.rawViews.get? "first" = none ∧
    ¬ Awaits reenteredLink.pass.log "first" ∧ ¬ Covered reenteredLink.pass := by
  have hevents : reenteredLink.pass.runs.shared.watched = ["first"] ∧
      reenteredLink.pass.runs.shared.rawViews.get? "first" = none ∧
      reenteredLink.pass.log =
        [.watchSent "first", .snapshotCame "first", .discarded "first", .discarded "second"] := by
    decide +kernel
  obtain ⟨hwatched, hnone, hlog⟩ := hevents
  have hrun : "first" ∈ reenteredLink.pass.runs.shared.watched := by
    rw [hwatched]
    exact List.mem_singleton.2 rfl
  have hlost : ¬ Awaits reenteredLink.pass.log "first" := by
    rintro ⟨before, after, heq, -, hdiscarded, -⟩
    rw [hlog] at heq
    cases before with
    | nil =>
        rw [List.nil_append, List.cons.injEq] at heq
        refine hdiscarded ?_
        rw [← heq.2]
        decide
    | cons event before =>
        rw [List.cons_append, List.cons.injEq] at heq
        have hmem : LinkEvent.watchSent "first" ∈ [.snapshotCame "first", .discarded "first",
            LinkEvent.discarded "second"] := by
          rw [heq.2]
          exact List.mem_append_right _ List.mem_cons_self
        exact absurd hmem (by decide)
  exact ⟨hrun, hnone, hlost, fun hcovered => hlost (hcovered.1 "first" hrun hnone)⟩

end PiWorkflows.Tui
