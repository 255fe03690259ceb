import PiWorkflows.Proofs.SessionFolding

/-!
# Checkpoints of a replayed session

A fold that goes on from an earlier state copies what it will write to, so the
state says the same afterwards, and every other state that was there too
(`foldSessionEvents_spec`). What the fold returns is then a fact about transcripts,
and there a fold that goes on from a checkpoint ends where one from the start ends
(`reduceFrom_reduceFrom`).
-/

namespace PiWorkflows.SessionReplay

open Listing

/-! ## State objects -/

/-- A state object that can be gone on from: what it refers to is there and in
order. -/
structure StateObject.Sound (memory : Memory) (state : StateObject) : Prop where
  distinct : (state.messages.map TemporalMessage.messageId).Nodup
  blockThere : ∀ m ∈ state.messages, ∀ a ∈ m.blocks, a < memory.blocks.length
  sorted : ∀ m ∈ state.messages,
    (m.blocks.map memory.block).Pairwise fun a b => a.contentIndex < b.contentIndex
  toolThere : ∀ a ∈ state.tools, a < memory.tools.length
  toolSame : ∀ a ∈ state.tools, ∀ b ∈ state.tools,
    (memory.tool a).toolCallId = (memory.tool b).toolCallId → memory.tool a = memory.tool b
  settledThere : state.settledEntryIds < memory.texts.length
  diagnosticsThere : state.diagnostics < memory.texts.length

namespace StateObject.Sound

variable {memory memory' : Memory} {state : StateObject}

theorem blocks_eq (h : Sound memory state) (hgrown : memory.Extends memory')
    {m : TemporalMessage Nat} (hm : m ∈ state.messages) :
    m.blocks.map memory'.block = m.blocks.map memory.block :=
  List.map_congr_left fun a ha => hgrown.block (h.blockThere m hm a ha)

/-- What a state says is not changed by a memory that grows. -/
theorem read_eq (h : Sound memory state) (hgrown : memory.Extends memory') :
    read memory' state = read memory state := by
  refine TemporalSessionState.ext rfl ?_ ?_ ?_ ?_
  · refine List.map_congr_left fun m hm => ?_
    rw [h.blocks_eq hgrown hm]
  · exact List.map_congr_left fun a ha => hgrown.tool (h.toolThere a ha)
  · exact hgrown.text h.settledThere
  · exact hgrown.text h.diagnosticsThere

theorem mono (h : Sound memory state) (hgrown : memory.Extends memory') :
    Sound memory' state where
  distinct := h.distinct
  blockThere m hm a ha := (h.blockThere m hm a ha).trans_le hgrown.blocks.length_le
  sorted m hm := h.blocks_eq hgrown hm ▸ h.sorted m hm
  toolThere a ha := (h.toolThere a ha).trans_le hgrown.tools.length_le
  toolSame a ha b hb hid := by
    rw [hgrown.tool (h.toolThere a ha), hgrown.tool (h.toolThere b hb)] at hid ⊢
    exact h.toolSame a ha b hb hid
  settledThere := h.settledThere.trans_le hgrown.texts.length_le
  diagnosticsThere := h.diagnosticsThere.trans_le hgrown.texts.length_le

end StateObject.Sound

namespace Folding

variable {base : Memory} {f : Folding} {s : Transcript}

theorem Wf.sound (h : Wf base f) : StateObject.Sound f.memory f.state := by
  have hmessage : ∀ m ∈ f.state.messages, ∃ id held, f.messages.get? id = some held ∧
      m.messageId = held.messageId ∧ m.blocks = sortedBlocks f.memory held := by
    intro m hm
    obtain ⟨id, -, hm⟩ := List.mem_filterMap.1 hm
    obtain ⟨held, hheld, rfl⟩ := Option.map_eq_some_iff.1 hm
    exact ⟨id, held, hheld, rfl, rfl⟩
  have htool : ∀ a ∈ f.state.tools, ∃ id, f.tools.get? id = some a := by
    intro a ha
    obtain ⟨id, -, ha⟩ := List.mem_filterMap.1 ha
    exact ⟨id, ha⟩
  refine ⟨?_, fun m hm a ha => ?_, fun m hm => ?_, fun a ha => ?_, fun a ha b hb hid => ?_,
    h.settledHeld.2, h.diagnosed.2⟩
  · have hids : f.state.messages.map TemporalMessage.messageId = f.messageOrder := by
      show List.map _ (List.filterMap _ f.messageOrder) = f.messageOrder
      rw [List.map_filterMap]
      refine (List.filterMap_congr fun id hid => ?_).trans (List.filterMap_some)
      obtain ⟨m, hm⟩ := Option.isSome_iff_exists.1 ((h.ordered id).1 hid)
      rw [hm, Option.map_some, Option.map_some]
      exact congrArg some (h.keyed id m hm)
    rw [hids]
    exact h.distinct
  · obtain ⟨id, held, hheld, -, hblocks⟩ := hmessage m hm
    rw [hblocks, sortedBlocks, List.mem_mergeSort, List.mem_map] at ha
    obtain ⟨⟨i, a⟩, he, rfl⟩ := ha
    exact (h.indexed id held i a hheld (Table.mem_rows.1 he)).2.1
  · obtain ⟨id, held, hheld, -, hblocks⟩ := hmessage m hm
    rw [hblocks]
    exact (h.holds hheld).sorted
  · obtain ⟨id, hid⟩ := htool a ha
    exact (h.toolHeld id a hid).2.1
  · obtain ⟨ida, ha⟩ := htool a ha
    obtain ⟨idb, hb⟩ := htool b hb
    rw [(h.toolHeld ida a ha).2.2, (h.toolHeld idb b hb).2.2] at hid
    obtain rfl : a = b := Option.some.inj (ha.symm.trans (hid ▸ hb))
    rfl

/-! ## Going on from a state -/

theorem copyBlocks_spec (addresses : List Nat) : ∀ (blocks : Table Nat Nat) (memory : Memory)
    (held : List TemporalContentBlock) {n : Nat}, Holds held (lookBlock memory blocks) →
    (∀ a ∈ addresses, a < memory.blocks.length) →
    ((held ++ addresses.map memory.block).Pairwise fun a b => a.contentIndex < b.contentIndex) →
    (∀ i a, blocks.get? i = some a → n ≤ a ∧ a < memory.blocks.length) →
    n ≤ memory.blocks.length →
    (copyBlocks addresses blocks memory).2 =
        { memory with blocks := memory.blocks ++ addresses.map memory.block } ∧
      Holds (held ++ addresses.map memory.block)
        (lookBlock (copyBlocks addresses blocks memory).2 (copyBlocks addresses blocks memory).1) ∧
      ∀ i a, (copyBlocks addresses blocks memory).1.get? i = some a →
        n ≤ a ∧ a < (copyBlocks addresses blocks memory).2.blocks.length := by
  induction addresses with
  | nil =>
      intro blocks memory held n hheld _ _ hnew _
      simp only [List.map_nil, List.append_nil]
      exact ⟨rfl, hheld, hnew⟩
  | cons a rest ih =>
      intro blocks memory held n hheld hthere hsorted hnew hn
      have hgrown := Memory.Extends.newBlock memory (memory.block a)
      have hlength : (memory.newBlock (memory.block a)).2.blocks.length =
          memory.blocks.length + 1 := List.length_append
      have hrest : rest.map (memory.newBlock (memory.block a)).2.block = rest.map memory.block :=
        List.map_congr_left fun b hb => hgrown.block (hthere b (List.mem_cons_of_mem _ hb))
      have hlook : lookBlock (memory.newBlock (memory.block a)).2
          (blocks.put (memory.block a).contentIndex memory.blocks.length) = fun j =>
          if j = (memory.block a).contentIndex then some (memory.block a)
          else lookBlock memory blocks j := by
        funext j
        rw [lookBlock, Table.get?_put]
        split
        · exact congrArg some (Arena.read_new _ _ _)
        · rw [lookBlock]
          cases hj : blocks.get? j with
          | none => rfl
          | some b => exact congrArg some (hgrown.block (hnew j b hj).2)
      rw [List.map_cons] at hsorted ⊢
      have hbefore : ∀ b ∈ held, b.contentIndex < (memory.block a).contentIndex := fun b hb =>
        (List.pairwise_append.1 hsorted).2.2 b hb _ List.mem_cons_self
      have hstep := ih _ _ _ (n := n) (hlook ▸ hheld.append hbefore)
        (fun b hb => (hthere b (List.mem_cons_of_mem _ hb)).trans_le hgrown.blocks.length_le)
        (by rwa [hrest, List.append_assoc, List.singleton_append])
        (fun i b hb => by
          rw [Table.get?_put] at hb
          rw [hlength]
          split at hb
          · obtain rfl := Option.some.inj hb
            exact ⟨hn, Nat.lt_succ_self _⟩
          · exact ⟨(hnew i b hb).1, (hnew i b hb).2.trans (Nat.lt_succ_self _)⟩)
        (hn.trans hgrown.blocks.length_le)
      rw [hrest, List.append_assoc, List.singleton_append] at hstep
      refine ⟨hstep.1.trans ?_, hstep.2⟩
      show { memory with blocks := (memory.blocks ++ [memory.block a]) ++ _ } = _
      rw [List.append_assoc, List.singleton_append]

theorem Shows.copyMessages (messages : List (TemporalMessage Nat)) : ∀ {f : Folding}
    {s : Transcript}, Shows base f s → (messages.map TemporalMessage.messageId).Nodup →
    (∀ m ∈ messages, ∀ a ∈ m.blocks, a < base.blocks.length) →
    (∀ m ∈ messages,
      (m.blocks.map base.block).Pairwise fun a b => a.contentIndex < b.contentIndex) →
    (∀ m ∈ messages, f.messages.get? m.messageId = none) →
    Shows base (copyMessages messages f)
      { s with messages := s.messages ++ messages.map fun m =>
          { m with blocks := m.blocks.map base.block } } := by
  induction messages with
  | nil =>
      intro f s h _ _ _ _
      rw [List.map_nil, List.append_nil]
      exact h
  | cons m rest ih =>
      intro f s h hdistinct hthere hsorted hfree
      rw [List.map_cons, List.nodup_cons] at hdistinct
      have hread : m.blocks.map f.memory.block = m.blocks.map base.block :=
        List.map_congr_left fun a ha => h.grown.block (hthere m List.mem_cons_self a ha)
      have hsort := hsorted m List.mem_cons_self
      rw [← hread] at hsort
      obtain ⟨hmemory, hheld, hnew⟩ := copyBlocks_spec m.blocks .empty f.memory []
        (n := f.memory.blocks.length) holds_nil
        (fun a ha => (hthere m List.mem_cons_self a ha).trans_le h.grown.blocks.length_le)
        (by rwa [List.nil_append]) (fun i a ha => by cases ha) le_rfl
      rw [List.nil_append] at hheld
      have hindexed : ∀ i a, (copyBlocks m.blocks .empty f.memory).1.get? i = some a →
          ((copyBlocks m.blocks .empty f.memory).2.block a).contentIndex = i :=
        fun i a ha => hheld.keyed i _ (congrArg (Option.map _) ha)
      have hadded := h.addMessage (hfree m List.mem_cons_self)
        (m := ⟨m.messageId, m.role, m.status, m.entryId, (copyBlocks m.blocks .empty f.memory).1⟩)
        rfl hmemory fun i a ha => ⟨(hnew i a ha).1, (hnew i a ha).2, hindexed i a ha⟩
      rw [readMessage_blocks hindexed rfl hheld, hread] at hadded
      have hrest := ih hadded hdistinct.2 (fun m' hm' => hthere m' (List.mem_cons_of_mem _ hm'))
        (fun m' hm' => hsorted m' (List.mem_cons_of_mem _ hm')) fun m' hm' => by
          rw [Table.get?_put_ne, hfree m' (List.mem_cons_of_mem _ hm')]
          exact fun heq => hdistinct.1 (List.mem_map.2 ⟨m', hm', heq⟩)
      rw [List.append_assoc] at hrest
      exact hrest

theorem Shows.copyTools (tools : List Nat) : ∀ {f : Folding} {s : Transcript}, Shows base f s →
    (∀ a ∈ tools, a < base.tools.length) →
    (∀ a ∈ tools, ∀ b ∈ tools,
      (base.tool a).toolCallId = (base.tool b).toolCallId → base.tool a = base.tool b) →
    (∀ tool ∈ s.tools, ∀ a ∈ tools,
      tool.toolCallId = (base.tool a).toolCallId → tool = base.tool a) →
    Shows base (copyTools tools f) { s with tools := s.tools ++ tools.map base.tool } := by
  induction tools with
  | nil =>
      intro f s h _ _ _
      rw [List.map_nil, List.append_nil]
      exact h
  | cons a rest ih =>
      intro f s h hthere hsame hknown
      have hread : f.memory.tool a = base.tool a := h.grown.tool (hthere a List.mem_cons_self)
      -- A call that is there already says the same, so taking its place changes nothing.
      have hplace : (s.tools.map fun other =>
          if other.toolCallId = (base.tool a).toolCallId then base.tool a else other) = s.tools := by
        refine (List.map_congr_left fun tool htool => ?_).trans (List.map_id _)
        split
        · next hid => exact (hknown tool htool a List.mem_cons_self hid).symm
        · rfl
      have hstarted := h.startTool (base.tool a)
      rw [Transcript.startTool, hplace] at hstarted
      have hrest := ih hstarted (fun b hb => hthere b (List.mem_cons_of_mem _ hb))
        (fun b hb c hc => hsame b (List.mem_cons_of_mem _ hb) c (List.mem_cons_of_mem _ hc))
        fun tool htool b hb hid => by
          rcases List.mem_append.1 htool with htool | htool
          · exact hknown tool htool b (List.mem_cons_of_mem _ hb) hid
          · rw [List.mem_singleton.1 htool] at hid ⊢
            exact hsame a List.mem_cons_self b (List.mem_cons_of_mem _ hb) hid
      rw [List.append_assoc] at hrest
      rw [Folding.copyTools, hread]
      exact hrest

/-- The variables before the loop, with nothing copied yet. -/
theorem shows_texts (base : Memory) (settled diagnosed : List String) (throughSeq : Nat) :
    Shows base
      { memory := ((base.newTexts settled).2.newTexts diagnosed).2
        messages := .empty, messageOrder := [], tools := .empty, toolOrder := []
        settledEntryIds := (base.newTexts settled).1
        diagnostics := ((base.newTexts settled).2.newTexts diagnosed).1
        expectedSeq := throughSeq + 1, lastSeq := throughSeq }
      ⟨throughSeq, [], [], settled, diagnosed⟩ := by
  have hfirst := Memory.Extends.newTexts base settled
  have hsecond := Memory.Extends.newTexts (base.newTexts settled).2 diagnosed
  have hlength : (base.newTexts settled).2.texts.length = base.texts.length + 1 :=
    List.length_append
  have hlength' : ((base.newTexts settled).2.newTexts diagnosed).2.texts.length =
      (base.newTexts settled).2.texts.length + 1 := List.length_append
  have hids : (base.newTexts settled).1 = base.texts.length ∧
      ((base.newTexts settled).2.newTexts diagnosed).1 = (base.newTexts settled).2.texts.length :=
    ⟨rfl, rfl⟩
  refine ⟨⟨hfirst.trans hsecond, ?_, ?_, ?_, ?_, List.nodup_nil, ?_, ?_, ?_, ?_, ?_, rfl⟩, ?_⟩
  · intro id m hm
    cases hm
  · intro id m i a hm
    cases hm
  · intro id m i id' m' i' a hm
    cases hm
  · intro id
    simp
  · intro id a ha
    cases ha
  · intro id
    simp
  · show base.texts.length ≤ (base.newTexts settled).1 ∧
      (base.newTexts settled).1 < ((base.newTexts settled).2.newTexts diagnosed).2.texts.length
    omega
  · show base.texts.length ≤ ((base.newTexts settled).2.newTexts diagnosed).1 ∧
      ((base.newTexts settled).2.newTexts diagnosed).1 <
        ((base.newTexts settled).2.newTexts diagnosed).2.texts.length
    omega
  · show (base.newTexts settled).1 ≠ ((base.newTexts settled).2.newTexts diagnosed).1
    omega
  · refine TemporalSessionState.ext rfl rfl rfl ?_ (Arena.read_new _ _ _)
    have hthere : base.texts.length < (base.newTexts settled).2.texts.length := by omega
    exact (hsecond.text hthere).trans (Arena.read_new _ _ _)

theorem shows_begin {initial : Option StateObject}
    (hinitial : ∀ state, initial = some state → StateObject.Sound base state) :
    Shows base (begin initial base) ((initial.map (StateObject.read base)).getD .empty) := by
  cases initial with
  | none => exact shows_texts base [] [] 0
  | some state =>
      have hsound := hinitial state rfl
      have htexts := shows_texts base (base.text state.settledEntryIds)
        (base.text state.diagnostics) state.throughSeq
      have hmessages := htexts.copyMessages state.messages hsound.distinct hsound.blockThere
        hsound.sorted fun m _ => rfl
      exact hmessages.copyTools state.tools hsound.toolThere hsound.toolSame
        fun tool htool => by cases htool

end Folding

/-! ## Loops -/

section

variable {σ τ : Type} {lastSeq : σ → Nat} {lastSeq' : τ → Nat} {visit : SessionEvent → σ → σ}
  {visit' : SessionEvent → τ → τ} {throughSeq c n : Nat} {events : List SessionEvent}

/-- Two loops whose states stay related. -/
theorem replay_related {R : σ → τ → Prop} (hseq : ∀ {s t}, R s t → lastSeq s = lastSeq' t)
    (hvisit : ∀ {s t} event, R s t → R (visit event s) (visit' event t)) :
    ∀ (events : List SessionEvent) {s : σ} {t : τ}, R s t →
      R (replay lastSeq visit throughSeq events s) (replay lastSeq' visit' throughSeq events t)
  | [], _, _, h => h
  | event :: rest, s, t, h => by
      rw [replay, replay, hseq h]
      split
      · exact replay_related hseq hvisit rest h
      · split
        · exact h
        · exact replay_related hseq hvisit rest (hvisit event h)

/-- A round ends at the number of its event. -/
def Counts (lastSeq : σ → Nat) (visit : SessionEvent → σ → σ) : Prop :=
  ∀ event s, lastSeq (visit event s) = event.seq

theorem replay_mono (hcounts : Counts lastSeq visit) : ∀ (events : List SessionEvent) (s : σ),
    lastSeq s ≤ lastSeq (replay lastSeq visit throughSeq events s)
  | [], _ => le_rfl
  | event :: rest, s => by
      rw [replay]
      split
      · exact replay_mono hcounts rest s
      · next hnew =>
          split
          · exact le_rfl
          · refine le_trans ?_ (replay_mono hcounts rest _)
            rw [hcounts]
            omega

theorem replay_le (hcounts : Counts lastSeq visit) : ∀ (events : List SessionEvent) {s : σ},
    lastSeq s ≤ throughSeq → lastSeq (replay lastSeq visit throughSeq events s) ≤ throughSeq
  | [], _, h => h
  | event :: rest, s, h => by
      rw [replay]
      split
      · exact replay_le hcounts rest h
      · split
        · exact h
        · refine replay_le hcounts rest ?_
          rw [hcounts]
          omega

/-- In order, the loop gets past every event up to the end. -/
theorem replay_reaches (hcounts : Counts lastSeq visit) : ∀ {events : List SessionEvent} (s : σ),
    events.Pairwise (fun a b => a.seq < b.seq) → ∀ event ∈ events, event.seq ≤ throughSeq →
      event.seq ≤ lastSeq (replay lastSeq visit throughSeq events s)
  | [], _, _, _, hmem, _ => by cases hmem
  | head :: rest, s, hsorted, event, hmem, hend => by
      have hmono : ∀ s', lastSeq s' ≤ lastSeq (replay lastSeq visit throughSeq rest s') :=
        replay_mono hcounts rest
      rw [List.pairwise_cons] at hsorted
      have hhead : head.seq ≤ event.seq := by
        rcases List.mem_cons.1 hmem with rfl | hmem
        · exact le_rfl
        · exact (hsorted.1 event hmem).le
      have hlast : ∀ s', head.seq ≤ lastSeq s' →
          event.seq ≤ lastSeq (replay lastSeq visit throughSeq rest s') := by
        intro s' hs'
        rcases List.mem_cons.1 hmem with rfl | hmem
        · exact hs'.trans (hmono s')
        · exact replay_reaches hcounts s' hsorted.2 event hmem hend
      rw [replay]
      split
      · next hseen => exact hlast s hseen
      · split
        · omega
        · exact hlast _ (hcounts head s).ge

/-- A loop that is stopped can be gone on with. -/
theorem replay_replay (hcounts : Counts lastSeq visit) (hle : c ≤ n) :
    ∀ (events : List SessionEvent) (s : σ),
      replay lastSeq visit n events (replay lastSeq visit c events s) =
        replay lastSeq visit n events s
  | [], _ => rfl
  | event :: rest, s => by
      by_cases hseen : event.seq ≤ lastSeq s
      · have hfirst : ∀ m, replay lastSeq visit m (event :: rest) s =
            replay lastSeq visit m rest s := fun m => by rw [replay, if_pos hseen]
        rw [hfirst, hfirst, replay, if_pos (hseen.trans (replay_mono hcounts rest s))]
        exact replay_replay hcounts hle rest s
      · by_cases hend : c < event.seq
        · have hstop : replay lastSeq visit c (event :: rest) s = s := by
            rw [replay, if_neg hseen, if_pos hend]
          rw [hstop]
        · have hvisit : ∀ m, c ≤ m → replay lastSeq visit m (event :: rest) s =
              replay lastSeq visit m rest (visit event s) := fun m hm => by
            rw [replay, if_neg hseen, if_neg (by omega)]
          rw [hvisit c le_rfl, hvisit n hle, replay,
            if_pos ((hcounts event s).ge.trans (replay_mono hcounts rest _))]
          exact replay_replay hcounts hle rest (visit event s)

end

/-! ## What a fold returns -/

variable {entries : List SessionEntry} {events : List SessionEvent} {throughSeq c n : Nat}

namespace Transcript

theorem throughSeq_assist (s : Transcript) (message : Message) (step : AssistantStep) :
    (s.assist message step).throughSeq = s.throughSeq := by
  cases step with
  | finish i kind assistantType content =>
      rw [assist]
      split <;> rfl
  | _ => rfl

theorem throughSeq_finishMessage (knownEntries : List String) (s : Transcript) (id : String)
    (payload : Payload) : (s.finishMessage knownEntries id payload).throughSeq = s.throughSeq := by
  unfold finishMessage
  split
  · dsimp only
    split <;> rfl
  · rfl

theorem counts_visit (knownEntries : List String) :
    Counts TemporalSessionState.throughSeq (visit knownEntries) := by
  intro event s
  have hcount : (count s event).throughSeq = event.seq := rfl
  unfold visit
  generalize count s event = s at *
  cases event.type with
  | message_started =>
      simp only [onMessageStarted]
      split
      · exact hcount
      · split <;> exact hcount
  | assistant_event =>
      simp only [onAssistantEvent]
      split
      · exact hcount
      · split
        · exact hcount
        · exact (throughSeq_assist s _ _).trans hcount
  | message_finished =>
      simp only [onMessageFinished]
      split
      · exact hcount
      · split
        · exact hcount
        · exact (throughSeq_finishMessage knownEntries s _ _).trans hcount
  | tool_execution_started =>
      simp only [onToolStarted]
      split <;> exact hcount
  | tool_execution_finished =>
      simp only [onToolFinished]
      split <;> exact hcount
  | turn_started => exact hcount
  | turn_finished => exact hcount
  | tool_execution_updated => exact hcount
  | other name => exact hcount

theorem reduceFrom_reduceFrom (hle : c ≤ n) (s : Transcript) :
    reduceFrom entries events n (reduceFrom entries events c s) = reduceFrom entries events n s :=
  replay_replay (counts_visit _) hle events s

end Transcript

/-- A fold leaves what was there, and says what the transcripts say. -/
theorem foldSessionEvents_spec (entries : List SessionEntry) (events : List SessionEvent)
    (throughSeq : Nat) (initial : Option StateObject) (memory : Memory)
    (hinitial : ∀ state, initial = some state → StateObject.Sound memory state) :
    memory.Extends (foldSessionEvents entries events throughSeq initial memory).2 ∧
      StateObject.Sound (foldSessionEvents entries events throughSeq initial memory).2
        (foldSessionEvents entries events throughSeq initial memory).1 ∧
      StateObject.read (foldSessionEvents entries events throughSeq initial memory).2
          (foldSessionEvents entries events throughSeq initial memory).1 =
        Transcript.reduceFrom entries events throughSeq
          ((initial.map (StateObject.read memory)).getD .empty) := by
  have hshows : Folding.Shows memory
      (replay Folding.lastSeq (Folding.visit (entryIds entries)) throughSeq events
        (Folding.begin initial memory))
      (Transcript.reduceFrom entries events throughSeq
        ((initial.map (StateObject.read memory)).getD .empty)) :=
    replay_related (fun h => congrArg TemporalSessionState.throughSeq h.transcript)
      (fun event h => h.visit _ event) events (Folding.shows_begin hinitial)
  exact ⟨hshows.grown, hshows.sound, hshows.transcript⟩

/-! ## Checkpoints -/

/-- A checkpoint from which every later position is reached as from the start. -/
structure Checkpointed (entries : List SessionEntry) (events : List SessionEvent)
    (memory : Memory) (checkpoint : Nat × StateObject) : Prop where
  sound : StateObject.Sound memory checkpoint.2
  seq : checkpoint.2.throughSeq = checkpoint.1
  reaches : ∀ n, checkpoint.1 ≤ n →
    Transcript.reduceFrom entries events n (StateObject.read memory checkpoint.2) =
      Transcript.reduceFrom entries events n .empty

theorem Checkpointed.mono {memory memory' : Memory} {checkpoint : Nat × StateObject}
    (h : Checkpointed entries events memory checkpoint) (hgrown : memory.Extends memory') :
    Checkpointed entries events memory' checkpoint where
  sound := h.sound.mono hgrown
  seq := h.seq
  reaches n hn := by
    rw [h.sound.read_eq hgrown]
    exact h.reaches n hn

theorem seqAt_mono (hsorted : events.Pairwise fun a b => a.seq < b.seq) {e e' : ℚ} (hlt : e < e')
    {seq seq' : Nat} (hseq : seqAt events e = some seq) (hseq' : seqAt events e' = some seq') :
    seq ≤ seq' := by
  have hplace : ∀ {e : ℚ} {seq : Nat}, seqAt events e = some seq →
      ∃ (k : Nat) (hk : k < events.length), e = k ∧ events[k].seq = seq := by
    intro e seq h
    unfold seqAt at h
    split at h
    · next hwhole =>
        obtain ⟨event, hevent, rfl⟩ := Option.map_eq_some_iff.1 h
        obtain ⟨hk, hget⟩ := List.getElem?_eq_some_iff.1 hevent
        refine ⟨e.num.toNat, hk, ?_, congrArg _ hget⟩
        have hnum : 0 ≤ e.num := Rat.num_nonneg.2 hwhole.2
        rw [← Int.cast_natCast, Int.toNat_of_nonneg hnum]
        exact (Rat.coe_int_num_of_den_eq_one hwhole.1).symm
    · cases h
  obtain ⟨k, hk, rfl, rfl⟩ := hplace hseq
  obtain ⟨k', hk', rfl, rfl⟩ := hplace hseq'
  exact (List.pairwise_iff_getElem.1 hsorted k k' hk hk' (Nat.cast_lt.1 hlt)).le

theorem checkpointEnds_sorted {interval : ℚ} (hinterval : 1 ≤ interval) (length : Nat) :
    (checkpointEnds interval length).Pairwise (· < ·) := by
  refine List.Pairwise.filter _ ?_
  rw [List.pairwise_map]
  refine List.pairwise_lt_range.imp fun {k k'} hlt => ?_
  have hcast : (k : ℚ) + 1 < k' + 1 := add_lt_add_of_lt_of_le (Nat.cast_lt.2 hlt) le_rfl
  have hpositive : 0 < interval := zero_lt_one.trans_le hinterval
  exact sub_lt_sub_right (mul_lt_mul_of_pos_right hcast hpositive) 1

theorem checkpointsFrom_spec (hsorted : events.Pairwise fun a b => a.seq < b.seq) :
    ∀ (ends : List ℚ) {c : Nat} {state : StateObject} {memory : Memory},
      ends.Pairwise (· < ·) → Checkpointed entries events memory (c, state) →
      (∀ e ∈ ends, ∀ seq, seqAt events e = some seq → c ≤ seq) →
      memory.Extends (checkpointsFrom entries events ends state memory).2 ∧
        ∀ checkpoint ∈ (checkpointsFrom entries events ends state memory).1,
          Checkpointed entries events (checkpointsFrom entries events ends state memory).2
            checkpoint
  | [], _, _, memory, _, _, _ => ⟨.refl memory, fun _ h => by cases h⟩
  | e :: rest, c, state, memory, hends, hcheck, hahead => by
      rw [List.pairwise_cons] at hends
      rw [checkpointsFrom]
      dsimp only
      obtain ⟨hgrown, hsound, hread⟩ := foldSessionEvents_spec entries events
        ((seqAt events e).getD state.throughSeq) (some state) memory
        (by rintro _ ⟨⟩; exact hcheck.sound)
      have hcounts := Transcript.counts_visit (entryIds entries)
      have hle : c ≤ (seqAt events e).getD state.throughSeq := by
        cases hseq : seqAt events e with
        | none => exact hcheck.seq.ge
        | some seq => exact hahead e List.mem_cons_self seq hseq
      have hnext : ∀ e' ∈ rest, ∀ seq, seqAt events e' = some seq →
          (seqAt events e).getD state.throughSeq ≤ seq := by
        intro e' he' seq' hseq'
        cases hseq : seqAt events e with
        | none => exact hcheck.seq.le.trans (hahead e' (List.mem_cons_of_mem _ he') seq' hseq')
        | some seq => exact seqAt_mono hsorted (hends.1 e' he') hseq hseq'
      have hend : (Transcript.reduceFrom entries events ((seqAt events e).getD state.throughSeq)
          (StateObject.read memory state)).throughSeq =
            (seqAt events e).getD state.throughSeq := by
        refine le_antisymm (replay_le hcounts events (hcheck.seq.le.trans hle)) ?_
        cases hseq : seqAt events e with
        | none => exact replay_mono hcounts events (StateObject.read memory state)
        | some seq =>
            unfold seqAt at hseq
            split at hseq
            · obtain ⟨event, hevent, rfl⟩ := Option.map_eq_some_iff.1 hseq
              exact replay_reaches hcounts _ hsorted event (List.mem_of_getElem? hevent) le_rfl
            · cases hseq
      rw [Option.map_some, Option.getD_some] at hread
      generalize (seqAt events e).getD state.throughSeq = seq at *
      generalize foldSessionEvents entries events seq (some state) memory = folded at *
      have hfolded : Checkpointed entries events folded.2 (seq, folded.1) := by
        refine ⟨hsound, ?_, fun n hn => ?_⟩
        · rw [← hend, ← hread]
          rfl
        · rw [hread, Transcript.reduceFrom_reduceFrom hn]
          exact hcheck.reaches n (hle.trans hn)
      obtain ⟨hlater, hall⟩ := checkpointsFrom_spec hsorted rest hends.2 hfolded hnext
      refine ⟨hgrown.trans hlater, fun checkpoint hmem => ?_⟩
      rcases List.mem_cons.1 hmem with rfl | hmem
      · exact hfolded.mono hlater
      · exact hall checkpoint hmem

theorem new_spec (hsorted : events.Pairwise fun a b => a.seq < b.seq) {interval : ℚ}
    (hinterval : 1 ≤ interval) (memory : Memory) :
    ∀ checkpoint ∈ (SessionReplayIndex.new entries events interval memory).1.checkpoints,
      Checkpointed entries events (SessionReplayIndex.new entries events interval memory).2
        checkpoint := by
  obtain ⟨-, hsound, hread⟩ := foldSessionEvents_spec entries events 0 none memory
    (by rintro _ ⟨⟩)
  rw [SessionReplayIndex.new]
  dsimp only
  have hfirst : Checkpointed entries events (foldSessionEvents entries events 0 none memory).2
      (0, (foldSessionEvents entries events 0 none memory).1) := by
    refine ⟨hsound, ?_, fun n hn => ?_⟩
    · refine Nat.le_zero.1 (le_trans (congrArg TemporalSessionState.throughSeq hread).le ?_)
      exact replay_le (Transcript.counts_visit _) events le_rfl
    · rw [hread]
      exact Transcript.reduceFrom_reduceFrom hn .empty
  obtain ⟨hlater, hall⟩ := checkpointsFrom_spec hsorted
    (checkpointEnds interval events.length) (checkpointEnds_sorted hinterval _) hfirst
    fun _ _ _ _ => Nat.zero_le _
  intro checkpoint hmem
  rcases List.mem_cons.1 hmem with rfl | hmem
  · exact hfirst.mono hlater
  · exact hall checkpoint hmem

namespace SessionReplayIndex

variable {index : SessionReplayIndex} {memory : Memory}

theorem stateAtSeq_spec
    (hindex : ∀ checkpoint ∈ index.checkpoints,
      Checkpointed index.entries index.events memory checkpoint) (n : Nat) :
    memory.Extends (index.stateAtSeq n memory).2 ∧
      StateObject.Sound (index.stateAtSeq n memory).2 (index.stateAtSeq n memory).1 ∧
      StateObject.read (index.stateAtSeq n memory).2 (index.stateAtSeq n memory).1 =
        Transcript.reduceFrom index.entries index.events n .empty := by
  rw [stateAtSeq]
  cases hfound : index.checkpoints.reverse.find? fun checkpoint => checkpoint.1 ≤ n with
  | none =>
      exact foldSessionEvents_spec index.entries index.events n none memory
        (by rintro _ ⟨⟩)
  | some checkpoint =>
      have hcheck := hindex checkpoint (List.mem_reverse.1 (List.mem_of_find?_eq_some hfound))
      have hle := List.find?_some hfound
      rw [decide_eq_true_eq] at hle
      obtain ⟨hgrown, hsound, hread⟩ := foldSessionEvents_spec index.entries index.events n
        (some checkpoint.2) memory (by rintro _ ⟨⟩; exact hcheck.sound)
      exact ⟨hgrown, hsound, hread.trans (hcheck.reaches n hle)⟩

theorem statesAt_spec : ∀ (ns : List Nat) {memory : Memory},
    (∀ checkpoint ∈ index.checkpoints,
      Checkpointed index.entries index.events memory checkpoint) →
    memory.Extends (index.statesAt ns memory).2 ∧
      (index.statesAt ns memory).1.map (StateObject.read (index.statesAt ns memory).2) =
        ns.map fun n => Transcript.reduceFrom index.entries index.events n .empty
  | [], memory, _ => ⟨.refl memory, rfl⟩
  | n :: rest, memory, hindex => by
      obtain ⟨hgrown, hsound, hread⟩ := stateAtSeq_spec hindex n
      obtain ⟨hlater, hrest⟩ := statesAt_spec rest fun checkpoint hmem =>
        (hindex checkpoint hmem).mono hgrown
      refine ⟨hgrown.trans hlater, ?_⟩
      rw [List.map_cons, ← hrest, ← hread, ← hsound.read_eq hlater]
      rfl

end SessionReplayIndex

/-- Whatever states are read from the index, and in whatever order, each says in the
end what the reducer says from the start. -/
theorem statesAt_eq_reduceSessionEvents (entries : List SessionEntry) (events : List SessionEvent)
    (hsorted : events.Pairwise fun a b => a.seq < b.seq) (interval : ℚ) (hinterval : 1 ≤ interval)
    (ns : List Nat) (memory : Memory) :
    let made := SessionReplayIndex.new entries events interval memory
    let read := made.1.statesAt ns made.2
    read.1.map (StateObject.read read.2) = ns.map fun n =>
      StateObject.read (reduceSessionEvents entries events n memory).2
        (reduceSessionEvents entries events n memory).1 := by
  intro made read
  have hindex : ∀ checkpoint ∈ made.1.checkpoints,
      Checkpointed made.1.entries made.1.events made.2 checkpoint :=
    new_spec hsorted hinterval memory
  refine (SessionReplayIndex.statesAt_spec ns hindex).2.trans (List.map_congr_left fun n _ => ?_)
  obtain ⟨-, -, hread⟩ := foldSessionEvents_spec entries events n none memory
    (by rintro _ ⟨⟩)
  exact hread.symm

/-- A message that is opened, and whose text ends. -/
def spokenEvents : List SessionEvent :=
  [ { seq := 1, at_ := "", nodeId := "", attemptId := "", messageId := some "m"
      type := .message_started },
    { seq := 3, at_ := "", nodeId := "", attemptId := "", messageId := some "m"
      type := .assistant_event
      payload := [("type", .str "text_end"), ("contentIndex", .num (.ofNat 0)),
        ("content", .str "hi")] } ]

theorem spokenEvents_statesAt :
    let made := SessionReplayIndex.new [] spokenEvents 1 {}
    let read := made.1.statesAt [3, 1, 3] made.2
    read.1.map (StateObject.read read.2) = [3, 1, 3].map fun n =>
      StateObject.read (reduceSessionEvents [] spokenEvents n {}).2
        (reduceSessionEvents [] spokenEvents n {}).1 :=
  statesAt_eq_reduceSessionEvents [] spokenEvents (by simp [spokenEvents]) 1 le_rfl [3, 1, 3] {}

end PiWorkflows.SessionReplay
