import PiWorkflows.Lib.Arena
import PiWorkflows.Lib.Listing
import PiWorkflows.Proofs.SessionBlocks

/-!
# The fold makes the transcript

The fold writes to objects that it has made itself: the addresses in its maps are
behind the memory it began with, and no two places of its maps hold the same one.
A write through one of them is seen in one place of the state and in no state that
was there before (`Folding.Wf`). On such a fold each operation of the program does
to what is read what the operation on transcripts does (`Folding.Shows`).
-/

namespace PiWorkflows.SessionReplay

open Listing

/-! ## Memories that grow -/

/-- Nothing that was there has changed. -/
structure Memory.Extends (base memory : Memory) : Prop where
  blocks : base.blocks <+: memory.blocks
  tools : base.tools <+: memory.tools
  texts : base.texts <+: memory.texts

namespace Memory.Extends

variable {base memory memory' : Memory} {a : Nat}

theorem refl (memory : Memory) : memory.Extends memory :=
  ⟨List.prefix_refl _, List.prefix_refl _, List.prefix_refl _⟩

theorem trans (h : base.Extends memory) (h' : memory.Extends memory') : base.Extends memory' :=
  ⟨h.blocks.trans h'.blocks, h.tools.trans h'.tools, h.texts.trans h'.texts⟩

theorem block (h : base.Extends memory) (ha : a < base.blocks.length) :
    memory.block a = base.block a := Arena.read_prefix h.blocks ha _

theorem tool (h : base.Extends memory) (ha : a < base.tools.length) :
    memory.tool a = base.tool a := Arena.read_prefix h.tools ha _

theorem text (h : base.Extends memory) (ha : a < base.texts.length) :
    memory.text a = base.text a := Arena.read_prefix h.texts ha _

theorem newBlock (memory : Memory) (block : TemporalContentBlock) :
    memory.Extends (memory.newBlock block).2 :=
  ⟨List.prefix_append _ _, List.prefix_refl _, List.prefix_refl _⟩

theorem newTool (memory : Memory) (tool : TemporalTool) :
    memory.Extends (memory.newTool tool).2 :=
  ⟨List.prefix_refl _, List.prefix_append _ _, List.prefix_refl _⟩

theorem newTexts (memory : Memory) (texts : List String) :
    memory.Extends (memory.newTexts texts).2 :=
  ⟨List.prefix_refl _, List.prefix_refl _, List.prefix_append _ _⟩

theorem writeBlock (h : base.Extends memory) (ha : base.blocks.length ≤ a)
    (g : TemporalContentBlock → TemporalContentBlock) : base.Extends (memory.writeBlock a g) :=
  ⟨Arena.prefix_modify h.blocks ha g, h.tools, h.texts⟩

theorem writeTool (h : base.Extends memory) (ha : base.tools.length ≤ a)
    (g : TemporalTool → TemporalTool) : base.Extends (memory.writeTool a g) :=
  ⟨h.blocks, Arena.prefix_modify h.tools ha g, h.texts⟩

theorem push (h : base.Extends memory) (ha : base.texts.length ≤ a) (text : String) :
    base.Extends (memory.push a text) :=
  ⟨h.blocks, h.tools, Arena.prefix_modify h.texts ha _⟩

end Memory.Extends

/-! ## What is read of a fold -/

def readMessage (memory : Memory) (message : MutableMessage) : Message where
  messageId := message.messageId
  role := message.role
  status := message.status
  entryId := message.entryId
  blocks := (Folding.sortedBlocks memory message).map memory.block

/-- A message reads as the blocks that its map holds. -/
theorem readMessage_blocks {memory : Memory} {message : MutableMessage}
    {blocks : List TemporalContentBlock} {look : Nat → Option TemporalContentBlock}
    (hindexed : ∀ i a, message.blocks.get? i = some a → (memory.block a).contentIndex = i)
    (hlook : lookBlock memory message.blocks = look) (hblocks : Holds blocks look) :
    readMessage memory message =
      ⟨message.messageId, message.role, message.status, message.entryId, blocks⟩ := by
  have hheld := holds_sortedBlocks hindexed
  rw [hlook] at hheld
  rw [readMessage, hheld.unique hblocks]

namespace Folding

/-- The memory has a new block, and a message has its address. -/
def withBlock (f : Folding) (memory : Memory) (id : String) (i : Nat) : Folding :=
  { f with
    memory
    messages := f.messages.update id fun message =>
      { message with blocks := message.blocks.put i f.memory.blocks.length } }

/-- What the state would say that is returned now. -/
def transcript (f : Folding) : Transcript :=
  StateObject.read f.memory f.state

def message? (f : Folding) (messageId : String) : Option Message :=
  (f.messages.get? messageId).map (readMessage f.memory)

def tool? (f : Folding) (toolCallId : String) : Option TemporalTool :=
  (f.tools.get? toolCallId).map f.memory.tool

theorem transcript_messages (f : Folding) :
    f.transcript.messages = listed f.message? f.messageOrder := by
  show List.map _ (List.filterMap _ f.messageOrder) = List.filterMap _ f.messageOrder
  rw [List.map_filterMap]
  refine List.filterMap_congr fun id _ => ?_
  rw [message?, Option.map_map]
  rfl

theorem transcript_tools (f : Folding) : f.transcript.tools = listed f.tool? f.toolOrder := by
  show List.map _ (List.filterMap _ f.toolOrder) = List.filterMap _ f.toolOrder
  rw [List.map_filterMap]
  rfl

/-- The maps of a fold and the objects it has made. -/
structure Wf (base : Memory) (f : Folding) : Prop where
  grown : base.Extends f.memory
  keyed : ∀ id m, f.messages.get? id = some m → m.messageId = id
  indexed : ∀ id m i a, f.messages.get? id = some m → m.blocks.get? i = some a →
    base.blocks.length ≤ a ∧ a < f.memory.blocks.length ∧ (f.memory.block a).contentIndex = i
  apart : ∀ id m i id' m' i' a, f.messages.get? id = some m → m.blocks.get? i = some a →
    f.messages.get? id' = some m' → m'.blocks.get? i' = some a → id = id'
  ordered : ∀ id, id ∈ f.messageOrder ↔ (f.messages.get? id).isSome = true
  distinct : f.messageOrder.Nodup
  toolHeld : ∀ id a, f.tools.get? id = some a →
    base.tools.length ≤ a ∧ a < f.memory.tools.length ∧ (f.memory.tool a).toolCallId = id
  toolOrdered : ∀ id, id ∈ f.toolOrder ↔ (f.tools.get? id).isSome = true
  settledHeld : base.texts.length ≤ f.settledEntryIds ∧ f.settledEntryIds < f.memory.texts.length
  diagnosed : base.texts.length ≤ f.diagnostics ∧ f.diagnostics < f.memory.texts.length
  textsApart : f.settledEntryIds ≠ f.diagnostics
  expected : f.expectedSeq = f.lastSeq + 1

/-- A fold that would return an object that says this. -/
structure Shows (base : Memory) (f : Folding) (s : Transcript) : Prop extends Wf base f where
  transcript : f.transcript = s

variable {base : Memory} {f : Folding} {s : Transcript}

namespace Wf

theorem message_keyed (h : Wf base f) : Keyed TemporalMessage.messageId f.message? := by
  intro id m hm
  obtain ⟨message, hmessage, rfl⟩ := Option.map_eq_some_iff.1 hm
  exact h.keyed id message hmessage

theorem tool_keyed (h : Wf base f) : Keyed TemporalTool.toolCallId f.tool? := by
  intro id tool htool
  obtain ⟨a, ha, rfl⟩ := Option.map_eq_some_iff.1 htool
  exact (h.toolHeld id a ha).2.2

theorem holds (h : Wf base f) {id : String} {m : MutableMessage}
    (hm : f.messages.get? id = some m) :
    Holds (readMessage f.memory m).blocks (lookBlock f.memory m.blocks) :=
  holds_sortedBlocks fun i a ha => (h.indexed id m i a hm ha).2.2

theorem toolHeld_grown (h : Wf base f) {memory : Memory} (hgrown : f.memory.Extends memory)
    (id : String) (a : Nat) (ha : f.tools.get? id = some a) :
    base.tools.length ≤ a ∧ a < memory.tools.length ∧ (memory.tool a).toolCallId = id := by
  obtain ⟨hmade, hthere, hid⟩ := h.toolHeld id a ha
  exact ⟨hmade, hthere.trans_le hgrown.tools.length_le,
    (congrArg _ (hgrown.tool hthere)).trans hid⟩

/-- A message is read from the objects that it holds. -/
theorem readMessage_same (h : Wf base f) {memory : Memory} {id : String} {m : MutableMessage}
    (hm : f.messages.get? id = some m)
    (hsame : ∀ i a, m.blocks.get? i = some a → memory.block a = f.memory.block a) :
    readMessage memory m = readMessage f.memory m := by
  have hlook : lookBlock memory m.blocks = lookBlock f.memory m.blocks := funext fun i => by
    rw [lookBlock, lookBlock]
    cases hi : m.blocks.get? i with
    | none => rfl
    | some a => exact congrArg some (hsame i a hi)
  refine readMessage_blocks (fun i a ha => ?_) hlook (h.holds hm)
  rw [hsame i a ha]
  exact (h.indexed id m i a hm ha).2.2

end Wf

namespace Shows

theorem message? (h : Shows base f s) (id : String) : s.message? id = f.message? id := by
  rw [Transcript.message?, ← h.transcript, transcript_messages]
  refine find?_listed h.message_keyed fun hsome => (h.ordered id).2 ?_
  rwa [Folding.message?, Option.isSome_map] at hsome

theorem tool? (h : Shows base f s) (id : String) : s.tool? id = f.tool? id := by
  rw [Transcript.tool?, ← h.transcript, transcript_tools]
  refine find?_listed h.tool_keyed fun hsome => (h.toolOrdered id).2 ?_
  rwa [Folding.tool?, Option.isSome_map] at hsome

/-! ### Texts -/

theorem diagnose (h : Shows base f s) (text : String) :
    Shows base (f.diagnose text) (s.diagnose text) where
  grown := h.grown.push h.diagnosed.1 text
  keyed := h.keyed
  indexed := h.indexed
  apart := h.apart
  ordered := h.ordered
  distinct := h.distinct
  toolHeld := h.toolHeld
  toolOrdered := h.toolOrdered
  settledHeld := by
    refine ⟨h.settledHeld.1, ?_⟩
    show f.settledEntryIds < (f.memory.texts.modify f.diagnostics _).length
    rw [List.length_modify]
    exact h.settledHeld.2
  diagnosed := by
    refine ⟨h.diagnosed.1, ?_⟩
    show f.diagnostics < (f.memory.texts.modify f.diagnostics _).length
    rw [List.length_modify]
    exact h.diagnosed.2
  textsApart := h.textsApart
  expected := h.expected
  transcript := by
    rw [← h.transcript]
    refine TemporalSessionState.ext rfl rfl rfl ?_ ?_
    · exact (Arena.read_modify h.diagnosed.2 _).trans (if_neg h.textsApart)
    · exact (Arena.read_modify h.diagnosed.2 _).trans (if_pos rfl)

theorem settle (h : Shows base f s) (entryId : String) :
    Shows base (f.settle entryId) (s.settle entryId) where
  grown := h.grown.push h.settledHeld.1 entryId
  keyed := h.keyed
  indexed := h.indexed
  apart := h.apart
  ordered := h.ordered
  distinct := h.distinct
  toolHeld := h.toolHeld
  toolOrdered := h.toolOrdered
  settledHeld := by
    refine ⟨h.settledHeld.1, ?_⟩
    show f.settledEntryIds < (f.memory.texts.modify f.settledEntryIds _).length
    rw [List.length_modify]
    exact h.settledHeld.2
  diagnosed := by
    refine ⟨h.diagnosed.1, ?_⟩
    show f.diagnostics < (f.memory.texts.modify f.settledEntryIds _).length
    rw [List.length_modify]
    exact h.diagnosed.2
  textsApart := h.textsApart
  expected := h.expected
  transcript := by
    rw [← h.transcript]
    refine TemporalSessionState.ext rfl rfl rfl ?_ ?_
    · exact (Arena.read_modify h.settledHeld.2 _).trans (if_pos rfl)
    · exact (Arena.read_modify h.settledHeld.2 _).trans (if_neg h.textsApart.symm)

/-! ### Messages -/

/-- A fold that differs in what one message reads as. -/
theorem write (h : Shows base f s) (f' : Folding) (hwf : Wf base f') {id : String}
    {g : Message → Message} (hseq : f'.lastSeq = f.lastSeq)
    (horder : f'.messageOrder = f.messageOrder)
    (htools : f'.transcript.tools = f.transcript.tools)
    (hsettled : f'.transcript.settledEntryIds = f.transcript.settledEntryIds)
    (hdiagnostics : f'.transcript.diagnostics = f.transcript.diagnostics)
    (hmessages : ∀ id', f'.message? id' =
      if id' = id then (f.message? id').map g else f.message? id') :
    Shows base f' (s.writeMessage id g) := by
  refine ⟨hwf, ?_⟩
  rw [← h.transcript]
  refine TemporalSessionState.ext hseq ?_ htools hsettled hdiagnostics
  show f'.transcript.messages = List.map _ f.transcript.messages
  rw [transcript_messages, transcript_messages, horder]
  exact listed_update h.message_keyed hmessages

theorem writeMessage (h : Shows base f s) (id : String) {g : MutableMessage → MutableMessage}
    {g' : Message → Message} (hid : ∀ m, (g m).messageId = m.messageId)
    (hblocks : ∀ m, (g m).blocks = m.blocks)
    (hread : ∀ m, readMessage f.memory (g m) = g' (readMessage f.memory m)) :
    Shows base (f.writeMessage id g) (s.writeMessage id g') := by
  have hget : ∀ id', (f.writeMessage id g).messages.get? id' =
      if id' = id then (f.messages.get? id').map g else f.messages.get? id' :=
    fun id' => Table.get?_update id id' g f.messages
  have hold : ∀ {id' m}, (f.writeMessage id g).messages.get? id' = some m →
      ∃ m', f.messages.get? id' = some m' ∧ m.messageId = m'.messageId ∧ m.blocks = m'.blocks := by
    intro id' m hm
    rw [hget] at hm
    split at hm
    · obtain ⟨m', hm', rfl⟩ := Option.map_eq_some_iff.1 hm
      exact ⟨m', hm', hid m', hblocks m'⟩
    · exact ⟨m, hm, rfl, rfl⟩
  refine h.write (f.writeMessage id g) ⟨h.grown, ?_, ?_, ?_, ?_, h.distinct, h.toolHeld, h.toolOrdered, h.settledHeld,
    h.diagnosed, h.textsApart, h.expected⟩ rfl rfl rfl rfl rfl fun id' => ?_
  · intro id' m hm
    obtain ⟨m', hm', hsame, -⟩ := hold hm
    exact hsame.trans (h.keyed id' m' hm')
  · intro id' m i a hm ha
    obtain ⟨m', hm', -, hsame⟩ := hold hm
    exact h.indexed id' m' i a hm' (hsame ▸ ha)
  · intro id₁ m₁ i₁ id₂ m₂ i₂ a hm₁ ha₁ hm₂ ha₂
    obtain ⟨m₁', hm₁', -, hsame₁⟩ := hold hm₁
    obtain ⟨m₂', hm₂', -, hsame₂⟩ := hold hm₂
    exact h.apart id₁ m₁' i₁ id₂ m₂' i₂ a hm₁' (hsame₁ ▸ ha₁) hm₂' (hsame₂ ▸ ha₂)
  · intro id'
    refine (h.ordered id').trans ?_
    rw [hget]
    split
    · rw [Option.isSome_map]
    · exact Iff.rfl
  · rw [Folding.message?, hget]
    by_cases heq : id' = id
    · rw [if_pos heq, if_pos heq, heq, Folding.message?, Option.map_map, Option.map_map]
      exact congrArg (fun k => Option.map k _) (funext hread)
    · rw [if_neg heq, if_neg heq]
      rfl

/-- A message that comes with blocks of its own. -/
theorem addMessage (h : Shows base f s) {id : String} (hfree : f.messages.get? id = none)
    {m : MutableMessage} (hid : m.messageId = id) {memory : Memory}
    {copies : List TemporalContentBlock}
    (hmemory : memory = { f.memory with blocks := f.memory.blocks ++ copies })
    (hindexed : ∀ i a, m.blocks.get? i = some a → f.memory.blocks.length ≤ a ∧
      a < memory.blocks.length ∧ (memory.block a).contentIndex = i) :
    Shows base
      { f with
        memory
        messages := f.messages.put id m
        messageOrder := f.messageOrder ++ [id] }
      { s with messages := s.messages ++ [readMessage memory m] } := by
  have hgrown : f.memory.Extends memory := by
    rw [hmemory]
    exact ⟨List.prefix_append _ _, List.prefix_refl _, List.prefix_refl _⟩
  have htools : memory.tools = f.memory.tools := by rw [hmemory]
  have htexts : memory.texts = f.memory.texts := by rw [hmemory]
  have hnew : id ∉ f.messageOrder := fun hmem => by
    have hsome := (h.ordered id).1 hmem
    rw [hfree] at hsome
    cases hsome
  have hget : ∀ {id' m'}, (f.messages.put id m).get? id' = some m' →
      id' = id ∧ m' = m ∨ f.messages.get? id' = some m' := by
    intro id' m' hm'
    rw [Table.get?_put] at hm'
    split at hm'
    · next heq => exact .inl ⟨heq, (Option.some.inj hm').symm⟩
    · exact .inr hm'
  refine ⟨⟨h.grown.trans hgrown, ?_, ?_, ?_, ?_, ?_, h.toolHeld_grown hgrown, h.toolOrdered,
    ⟨h.settledHeld.1, htexts ▸ h.settledHeld.2⟩, ⟨h.diagnosed.1, htexts ▸ h.diagnosed.2⟩,
    h.textsApart, h.expected⟩, ?_⟩
  · intro id' m' hm'
    rcases hget hm' with ⟨rfl, rfl⟩ | hm'
    · exact hid
    · exact h.keyed id' m' hm'
  · intro id' m' i a hm' ha
    rcases hget hm' with ⟨-, rfl⟩ | hm'
    · obtain ⟨hmade, hthere, hindex⟩ := hindexed i a ha
      exact ⟨h.grown.blocks.length_le.trans hmade, hthere, hindex⟩
    · obtain ⟨hmade, hthere, hindex⟩ := h.indexed id' m' i a hm' ha
      exact ⟨hmade, hthere.trans_le hgrown.blocks.length_le,
        (congrArg _ (hgrown.block hthere)).trans hindex⟩
  · intro id₁ m₁ i₁ id₂ m₂ i₂ a hm₁ ha₁ hm₂ ha₂
    rcases hget hm₁ with ⟨rfl, rfl⟩ | hold₁ <;> rcases hget hm₂ with ⟨rfl, rfl⟩ | hold₂
    · rfl
    · exact absurd (h.indexed _ _ _ a hold₂ ha₂).2.1 (hindexed _ a ha₁).1.not_gt
    · exact absurd (h.indexed _ _ _ a hold₁ ha₁).2.1 (hindexed _ a ha₂).1.not_gt
    · exact h.apart id₁ m₁ i₁ id₂ m₂ i₂ a hold₁ ha₁ hold₂ ha₂
  · intro id'
    show id' ∈ f.messageOrder ++ [id] ↔ ((f.messages.put id m).get? id').isSome = true
    rw [Table.get?_put, List.mem_append, List.mem_singleton, h.ordered]
    split
    · next heq => exact iff_of_true (.inr heq) rfl
    · next hne => exact or_iff_left hne
  · show (f.messageOrder ++ [id]).Nodup
    rw [List.nodup_append]
    refine ⟨h.distinct, List.nodup_singleton _, ?_⟩
    rintro a ha b hb rfl
    exact hnew (List.mem_singleton.1 hb ▸ ha)
  · rw [← h.transcript]
    refine TemporalSessionState.ext rfl ?_
      (List.map_congr_left fun a _ => congrArg (List.getD · a default) htools)
      (congrArg (List.getD · f.settledEntryIds []) htexts)
      (congrArg (List.getD · f.diagnostics []) htexts)
    rw [transcript_messages, transcript_messages, listed, List.filterMap_append,
      List.filterMap_cons, Folding.message?, Table.get?_put_self, Option.map_some,
      List.filterMap_nil]
    refine congrArg (· ++ _) (listed_congr fun id' hid' => ?_)
    have hne : id' ≠ id := fun heq => hnew (heq.symm ▸ hid')
    obtain ⟨m', hm'⟩ := Option.isSome_iff_exists.1 ((h.ordered id').1 hid')
    rw [Folding.message?, Folding.message?, Table.get?_put_ne hne, hm', Option.map_some,
      Option.map_some]
    exact congrArg some (h.readMessage_same hm' fun i a ha =>
      hgrown.block (h.indexed id' m' i a hm' ha).2.1)

theorem openMessage (h : Shows base f s) {id : String} (hfree : f.messages.get? id = none)
    (role : String) : Shows base (f.openMessage id role) (s.openMessage id role) := by
  have hshows := h.addMessage hfree (m := ⟨id, role, .streaming, none, .empty⟩) rfl
    (show f.memory = { f.memory with blocks := f.memory.blocks ++ [] } by rw [List.append_nil])
    fun i a ha => by cases ha
  have hread : readMessage f.memory ⟨id, role, .streaming, none, .empty⟩ =
      ⟨id, role, .streaming, none, []⟩ := by
    rw [readMessage, Folding.sortedBlocks, Table.empty]
    simp
  rw [hread] at hshows
  exact hshows

/-! ### Blocks -/

theorem writeBlock (h : Shows base f s) {id : String} {m : MutableMessage} {i a : Nat}
    (hm : f.messages.get? id = some m) (ha : m.blocks.get? i = some a)
    {g : TemporalContentBlock → TemporalContentBlock}
    (hg : ∀ b, (g b).contentIndex = b.contentIndex) :
    Shows base (f.writeBlock a g) (s.writeBlock id i g) := by
  obtain ⟨hmade, hthere, hindex⟩ := h.indexed id m i a hm ha
  have hblock : ∀ a', (f.writeBlock a g).memory.block a' =
      if a' = a then g (f.memory.block a) else f.memory.block a' :=
    fun a' => Arena.read_modify hthere _
  have hcontent : ∀ a', ((f.writeBlock a g).memory.block a').contentIndex =
      (f.memory.block a').contentIndex := by
    intro a'
    rw [hblock]
    split
    · next heq => rw [hg, heq]
    · rfl
  have hlength : (f.writeBlock a g).memory.blocks.length = f.memory.blocks.length :=
    List.length_modify ..
  have hindexed : ∀ id m i a', f.messages.get? id = some m → m.blocks.get? i = some a' →
      base.blocks.length ≤ a' ∧ a' < (f.writeBlock a g).memory.blocks.length ∧
        ((f.writeBlock a g).memory.block a').contentIndex = i := by
    intro id m i a' hm ha'
    rw [hlength, hcontent]
    exact h.indexed id m i a' hm ha'
  refine h.write (f.writeBlock a g) ⟨h.grown.writeBlock hmade g, h.keyed, hindexed, h.apart, h.ordered, h.distinct,
    h.toolHeld, h.toolOrdered, h.settledHeld, h.diagnosed, h.textsApart, h.expected⟩
    rfl rfl rfl rfl rfl fun id' => ?_
  show (f.messages.get? id').map _ = _
  by_cases heq : id' = id
  · rw [if_pos heq, heq, Folding.message?, hm, Option.map_some, Option.map_some, Option.map_some]
    refine congrArg some (readMessage_blocks (fun j b hb => (hindexed id m j b hm hb).2.2) ?_
      ((h.holds hm).editBlock i hg))
    funext j
    by_cases hji : j = i
    · rw [if_pos hji, hji, lookBlock, lookBlock, ha, Option.map_some, Option.map_some, hblock,
        if_pos rfl, Option.map_some]
    · rw [if_neg hji, lookBlock, lookBlock]
      cases hj : m.blocks.get? j with
      | none => rfl
      | some b =>
          rw [Option.map_some, Option.map_some, hblock, if_neg]
          rintro rfl
          exact hji ((h.indexed id m j b hm hj).2.2.symm.trans hindex)
  · rw [if_neg heq, Folding.message?]
    cases hm' : f.messages.get? id' with
    | none => rfl
    | some m' =>
        refine congrArg some (h.readMessage_same hm' fun j b hb => ?_)
        rw [hblock, if_neg]
        rintro rfl
        exact heq (h.apart id' m' j id m i b hm' hb hm ha)

/-- A new block in the map of a message. -/
theorem putBlock (h : Shows base f s) {id : String} {m : MutableMessage} {i : Nat}
    {kind : BlockKind} {memory : Memory} (hm : f.messages.get? id = some m)
    (hfree : m.blocks.get? i = none) (hgrown : f.memory.Extends memory)
    (hnew : memory.block f.memory.blocks.length = { contentIndex := i, kind })
    (hlength : memory.blocks.length = f.memory.blocks.length + 1)
    (htools : memory.tools = f.memory.tools) (htexts : memory.texts = f.memory.texts) :
    Shows base (f.withBlock memory id i) (s.ensureBlock id i kind) := by
  have hget : ∀ {id' m'}, (f.messages.update id fun message =>
        { message with blocks := message.blocks.put i f.memory.blocks.length }).get? id' = some m' →
      (id' = id ∧ m' = { m with blocks := m.blocks.put i f.memory.blocks.length }) ∨
        (id' ≠ id ∧ f.messages.get? id' = some m') := by
    intro id' m' hm'
    rw [Table.get?_update_of_some hm] at hm'
    split at hm'
    · next heq => exact .inl ⟨heq, (Option.some.inj hm').symm⟩
    · next hne => exact .inr ⟨hne, hm'⟩
  have hput : ∀ {j b}, (m.blocks.put i f.memory.blocks.length).get? j = some b →
      (j = i ∧ b = f.memory.blocks.length) ∨ m.blocks.get? j = some b := by
    intro j b hb
    rw [Table.get?_put] at hb
    split at hb
    · next heq => exact .inl ⟨heq, (Option.some.inj hb).symm⟩
    · exact .inr hb
  have hheld : ∀ {id' m' j b}, f.messages.get? id' = some m' → m'.blocks.get? j = some b →
      base.blocks.length ≤ b ∧ b < memory.blocks.length ∧ (memory.block b).contentIndex = j := by
    intro id' m' j b hm' hb
    obtain ⟨hmade, hthere, hindex⟩ := h.indexed id' m' j b hm' hb
    exact ⟨hmade, hthere.trans_le hgrown.blocks.length_le,
      (congrArg _ (hgrown.block hthere)).trans hindex⟩
  have hmine : ∀ {j b}, (m.blocks.put i f.memory.blocks.length).get? j = some b →
      base.blocks.length ≤ b ∧ b < memory.blocks.length ∧ (memory.block b).contentIndex = j := by
    intro j b hb
    rcases hput hb with ⟨rfl, rfl⟩ | hb
    · exact ⟨h.grown.blocks.length_le, hlength ▸ Nat.lt_succ_self _, congrArg _ hnew⟩
    · exact hheld hm hb
  refine h.write (f.withBlock memory id i) ⟨h.grown.trans hgrown, ?_, ?_, ?_, ?_, h.distinct,
    h.toolHeld_grown hgrown, h.toolOrdered, ⟨h.settledHeld.1, htexts ▸ h.settledHeld.2⟩,
    ⟨h.diagnosed.1, htexts ▸ h.diagnosed.2⟩, h.textsApart, h.expected⟩
    rfl rfl ?_ ?_ ?_ fun id' => ?_
  · intro id' m' hm'
    rcases hget hm' with ⟨rfl, rfl⟩ | ⟨-, hm'⟩
    · exact h.keyed id' m hm
    · exact h.keyed id' m' hm'
  · intro id' m' j b hm' hb
    rcases hget hm' with ⟨rfl, rfl⟩ | ⟨-, hm'⟩
    · exact hmine hb
    · exact hheld hm' hb
  · intro id₁ m₁ i₁ id₂ m₂ i₂ b hm₁ hb₁ hm₂ hb₂
    have hboth : ∀ {id' m' j j'}, f.messages.get? id' = some m' → m'.blocks.get? j' = some b →
        (m.blocks.put i f.memory.blocks.length).get? j = some b → id = id' := by
      intro id' m' j j' hm' hb' hb
      rcases hput hb with ⟨-, rfl⟩ | hb
      · exact absurd (h.indexed id' m' j' _ hm' hb').2.1 (Nat.lt_irrefl _)
      · exact h.apart id m j id' m' j' b hm hb hm' hb'
    rcases hget hm₁ with ⟨rfl, rfl⟩ | ⟨-, hold₁⟩ <;> rcases hget hm₂ with ⟨rfl, rfl⟩ | ⟨-, hold₂⟩
    · rfl
    · exact hboth hold₂ hb₂ hb₁
    · exact (hboth hold₁ hb₁ hb₂).symm
    · exact h.apart id₁ m₁ i₁ id₂ m₂ i₂ b hold₁ hb₁ hold₂ hb₂
  · intro id'
    rw [Folding.withBlock, Table.isSome_get?_update]
    exact h.ordered id'
  · exact List.map_congr_left fun a _ => congrArg (List.getD · a default) htools
  · exact congrArg (List.getD · f.settledEntryIds []) htexts
  · exact congrArg (List.getD · f.diagnostics []) htexts
  · rw [Folding.message?, Folding.message?, Folding.withBlock, Table.get?_update_of_some hm]
    by_cases heq : id' = id
    · rw [if_pos heq, if_pos heq, heq, hm, Option.map_some, Option.map_some, Option.map_some]
      refine congrArg some (readMessage_blocks (fun j b hb => (hmine hb).2.2) ?_
        ((h.holds hm).withBlock i kind))
      funext j
      rw [lookBlock, Table.get?_put]
      by_cases hj : j = i
      · rw [if_pos hj, if_pos hj, Option.map_some, hnew, lookBlock, hfree]
        rfl
      · rw [if_neg hj, if_neg hj, lookBlock]
        cases hb : m.blocks.get? j with
        | none => rfl
        | some b => exact congrArg some (hgrown.block (h.indexed id m j b hm hb).2.1)
    · rw [if_neg heq, if_neg heq]
      cases hm' : f.messages.get? id' with
      | none => rfl
      | some m' =>
          exact congrArg some (h.readMessage_same hm' fun j b hb =>
            hgrown.block (h.indexed id' m' j b hm' hb).2.1)

/-- The address that `ensureBlock` gives is that of the block under the index. -/
theorem ensureBlock (h : Shows base f s) {id : String} {m : MutableMessage}
    (hm : f.messages.get? id = some m) (i : Nat) (kind : BlockKind) :
    Shows base (f.ensureBlock m i kind).2 (s.ensureBlock id i kind) ∧
      ∃ m', (f.ensureBlock m i kind).2.messages.get? id = some m' ∧
        m'.blocks.get? i = some (f.ensureBlock m i kind).1 ∧
        (f.ensureBlock m i kind).2.memory.block (f.ensureBlock m i kind).1 =
          (blockIn (readMessage f.memory m).blocks i).getD { contentIndex := i, kind } := by
  have hholds := h.holds hm
  rw [hholds.blockIn, lookBlock]
  have hwith := hholds.withBlock i kind
  cases ha : m.blocks.get? i with
  | some a =>
      have hensured : f.ensureBlock m i kind = (a, f) := by rw [Folding.ensureBlock, ha]
      rw [hensured]
      refine ⟨h.write f h.toWf rfl rfl rfl rfl rfl fun id' => ?_, m, hm, ha, rfl⟩
      by_cases heq : id' = id
      · rw [if_pos heq, heq, Folding.message?, hm, Option.map_some, Option.map_some]
        refine congrArg some (readMessage_blocks (fun j b hb => (h.indexed id m j b hm hb).2.2) ?_
          hwith)
        funext j
        split
        · next hj => rw [hj, lookBlock, ha, Option.map_some, Option.getD_some]
        · rfl
      · rw [if_neg heq]
  | none =>
      have hensured : f.ensureBlock m i kind =
          (f.memory.blocks.length,
            f.withBlock (f.memory.newBlock { contentIndex := i, kind }).2 m.messageId i) := by
        rw [Folding.ensureBlock, ha]
        rfl
      rw [hensured, h.keyed id m hm]
      have hgrown := Memory.Extends.newBlock f.memory { contentIndex := i, kind }
      have hnew : (f.memory.newBlock { contentIndex := i, kind }).2.block f.memory.blocks.length =
          { contentIndex := i, kind } := Arena.read_new _ _ _
      have hlength : (f.memory.newBlock { contentIndex := i, kind }).2.blocks.length =
          f.memory.blocks.length + 1 := List.length_append
      have htools : (f.memory.newBlock { contentIndex := i, kind }).2.tools = f.memory.tools := rfl
      have htexts : (f.memory.newBlock { contentIndex := i, kind }).2.texts = f.memory.texts := rfl
      refine ⟨h.putBlock hm ha hgrown hnew hlength htools htexts, _,
        (Table.get?_update_self id _ f.messages).trans (congrArg _ hm), ?_, hnew⟩
      exact Table.get?_put_self m.blocks i _

/-! ### Tool calls -/

theorem startTool (h : Shows base f s) (tool : TemporalTool) :
    Shows base (f.startTool tool) (s.startTool tool) := by
  have hgrown := Memory.Extends.newTool f.memory tool
  have hget : ∀ id, (f.startTool tool).tools.get? id =
      if id = tool.toolCallId then some f.memory.tools.length else f.tools.get? id :=
    fun id => Table.get?_put f.tools tool.toolCallId id _
  have hnew : (f.startTool tool).memory.tool f.memory.tools.length = tool := Arena.read_new _ _ _
  have hlength : (f.startTool tool).memory.tools.length = f.memory.tools.length + 1 :=
    List.length_append
  refine ⟨⟨h.grown.trans hgrown, h.keyed, h.indexed, h.apart, h.ordered, h.distinct, ?_, ?_,
    h.settledHeld, h.diagnosed, h.textsApart, h.expected⟩, ?_⟩
  · intro id a ha
    rw [hget] at ha
    split at ha
    · next heq =>
        obtain rfl := Option.some.inj ha
        exact ⟨h.grown.tools.length_le, hlength ▸ Nat.lt_succ_self _,
          (congrArg _ hnew).trans heq.symm⟩
    · exact h.toolHeld_grown hgrown id a ha
  · intro id
    rw [hget]
    show id ∈ f.toolOrder ++ [tool.toolCallId] ↔ _
    rw [List.mem_append, List.mem_singleton, h.toolOrdered]
    split
    · next heq => exact iff_of_true (.inr heq) rfl
    · next hne => exact or_iff_left hne
  · rw [← h.transcript]
    refine TemporalSessionState.ext rfl rfl ?_ rfl rfl
    show _ = List.map _ f.transcript.tools ++ [tool]
    rw [transcript_tools, transcript_tools]
    refine listed_put h.tool_keyed (fun id hid => ?_) fun id => ?_
    · rw [Folding.tool?, Option.isSome_map]
      exact (h.toolOrdered id).1 hid
    · rw [Folding.tool?, hget, Folding.tool?]
      split
      · exact congrArg some hnew
      · cases ha : f.tools.get? id with
        | none => rfl
        | some a => exact congrArg some (hgrown.tool (h.toolHeld id a ha).2.1)

theorem writeTool (h : Shows base f s) {id : String} {a : Nat} (ha : f.tools.get? id = some a)
    {g : TemporalTool → TemporalTool} (hg : ∀ tool, (g tool).toolCallId = tool.toolCallId) :
    Shows base { f with memory := f.memory.writeTool a g } (s.writeTool id g) := by
  obtain ⟨hmade, hthere, hid⟩ := h.toolHeld id a ha
  have htool : ∀ a', (f.memory.writeTool a g).tool a' =
      if a' = a then g (f.memory.tool a) else f.memory.tool a' :=
    fun a' => Arena.read_modify hthere _
  refine ⟨⟨h.grown.writeTool hmade g, h.keyed, h.indexed, h.apart, h.ordered, h.distinct, ?_,
    h.toolOrdered, h.settledHeld, h.diagnosed, h.textsApart, h.expected⟩, ?_⟩
  · intro id' a' ha'
    obtain ⟨hmade', hthere', hid'⟩ := h.toolHeld id' a' ha'
    refine ⟨hmade', (List.length_modify (f := g) ..).symm ▸ hthere', ?_⟩
    rw [htool]
    split
    · next heq => rw [hg, ← heq, hid']
    · exact hid'
  · rw [← h.transcript]
    refine TemporalSessionState.ext rfl rfl ?_ rfl rfl
    show _ = List.map _ f.transcript.tools
    rw [transcript_tools, transcript_tools]
    refine listed_update h.tool_keyed fun id' => ?_
    rw [Folding.tool?, Folding.tool?]
    by_cases heq : id' = id
    · rw [if_pos heq, heq, ha, Option.map_some, Option.map_some, Option.map_some, htool, if_pos rfl]
    · rw [if_neg heq]
      cases ha' : f.tools.get? id' with
      | none => rfl
      | some a' =>
          rw [Option.map_some, Option.map_some, htool, if_neg]
          rintro rfl
          exact heq ((h.toolHeld id' a' ha').2.2.symm.trans hid)

/-! ### Events -/

theorem assist (h : Shows base f s) {id : String} {m : MutableMessage}
    (hm : f.messages.get? id = some m) (step : AssistantStep) :
    Shows base (f.assist m step) (s.assist (readMessage f.memory m) step) := by
  have hid : m.messageId = id := h.keyed id m hm
  have hread : (readMessage f.memory m).messageId = id := hid
  cases step with
  | start i kind =>
      obtain ⟨hshows, -⟩ := h.ensureBlock hm i kind
      rw [Transcript.assist, hread]
      exact hshows
  | finish i kind assistantType content =>
      obtain ⟨hshows, m', hm', ha', hblock⟩ := h.ensureBlock hm i kind
      have htext : ((f.ensureBlock m i kind).2.memory.block (f.ensureBlock m i kind).1).text =
          ((blockIn (readMessage f.memory m).blocks i).map TemporalContentBlock.text).getD "" := by
        rw [hblock]
        cases blockIn (readMessage f.memory m).blocks i <;> rfl
      have hwrite : ∀ {f' : Folding} {s' : Transcript}, Shows base f' s' →
          f'.messages = (f.ensureBlock m i kind).2.messages →
          Shows base (f'.writeBlock (f.ensureBlock m i kind).1 fun block =>
            { block with text := content }) (s'.writeBlock id i fun block =>
              { block with text := content }) := by
        intro f' s' h' hmessages
        exact h'.writeBlock (hmessages ▸ hm') ha' fun _ => rfl
      simp only [Transcript.assist, Folding.assist, hread, hid, htext]
      split
      · exact hwrite (hshows.diagnose _) rfl
      · exact hwrite hshows rfl
  | call i value =>
      obtain ⟨hshows, m', hm', ha', -⟩ := h.ensureBlock hm i .toolCall
      rw [Transcript.assist, hread]
      exact hshows.writeBlock hm' ha' fun _ => rfl
  | status status =>
      rw [Transcript.assist, hread, Folding.assist, hid]
      exact h.writeMessage id (fun _ => rfl) (fun _ => rfl) fun _ => rfl
  | nothing => exact h

theorem finishMessage (h : Shows base f s) (knownEntries : List String) (id : String)
    (payload : Payload) :
    Shows base (f.finishMessage knownEntries id payload) (s.finishMessage knownEntries id payload) := by
  unfold Folding.finishMessage Transcript.finishMessage
  cases payloadTrue payload "settled" with
  | false => exact h.writeMessage id (fun _ => rfl) (fun _ => rfl) fun _ => rfl
  | true =>
      cases truthy (payloadString payload "entryId") with
      | none => exact h.writeMessage id (fun _ => rfl) (fun _ => rfl) fun _ => rfl
      | some entryId =>
          have hwritten : Shows base
              (f.writeMessage id fun message =>
                { message with status := .settled, entryId := some entryId })
              (s.writeMessage id fun message =>
                { message with status := .settled, entryId := some entryId }) :=
            h.writeMessage id (fun _ => rfl) (fun _ => rfl) fun _ => rfl
          have hsettled := hwritten.settle entryId
          dsimp only
          split
          · exact hsettled
          · exact hsettled.diagnose _

theorem count (h : Shows base f s) (event : SessionEvent) :
    Shows base (f.count event) (s.count event) := by
  have hseq : f.expectedSeq = s.throughSeq + 1 := by
    rw [← h.transcript]
    exact h.expected
  have hgone : ∀ {f' : Folding} {s' : Transcript}, Shows base f' s' →
      Shows base { f' with expectedSeq := event.seq + 1, lastSeq := event.seq }
        { s' with throughSeq := event.seq } := by
    intro f' s' h'
    refine ⟨⟨h'.grown, h'.keyed, h'.indexed, h'.apart, h'.ordered, h'.distinct, h'.toolHeld,
      h'.toolOrdered, h'.settledHeld, h'.diagnosed, h'.textsApart, rfl⟩, ?_⟩
    rw [← h'.transcript]
    rfl
  unfold Folding.count Transcript.count
  rw [hseq]
  dsimp only
  split
  · exact hgone (h.diagnose _)
  · exact hgone h

theorem onMessageStarted (h : Shows base f s) (event : SessionEvent) :
    Shows base (f.onMessageStarted event) (s.onMessageStarted event) := by
  unfold Folding.onMessageStarted Transcript.onMessageStarted
  cases truthy event.messageId with
  | none => exact h.diagnose _
  | some id =>
      dsimp only
      rw [h.message?, Folding.message?]
      cases hm : f.messages.get? id with
      | none => exact h.openMessage hm _
      | some m => exact h

theorem onAssistantEvent (h : Shows base f s) (event : SessionEvent) :
    Shows base (f.onAssistantEvent event) (s.onAssistantEvent event) := by
  unfold Folding.onAssistantEvent Transcript.onAssistantEvent
  cases truthy event.messageId with
  | none => exact h.diagnose _
  | some id =>
      dsimp only
      rw [h.message?, Folding.message?]
      cases hm : f.messages.get? id with
      | none => exact h.diagnose _
      | some m => exact h.assist hm _

theorem onMessageFinished (h : Shows base f s) (knownEntries : List String)
    (event : SessionEvent) :
    Shows base (f.onMessageFinished knownEntries event)
      (s.onMessageFinished knownEntries event) := by
  unfold Folding.onMessageFinished Transcript.onMessageFinished
  cases truthy event.messageId with
  | none => exact h.diagnose _
  | some id =>
      dsimp only
      rw [h.message?, Folding.message?]
      cases f.messages.get? id with
      | none => exact h.diagnose _
      | some m => exact h.finishMessage knownEntries id event.payload

theorem onToolStarted (h : Shows base f s) (event : SessionEvent) :
    Shows base (f.onToolStarted event) (s.onToolStarted event) := by
  unfold Folding.onToolStarted Transcript.onToolStarted
  cases truthy event.toolCallId with
  | none => exact h.diagnose _
  | some toolCallId =>
      cases truthy event.messageId with
      | none => exact h.diagnose _
      | some messageId => exact h.startTool _

theorem onToolFinished (h : Shows base f s) (event : SessionEvent) :
    Shows base (f.onToolFinished event) (s.onToolFinished event) := by
  unfold Folding.onToolFinished Transcript.onToolFinished
  cases truthy event.toolCallId with
  | none => exact h.diagnose _
  | some id =>
      rw [Option.bind_some, Option.bind_some, h.tool?, Folding.tool?]
      cases ha : f.tools.get? id with
      | none => exact h.diagnose _
      | some a =>
          rw [Option.map_some]
          dsimp only
          rw [(h.toolHeld id a ha).2.2]
          exact h.writeTool ha fun _ => rfl

/-- Every event does to a fold what it does to the transcript. -/
theorem visit (h : Shows base f s) (knownEntries : List String) (event : SessionEvent) :
    Shows base (f.visit knownEntries event) (s.visit knownEntries event) := by
  unfold Folding.visit Transcript.visit
  have hcounted := h.count event
  generalize f.count event = f at *
  generalize s.count event = s at *
  cases event.type with
  | message_started => exact hcounted.onMessageStarted event
  | assistant_event => exact hcounted.onAssistantEvent event
  | message_finished => exact hcounted.onMessageFinished knownEntries event
  | tool_execution_started => exact hcounted.onToolStarted event
  | tool_execution_finished => exact hcounted.onToolFinished event
  | turn_started => exact hcounted
  | turn_finished => exact hcounted
  | tool_execution_updated => exact hcounted
  | other name => exact hcounted

end Shows

end Folding

end PiWorkflows.SessionReplay
