import Mathlib.Logic.Relation
import PiWorkflows.Lib.Trace
import PiWorkflows.Proofs.ContentStore
import PiWorkflows.Proofs.SameJson
import PiWorkflows.State.Messages

/-!
# Messages and turns under any order of calls

All a call can do is made of four kinds of change (`Change`): a message is added
behind the last of its session, the status and the entry of messages are restated
together, a turn is opened in a session without one, a turn is closed. Everything
that holds of runs is shown of these four.

What a later state keeps of an earlier one (`Follows`) is enough for a repeated
`create`: the row it meets is the first one, and the content is still there.
-/

namespace PiWorkflows

open Fallible Trace

/-! ## The same content -/

theorem triggersTurn_same {a b : Json} (h : SameJson a b) : triggersTurn a = triggersTurn b := by
  rw [triggersTurn, triggersTurn, boolMember_same h]

theorem isWorkflowMessageContent_same {a b : Json} (h : SameJson a b) :
    isWorkflowMessageContent a = isWorkflowMessageContent b := by
  have hdetails : (a.member? "details").isSome = (b.member? "details").isSome :=
    (h.member? "details").isSome_eq
  rw [isWorkflowMessageContent, isWorkflowMessageContent, textMember_same h, textMember_same h,
    textMember_same h, boolMember_same h, boolMember_same h, hdetails]

theorem validateContent_same {a b : Json} {kind : WorkflowMessageKind} (h : SameJson a b) :
    validateContent a kind = validateContent b kind := by
  rw [validateContent, validateContent, isWorkflowMessageContent_same h, triggersTurn_same h]

/-! ## What stays of a message -/

/-- The columns of a message that no call changes. -/
def WorkflowMessageRow.identity (row : WorkflowMessageRow) : WorkflowMessageRow :=
  { row with status := .pending, piSessionEntryId := none, updatedAt := 0 }

/-- What callers are told of a message but for its delivery. -/
def WorkflowMessage.identity (message : WorkflowMessage) : WorkflowMessage :=
  { message with status := .pending, piSessionEntryId := none, updatedAt := 0 }

/-- A message is marked sent if and only if it has a session entry id. -/
def WorkflowMessageRow.SentWithEntry (row : WorkflowMessageRow) : Prop :=
  row.status = .sent ↔ row.piSessionEntryId.isSome = true

namespace WorkflowMessageStore

variable {sha256 : String → String} {s s' t : WorkflowMessageStore}

/-- What every state of a run has. -/
structure Sound (s : WorkflowMessageStore) : Prop where
  sent_iff : s.messages.Holds fun _ row => row.SentWithEntry
  order_unique : ∀ id row id' row', s.messages.get? id = some row →
    s.messages.get? id' = some row' → row.targetSessionId = row'.targetSessionId →
      row.orderNumber = row'.orderNumber → id = id'
  one_open : ∀ id turn id' turn', s.turns.get? id = some turn → s.turns.get? id' = some turn' →
    turn.state = .started → turn'.state = .started →
      turn.targetSessionId = turn'.targetSessionId → id = id'

/-- What a later state keeps of an earlier one. -/
structure Follows (s s' : WorkflowMessageStore) : Prop where
  blobs : ∀ hash blob, s.state.readBlob hash = some blob → s'.state.readBlob hash = some blob
  messages : ∀ id row, s.messages.get? id = some row →
    ∃ row', s'.messages.get? id = some row' ∧ row'.identity = row.identity
  later : ∀ id row id' row', s.messages.get? id = some row → s.messages.get? id' = none →
    s'.messages.get? id' = some row' → row.targetSessionId = row'.targetSessionId →
      row.orderNumber < row'.orderNumber
  ended : ∀ id turn, s.turns.get? id = some turn → turn.state = .ended →
    s'.turns.get? id = some turn

theorem identity_targetSessionId {row row' : WorkflowMessageRow} (h : row'.identity = row.identity) :
    row'.targetSessionId = row.targetSessionId := by
  show row'.identity.targetSessionId = row.identity.targetSessionId
  rw [h]

theorem identity_orderNumber {row row' : WorkflowMessageRow} (h : row'.identity = row.identity) :
    row'.orderNumber = row.orderNumber := by
  show row'.identity.orderNumber = row.identity.orderNumber
  rw [h]

theorem Follows.refl (s : WorkflowMessageStore) : s.Follows s where
  blobs _ _ h := h
  messages _ row h := ⟨row, h, rfl⟩
  later _ _ _ _ _ hnone hsome := by
    rw [hnone] at hsome
    cases hsome
  ended _ _ h _ := h

theorem Follows.trans (h : s.Follows s') (h' : s'.Follows t) : s.Follows t where
  blobs hash blob hblob := h'.blobs hash blob (h.blobs hash blob hblob)
  messages id row hrow := by
    obtain ⟨row', hrow', hsame⟩ := h.messages id row hrow
    obtain ⟨row'', hrow'', hsame'⟩ := h'.messages id row' hrow'
    exact ⟨row'', hrow'', hsame'.trans hsame⟩
  later id row new newRow hrow hnone hnew hsession := by
    obtain ⟨row', hrow', hsame⟩ := h.messages id row hrow
    cases hmid : s'.messages.get? new with
    | none =>
        have hlt := h'.later id row' new newRow hrow' hmid hnew
          ((identity_targetSessionId hsame).trans hsession)
        rw [identity_orderNumber hsame] at hlt
        exact hlt
    | some mid =>
        obtain ⟨last, hlast, hsame'⟩ := h'.messages new mid hmid
        obtain rfl := Option.some.inj (hnew.symm.trans hlast)
        have hlt := h.later id row new mid hrow hnone hmid
          (hsession.trans (identity_targetSessionId hsame'))
        rw [identity_orderNumber hsame']
        exact hlt
  ended id turn hturn hended := h'.ended id turn (h.ended id turn hturn hended) hended

/-! ## The four kinds of change -/

inductive Change (s : WorkflowMessageStore) : WorkflowMessageStore → Prop where
  | created {state : StateDatabase String} {messages : Table String WorkflowMessageRow}
      {id : String} {row : WorkflowMessageRow}
      (hblobs : ∀ hash blob, s.state.readBlob hash = some blob →
        state.readBlob hash = some blob)
      (hinsert : s.messages.insert? id row = some messages)
      (horder : row.orderNumber = s.lastOrder row.targetSessionId + 1)
      (hsent : row.SentWithEntry) : Change s { s with state, messages }
  | restated {f : String → WorkflowMessageRow → WorkflowMessageRow}
      (hidentity : ∀ id row, (f id row).identity = row.identity)
      (hsent : ∀ id row, row.SentWithEntry → (f id row).SentWithEntry) :
      Change s { s with messages := s.messages.modify f }
  | opened {turns : Table String WorkflowTurnRow} {id : String} {row : WorkflowTurnRow}
      (hinsert : s.turns.insert? id row = some turns)
      (hclosed : s.turns.Holds fun _ other =>
        other.targetSessionId = row.targetSessionId → other.state ≠ .started) :
      Change s { s with turns }
  | closed {f : String → WorkflowTurnRow → WorkflowTurnRow}
      (hsession : ∀ id row, (f id row).targetSessionId = row.targetSessionId)
      (hstate : ∀ id row, (f id row).state = .started → row.state = .started)
      (hended : ∀ id row, row.state = .ended → f id row = row) :
      Change s { s with turns := s.turns.modify f }

theorem le_foldl_max {n a : Nat} (l : List Nat) (h : n ≤ a ∨ n ∈ l) : n ≤ l.foldl max a := by
  induction l generalizing a with
  | nil =>
      rcases h with h | h
      · exact h
      · cases h
  | cons m rest ih =>
      refine ih ?_
      rcases h with h | h
      · left
        omega
      · rcases List.mem_cons.1 h with rfl | h
        · left
          omega
        · exact .inr h

theorem orderNumber_le_lastOrder {id : String} {row : WorkflowMessageRow}
    (h : s.messages.get? id = some row) : row.orderNumber ≤ s.lastOrder row.targetSessionId := by
  refine le_foldl_max _ (.inr (List.mem_map.2 ⟨(id, row), ?_, rfl⟩))
  exact List.mem_filter.2 ⟨Table.mem_rows.2 h, decide_eq_true rfl⟩

theorem Change.follows (h : Change s s') : s.Follows s' := by
  cases h with
  | created hblobs hinsert horder _ =>
      obtain ⟨hfree, hget⟩ := Table.get?_of_insert? hinsert
      refine ⟨hblobs, ?_, ?_, fun _ _ hturn _ => hturn⟩
      · intro id row hrow
        refine ⟨row, ?_, rfl⟩
        show Table.get? _ id = _
        rw [hget, if_neg]
        · exact hrow
        · rintro rfl
          rw [hfree] at hrow
          cases hrow
      · intro id row new newRow hrow hnone hnew hsession
        change Table.get? _ new = _ at hnew
        rw [hget] at hnew
        split at hnew
        · obtain rfl := Option.some.inj hnew
          have hle := orderNumber_le_lastOrder hrow
          rw [hsession] at hle
          omega
        · rw [hnone] at hnew
          cases hnew
  | restated hidentity _ =>
      refine ⟨fun _ _ hblob => hblob, ?_, ?_, fun _ _ hturn _ => hturn⟩
      · intro id row hrow
        exact ⟨_, by rw [Table.get?_modify, hrow]; rfl, hidentity id row⟩
      · intro id row new newRow _ hnone hnew
        rw [Table.get?_modify, hnone] at hnew
        cases hnew
  | opened hinsert _ =>
      obtain ⟨hfree, hget⟩ := Table.get?_of_insert? hinsert
      refine ⟨fun _ _ hblob => hblob, fun _ row hrow => ⟨row, hrow, rfl⟩, ?_, ?_⟩
      · intro _ _ _ _ _ hnone hnew
        rw [hnone] at hnew
        cases hnew
      · intro id turn hturn _
        show Table.get? _ id = _
        rw [hget, if_neg]
        · exact hturn
        · rintro rfl
          rw [hfree] at hturn
          cases hturn
  | closed _ _ hended =>
      refine ⟨fun _ _ hblob => hblob, fun _ row hrow => ⟨row, hrow, rfl⟩, ?_, ?_⟩
      · intro _ _ _ _ _ hnone hnew
        rw [hnone] at hnew
        cases hnew
      · intro id turn hturn hstate
        rw [Table.get?_modify, hturn, Option.map_some, hended id turn hstate]

theorem Change.sound (h : Change s s') (hs : s.Sound) : s'.Sound := by
  cases h with
  | created _ hinsert horder hsent =>
      obtain ⟨hfree, hget⟩ := Table.get?_of_insert? hinsert
      refine ⟨Table.holds_insert? hinsert hs.sent_iff hsent, ?_, hs.one_open⟩
      intro id row id' row' hrow hrow' hsession hnumber
      change Table.get? _ id = _ at hrow
      change Table.get? _ id' = _ at hrow'
      rw [hget] at hrow hrow'
      split at hrow <;> split at hrow'
      · next heq heq' => rw [heq, heq']
      · -- an older message of the session has a smaller number
        obtain rfl := Option.some.inj hrow
        have hle := orderNumber_le_lastOrder hrow'
        rw [← hsession] at hle
        omega
      · obtain rfl := Option.some.inj hrow'
        have hle := orderNumber_le_lastOrder hrow
        rw [hsession] at hle
        omega
      · exact hs.order_unique id row id' row' hrow hrow' hsession hnumber
  | restated hidentity hsent =>
      refine ⟨Table.holds_modify.2 fun id row hrow => hsent id row (hs.sent_iff id row hrow), ?_,
        hs.one_open⟩
      intro id row id' row' hrow hrow' hsession hnumber
      rw [Table.get?_modify] at hrow hrow'
      obtain ⟨old, hold, rfl⟩ := Option.map_eq_some_iff.1 hrow
      obtain ⟨old', hold', rfl⟩ := Option.map_eq_some_iff.1 hrow'
      rw [identity_targetSessionId (hidentity id old),
        identity_targetSessionId (hidentity id' old')] at hsession
      rw [identity_orderNumber (hidentity id old),
        identity_orderNumber (hidentity id' old')] at hnumber
      exact hs.order_unique id old id' old' hold hold' hsession hnumber
  | opened hinsert hclosed =>
      obtain ⟨hfree, hget⟩ := Table.get?_of_insert? hinsert
      refine ⟨hs.sent_iff, hs.order_unique, ?_⟩
      intro id turn id' turn' hturn hturn' hstarted hstarted' hsession
      change Table.get? _ id = _ at hturn
      change Table.get? _ id' = _ at hturn'
      rw [hget] at hturn hturn'
      split at hturn <;> split at hturn'
      · next heq heq' => rw [heq, heq']
      · obtain rfl := Option.some.inj hturn
        exact absurd hstarted' (hclosed id' turn' hturn' hsession.symm)
      · obtain rfl := Option.some.inj hturn'
        exact absurd hstarted (hclosed id turn hturn hsession)
      · exact hs.one_open id turn id' turn' hturn hturn' hstarted hstarted' hsession
  | closed hsession hstate _ =>
      refine ⟨hs.sent_iff, hs.order_unique, ?_⟩
      intro id turn id' turn' hturn hturn' hstarted hstarted' heq
      rw [Table.get?_modify] at hturn hturn'
      obtain ⟨old, hold, rfl⟩ := Option.map_eq_some_iff.1 hturn
      obtain ⟨old', hold', rfl⟩ := Option.map_eq_some_iff.1 hturn'
      rw [hsession, hsession] at heq
      exact hs.one_open id old id' old' hold hold' (hstate id old hstarted)
        (hstate id' old' hstarted') heq

/-- Any number of changes. -/
abbrev Changes : WorkflowMessageStore → WorkflowMessageStore → Prop :=
  Relation.ReflTransGen Change

theorem Changes.follows (h : Changes s s') : s.Follows s' := by
  induction h with
  | refl => exact .refl s
  | tail _ hchange ih => exact ih.trans hchange.follows

theorem Changes.sound (h : Changes s s') (hs : s.Sound) : s'.Sound := by
  induction h with
  | refl => exact hs
  | tail _ hchange ih => exact hchange.sound ih

/-! ## Reading messages -/

theorem mapMessage_ok {id : String} {row : WorkflowMessageRow} {message : WorkflowMessage} :
    s.mapMessage id row = .ok message ↔
      ∃ content, s.state.readJson row.contentHash = .ok content ∧
        isWorkflowMessageContent content = true ∧
        message = { mapMessageSummary id row with content } := by
  simp only [mapMessage, bind_ok, require_ok, pure_ok]
  constructor
  · rintro ⟨content, hread, _, hcontent, rfl⟩
    exact ⟨content, hread, hcontent, rfl⟩
  · rintro ⟨content, hread, hcontent, rfl⟩
    exact ⟨content, hread, .unit, hcontent, rfl⟩

theorem get_some {id : String} {message : WorkflowMessage} :
    s.get id = .ok (some message) ↔
      ∃ row, s.messages.get? id = some row ∧ s.mapMessage id row = .ok message := by
  unfold get
  cases s.messages.get? id with
  | none => simp
  | some row => simp

theorem requireMessage_ok {id : String} {message : WorkflowMessage} :
    s.requireMessage id = .ok message ↔ s.get id = .ok (some message) := by
  simp only [requireMessage, bind_ok, orThrow_ok]
  constructor
  · rintro ⟨found, hget, rfl⟩
    exact hget
  · exact fun hget => ⟨some message, hget, rfl⟩

theorem readJson_of_blobs
    (hblobs : ∀ hash blob, s.state.readBlob hash = some blob → t.state.readBlob hash = some blob)
    {hash : String} {content : Json} (h : s.state.readJson hash = .ok content) :
    t.state.readJson hash = .ok content := by
  unfold StateDatabase.readJson at h ⊢
  cases hblob : s.state.readBlob hash with
  | none =>
      rw [hblob] at h
      cases h
  | some blob =>
      rw [hblob] at h
      rw [hblobs hash blob hblob]
      exact h

/-- A message is still read later, and is the same but for its delivery. -/
theorem Follows.get {id : String} {message : WorkflowMessage} (h : s.Follows t)
    (hget : s.get id = .ok (some message)) :
    ∃ message', t.get id = .ok (some message') ∧ message'.identity = message.identity := by
  obtain ⟨row, hrow, hmap⟩ := get_some.1 hget
  obtain ⟨content, hread, hcontent, rfl⟩ := mapMessage_ok.1 hmap
  obtain ⟨row', hrow', hsame⟩ := h.messages id row hrow
  have hhash : row'.contentHash = row.contentHash := by
    show row'.identity.contentHash = row.identity.contentHash
    rw [hsame]
  refine ⟨{ mapMessageSummary id row' with content }, get_some.2 ⟨row', hrow', ?_⟩, ?_⟩
  · refine mapMessage_ok.2 ⟨content, ?_, hcontent, rfl⟩
    rw [hhash]
    exact readJson_of_blobs h.blobs hread
  · have hsummary : mapMessageSummary id row'.identity = mapMessageSummary id row.identity := by
      rw [hsame]
    show ({ mapMessageSummary id row'.identity with content } : WorkflowMessage) =
      { mapMessageSummary id row.identity with content }
    rw [hsummary]

/-! ## What each call does -/

theorem insertMessage_ok {id : String} {row : WorkflowMessageRow}
    (h : s.insertMessage id row = .ok t) :
    ∃ messages, s.messages.insert? id row = some messages ∧ t = { s with messages } := by
  simp only [insertMessage, bind_ok, require_ok, orThrow_ok, pure_ok] at h
  obtain ⟨-, -, -, -, messages, hinsert, rfl⟩ := h
  exact ⟨messages, hinsert, rfl⟩

/-- The message that `create` returns is the one the options describe. -/
def Describes (sha256 : String → String) (options : CreateWorkflowMessageOptions)
    (message : WorkflowMessage) : Prop :=
  message.runId = options.runId ∧ message.targetSessionId = options.targetSessionId ∧
    message.kind = options.kind ∧ message.sourceId = options.sourceId ∧
    message.contentDigest = sha256 (canonicalJson options.content)

theorem newMessage_sentWithEntry (s : WorkflowMessageStore) (options : CreateWorkflowMessageOptions)
    (contentHash : String) : (s.newMessage options contentHash).SentWithEntry := by
  simp [WorkflowMessageRow.SentWithEntry, newMessage]

theorem create_ok {options : CreateWorkflowMessageOptions} {message : WorkflowMessage}
    (h : s.create sha256 options = .ok (message, t)) :
    Changes s t ∧ validateContent options.content options.kind = .ok () ∧
      t.get (options.messageId sha256) = .ok (some message) ∧ Describes sha256 options message := by
  simp only [create, bind_ok] at h
  obtain ⟨⟨⟩, hvalid, found, hfound, h⟩ := h
  cases found with
  | some existing =>
      simp only [bind_ok, pure_ok, assertSameMessage, require_ok, Prod.mk.injEq] at h
      obtain ⟨_, hsame, rfl, rfl⟩ := h
      exact ⟨.refl, hvalid, hfound, hsame⟩
  | none =>
      simp only [bind_ok, pure_ok, Prod.mk.injEq, Prod.exists] at h
      obtain ⟨hash, state, hput, u, hinsert, found, hrequire, rfl, rfl⟩ := h
      obtain ⟨rfl, -, -, hblobs, -⟩ := putBlob_ok hput
      obtain ⟨messages, hadded, rfl⟩ := insertMessage_ok hinsert
      have hget := requireMessage_ok.1 hrequire
      refine ⟨.single (.created hblobs hadded rfl (newMessage_sentWithEntry s options _)), hvalid,
        hget, ?_⟩
      obtain ⟨row, hrow, hmap⟩ := get_some.1 hget
      obtain ⟨content, -, -, rfl⟩ := mapMessage_ok.1 hmap
      change Table.get? messages _ = _ at hrow
      rw [(Table.get?_of_insert? hadded).2, if_pos rfl] at hrow
      obtain rfl := Option.some.inj hrow
      exact ⟨rfl, rfl, rfl, rfl, rfl⟩

/-- A message that is there and is what the options describe is returned. -/
theorem create_existing {options : CreateWorkflowMessageOptions} {message : WorkflowMessage}
    (hvalid : validateContent options.content options.kind = .ok ())
    (hget : s.get (options.messageId sha256) = .ok (some message))
    (hsame : Describes sha256 options message) :
    s.create sha256 options = .ok (message, s) := by
  simp only [create, bind_ok]
  refine ⟨(), hvalid, some message, hget, ?_⟩
  simp only [bind_ok, pure_ok, assertSameMessage, require_ok]
  exact ⟨.unit, hsame, trivial⟩

theorem cancelPending_changes (p : WorkflowMessageRow → Bool) (now : Int) :
    Changes s (s.cancelPending p now).2 := by
  refine .single (.restated ?_ ?_)
  · intro _ row
    split <;> rfl
  · intro _ row hsent
    split
    · next hrow =>
        rw [Bool.and_eq_true, decide_eq_true_iff] at hrow
        -- a waiting message has no entry
        rw [WorkflowMessageRow.SentWithEntry, hrow.1] at hsent
        simpa [WorkflowMessageRow.SentWithEntry] using hsent
    · exact hsent

theorem reopenMessage_ok {id : String} {now : Int} {n : Nat}
    (h : s.reopenMessage id now = .ok (n, t)) : Changes s t := by
  unfold reopenMessage at h
  split at h
  · cases pure_ok.1 h
    exact .refl
  · split at h
    · simp only [bind_ok, pure_ok, Prod.mk.injEq] at h
      obtain ⟨_, _, -, rfl⟩ := h
      refine .single (.restated ?_ ?_)
      · intro _ row
        split <;> rfl
      · intro _ row hsent
        split
        · simp [WorkflowMessageRow.SentWithEntry]
        · exact hsent
    · cases pure_ok.1 h
      exact .refl

theorem markSent_changes (entry : WorkflowBranchEntry) (now : Int) :
    Changes s (s.markSent entry now) := by
  refine .single (.restated ?_ ?_)
  · intro _ row
    dsimp only
    split
    · split <;> rfl
    · rfl
  · intro _ row hsent
    dsimp only
    split
    · split
      · simp [WorkflowMessageRow.SentWithEntry]
      · exact hsent
    · exact hsent

theorem adoptEntry_ok {targetSessionId : String} {allowedMessageIds : List String} {now : Int}
    {entry : WorkflowBranchEntry} {message : WorkflowMessage}
    (h : s.adoptEntry targetSessionId allowedMessageIds now entry = .ok (message, t)) :
    Changes s t := by
  simp only [adoptEntry, bind_ok, pure_ok, Prod.mk.injEq] at h
  obtain ⟨_, _, current, _, _, _, _, _, _, _, _, rfl⟩ := h
  split
  · exact .refl
  · exact markSent_changes entry now

theorem adoptBranch_ok {targetSessionId : String} {allowedMessageIds : List String} {now : Int}
    {entries : List WorkflowBranchEntry} {adopted : List WorkflowMessage}
    (h : s.adoptBranch targetSessionId allowedMessageIds now entries = .ok (adopted, t)) :
    Changes s t := by
  induction entries generalizing s adopted with
  | nil =>
      rw [adoptBranch] at h
      cases pure_ok.1 h
      exact .refl
  | cons entry rest ih =>
      simp only [adoptBranch, bind_ok, pure_ok, Prod.exists, Prod.mk.injEq] at h
      obtain ⟨message, mid, hentry, adopted, last, hrest, -, rfl⟩ := h
      exact (adoptEntry_ok hentry).trans (ih hrest)

theorem checkStart_ok {options : StartTurnOptions} (h : s.checkStart options = .ok ()) :
    s.openTurnsForSession options.targetSessionId = [] := by
  simp only [checkStart, bind_ok] at h
  obtain ⟨_, _, _, _, _, _, _, _, h⟩ := h
  split at h
  · cases h
  · split at h
    · cases h
    · next hhead => exact List.head?_eq_none_iff.1 hhead

theorem openTurnsForSession_nil {targetSessionId : String}
    (h : s.openTurnsForSession targetSessionId = []) :
    s.turns.Holds fun _ turn => turn.targetSessionId = targetSessionId → turn.state ≠ .started := by
  intro id turn hturn hsession hstarted
  have hmem : (id, turn) ∈ s.turns.rows.filter fun e =>
      e.2.targetSessionId = targetSessionId ∧ e.2.state = .started :=
    List.mem_filter.2 ⟨Table.mem_rows.2 hturn, decide_eq_true ⟨hsession, hstarted⟩⟩
  rw [openTurnsForSession, List.map_eq_nil_iff] at h
  rw [← List.mem_mergeSort, h] at hmem
  cases hmem

theorem startTurn_ok {options : StartTurnOptions} {turn : WorkflowTurn}
    (h : s.startTurn options = .ok (turn, t)) : Changes s t := by
  unfold startTurn at h
  split at h
  · simp only [bind_ok, pure_ok, Prod.mk.injEq] at h
    obtain ⟨_, _, _, rfl⟩ := h
    exact .refl
  · simp only [bind_ok, pure_ok, orThrow_ok, Prod.mk.injEq] at h
    obtain ⟨⟨⟩, hcheck, turns, hinsert, _, _, _, rfl⟩ := h
    exact .single (.opened hinsert (openTurnsForSession_nil (checkStart_ok hcheck)))

theorem closeTurn_changes (options : EndTurnOptions) : Changes s (s.closeTurn options) := by
  refine .single (.closed ?_ ?_ ?_)
  · intro _ row
    dsimp only
    split
    · split <;> rfl
    · rfl
  · intro _ row hstarted
    dsimp only at hstarted
    split at hstarted
    · split at hstarted
      · cases hstarted
      · exact hstarted
    · exact hstarted
  · intro _ row hended
    dsimp only
    split
    · rw [if_neg]
      rintro ⟨-, hstarted⟩
      rw [hended] at hstarted
      cases hstarted
    · rfl

theorem endTurn_ok {options : EndTurnOptions} {turn : WorkflowTurn}
    (h : s.endTurn options = .ok (turn, t)) : Changes s t := by
  simp only [endTurn, bind_ok] at h
  obtain ⟨current, _, _, _, h⟩ := h
  split at h
  · simp only [bind_ok, pure_ok, Prod.mk.injEq] at h
    obtain ⟨_, _, _, rfl⟩ := h
    exact .refl
  · simp only [bind_ok, pure_ok, Prod.mk.injEq] at h
    obtain ⟨_, _, _, _, _, rfl⟩ := h
    exact closeTurn_changes options

theorem step_ok {action : Action} (h : s.step sha256 action = .ok t) : Changes s t := by
  cases action with
  | create options =>
      obtain ⟨⟨message, t⟩, hcreate, rfl⟩ := map_ok.1 h
      exact (create_ok hcreate).1
  | adoptBranch targetSessionId entries allowedMessageIds now =>
      obtain ⟨⟨adopted, t⟩, hadopt, rfl⟩ := map_ok.1 h
      exact adoptBranch_ok hadopt
  | reopenMessage id now =>
      obtain ⟨⟨n, t⟩, hreopen, rfl⟩ := map_ok.1 h
      exact reopenMessage_ok hreopen
  | cancelPendingForSource sourceId kind now =>
      cases h
      exact cancelPending_changes _ now
  | cancelPendingForRun runId now kinds =>
      cases h
      unfold cancelPendingForRun
      split
      · exact .refl
      · exact cancelPending_changes _ now
  | startTurn options =>
      obtain ⟨⟨turn, t⟩, hstart, rfl⟩ := map_ok.1 h
      exact startTurn_ok hstart
  | endTurn options =>
      obtain ⟨⟨turn, t⟩, hend, rfl⟩ := map_ok.1 h
      exact endTurn_ok hend

/-! ## Runs -/

theorem fresh_sound (state : StateDatabase String) (runs : List String) :
    (fresh state runs).Sound where
  sent_iff := Table.holds_empty
  order_unique _ _ _ _ h := by cases h
  one_open _ _ _ _ h := by cases h

theorem served_sound (hs : s.Sound) (actions : List Action) :
    (served (step sha256) s actions).Sound :=
  served_invariant (fun _ _ _ hs h => (step_ok h).sound hs) hs actions

theorem served_follows (s : WorkflowMessageStore) (actions : List Action) :
    s.Follows (served (step sha256) s actions) :=
  served_related (P := fun _ => True) Follows.refl Follows.trans (fun _ _ _ _ _ => trivial)
    (fun _ _ _ _ h => (step_ok h).follows) trivial actions

/-- Two calls of `create` for one message: the same identity and the same content. -/
structure SameCreate (sha256 : String → String) (options options' : CreateWorkflowMessageOptions) :
    Prop where
  messageId : options'.messageId sha256 = options.messageId sha256
  runId : options'.runId = options.runId
  targetSessionId : options'.targetSessionId = options.targetSessionId
  kind : options'.kind = options.kind
  sourceId : options'.sourceId = options.sourceId
  content : SameJson options'.content options.content

theorem create_again {options options' : CreateWorkflowMessageOptions} {message : WorkflowMessage}
    (hcreate : s.create sha256 options = .ok (message, t)) (hsame : SameCreate sha256 options options')
    (hfollows : t.Follows s') :
    ∃ message', s'.create sha256 options' = .ok (message', s') ∧
      message'.identity = message.identity := by
  obtain ⟨-, hvalid, hget, hrun, hsession, hkind, hsource, hdigest⟩ := create_ok hcreate
  obtain ⟨message', hget', hidentity⟩ := hfollows.get hget
  refine ⟨message', create_existing ?_ ?_ ?_, hidentity⟩
  · rw [validateContent_same hsame.content, hsame.kind]
    exact hvalid
  · rw [hsame.messageId]
    exact hget'
  · show Describes sha256 options' message'.identity
    rw [hidentity]
    refine ⟨hrun.trans hsame.runId.symm, hsession.trans hsame.targetSessionId.symm,
      hkind.trans hsame.kind.symm, hsource.trans hsame.sourceId.symm, ?_⟩
    rw [canonicalJson_eq_iff_same.2 hsame.content]
    exact hdigest

/-- Messages and turns under any order of calls: every state is sound, a later state
follows an earlier one, and a repeated `create` is told of the first message, however
much happened in between, and leaves the store as it is. -/
theorem messageTurns_kept (sha256 : String → String) (state : StateDatabase String)
    (runs : List String) (actions later : List Action) :
    let s := served (step sha256) (fresh state runs) actions
    s.Sound ∧ s.Follows (served (step sha256) s later) ∧
      ∀ options options' message t, s.create sha256 options = .ok (message, t) →
        SameCreate sha256 options options' →
          let s' := served (step sha256) t later
          ∃ message', s'.create sha256 options' = .ok (message', s') ∧
            message'.identity = message.identity := by
  intro s
  refine ⟨served_sound (fresh_sound state runs) actions, served_follows s later, ?_⟩
  intro options options' message t hcreate hsame
  exact create_again hcreate hsame (served_follows t later)

/-! A step is asked for, delivered and answered by a turn, and asked for again. -/

def askOptions : CreateWorkflowMessageOptions where
  runId := "run"
  targetSessionId := "session"
  kind := .step
  sourceId := "request"
  idempotencyKey := "initial"
  content := .obj
    [("schema", .str WORKFLOW_MESSAGE_CONTENT_SCHEMA), ("customType", .str "workflow-step"),
      ("content", .str "Review"), ("display", .bool true), ("details", .null),
      ("triggerTurn", .bool true)]
  now := 0

def askDelivery : List Action :=
  [.adoptBranch "session" [⟨askOptions.messageId id, "entry"⟩] [askOptions.messageId id] 1,
    .startTurn ⟨askOptions.messageId id, "turn", "run", "session", 2⟩]

theorem ask_accepted : ((fresh .fresh ["run"]).create id askOptions).isOk = true := by
  decide +kernel

theorem ask_repeated :
    ∃ message t message', (fresh .fresh ["run"]).create id askOptions = .ok (message, t) ∧
      let s' := served (step id) t askDelivery
      s'.create id { askOptions with now := 3 } = .ok (message', s') ∧
        message'.identity = message.identity := by
  cases hcreate : (fresh .fresh ["run"]).create id askOptions with
  | error e =>
      have haccepted := ask_accepted
      rw [hcreate] at haccepted
      cases haccepted
  | ok result =>
      obtain ⟨message, t⟩ := result
      obtain ⟨-, -, hagain⟩ := messageTurns_kept id .fresh ["run"] [] askDelivery
      obtain ⟨message', hmessage'⟩ := hagain askOptions { askOptions with now := 3 } message t
        hcreate ⟨rfl, rfl, rfl, rfl, rfl, .refl _⟩
      exact ⟨message, t, message', rfl, hmessage'⟩

end WorkflowMessageStore

end PiWorkflows
