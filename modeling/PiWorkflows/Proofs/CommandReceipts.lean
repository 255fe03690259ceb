import PiWorkflows.Proofs.SameJson
import PiWorkflows.Server.Commands

/-!
# Receipts of commands

A receipt is stored exactly when an operation has run and its transaction has
committed, so the receipts are the committed runs of the log (`CommandInv`). A
call whose request shares an identity with one of them finds a receipt at the
latest inside its transaction and runs nothing, whatever came between its two
looks.

What it finds is the receipt of its own request id first and that of its key
second. A fingerprint covers the client and the key, so if the fingerprints do
not collide a receipt with the fingerprint of the request is also the one under
its key, and the order of the two looks makes no difference to what is answered.
-/

namespace PiWorkflows

open Fallible

/-- Two requests under one request id or under one key of a client. -/
def SameIdentity (a b : ClientRequest) : Prop :=
  a.requestId = b.requestId ∨ a.clientId = b.clientId ∧ a.idempotencyKey = b.idempotencyKey

/-- The response to a repeated request, where the first one got `first`. -/
structure SameReply (first : CommandResult) (request : ClientRequest) (response : ClientResponse) :
    Prop where
  requestId : response.requestId = request.requestId
  outcome : response.outcome = adoptedOutcome first.outcome
  revision : response.revision = first.revision
  receipt : SameLookup response.receipt first.receipt
  error : response.error = first.error

/-- How a call may end after the ones in `before`: an identity in use is answered
from a receipt, by a conflict if it was used with another fingerprint. -/
def Answered (sha256 : String → String) (before : List (ClientRequest × CommandEnd))
    (request : ClientRequest) (ending : CommandEnd) : Prop :=
  ∀ earlier response, (earlier, .ran (.ok response)) ∈ before → SameIdentity earlier request →
    ∃ reply, ending = .found reply ∧
      (clientRequestFingerprint sha256 earlier ≠ clientRequestFingerprint sha256 request →
        reply.outcome = .conflict) ∧
      ((∀ other response', (other, .ran (.ok response')) ∈ before → SameIdentity other request →
          clientRequestFingerprint sha256 other = clientRequestFingerprint sha256 request) →
        SameReply response.toCommandResult request reply)

/-- The receipts are those of the committed runs. -/
structure CommandInv (sha256 : String → String) (s : CommandServer) : Prop where
  recorded : ∀ id row, s.state.commands.get? id = some row ↔
    ∃ request response, (request, .ran (.ok response)) ∈ s.log ∧ request.requestId = id ∧
      row = receiptRow sha256 request response.toCommandResult
  keys : ∀ id id' row row', s.state.commands.get? id = some row →
    s.state.commands.get? id' = some row' → row.clientId = row'.clientId →
    row.idempotencyKey = row'.idempotencyKey → id = id'
  answered : ∀ before request ending after, s.log = before ++ (request, ending) :: after →
    Answered sha256 before request ending

/-! ## Fingerprints -/

theorem SameLookup.str {s t : String} (h : SameLookup (some (.str s)) (some (.str t))) : s = t := by
  have hsame : SameJson (.str s) (.str t) := sameLookup_some.1 h
  exact Json.str.inj hsame

/-- Requests with one fingerprint are for one key of one client. -/
theorem sameKey_of_fingerprint {sha256 : String → String} (hsha256 : Function.Injective sha256)
    {a b : ClientRequest}
    (h : clientRequestFingerprint sha256 a = clientRequestFingerprint sha256 b) :
    a.clientId = b.clientId ∧ a.idempotencyKey = b.idempotencyKey := by
  have hsame : SameJson (fingerprintJson a) (fingerprintJson b) :=
    canonicalJson_eq_iff.1 (hsha256 h)
  exact ⟨(hsame.member? "clientId").str, (hsame.member? "idempotencyKey").str⟩

/-! ## Looking for a receipt -/

section

variable {sha256 : String → String} {s : CommandServer} {request earlier : ClientRequest}
  {response reply : ClientResponse}

theorem replays_receiptRow (first : CommandResult) (id : String) :
    SameReply first request
      { commandResponse id (receiptRow sha256 earlier first) with
        requestId := request.requestId
        outcome := adoptedOutcome first.outcome } := by
  refine ⟨rfl, rfl, rfl, ?_, rfl⟩
  show (first.receipt.map storedJson).map normalizeJson = first.receipt.map normalizeJson
  rw [Option.map_map]
  congr 1
  exact funext normalizeJson_idem

theorem CommandInv.row (h : CommandInv sha256 s) (hran : (earlier, .ran (.ok response)) ∈ s.log) :
    s.state.commands.get? earlier.requestId =
      some (receiptRow sha256 earlier response.toCommandResult) :=
  (h.recorded _ _).2 ⟨earlier, response, hran, rfl, rfl⟩

/-- The receipt under a key is found by the key. -/
theorem CommandInv.forKey (h : CommandInv sha256 s)
    (hran : (earlier, .ran (.ok response)) ∈ s.log) :
    commandForKey s.state.commands earlier.clientId earlier.idempotencyKey =
      some (earlier.requestId, receiptRow sha256 earlier response.toCommandResult) := by
  refine Table.find?_of_unique (h.row hran) (decide_eq_true ⟨rfl, rfl⟩) ?_
  intro id row hrow hsame
  obtain ⟨hclient, hkey⟩ := of_decide_eq_true hsame
  exact h.keys _ _ _ _ hrow (h.row hran) hclient hkey

/-- A row that shares an identity with a committed run is its receipt. -/
theorem CommandInv.sameRow (h : CommandInv sha256 s)
    (hran : (earlier, .ran (.ok response)) ∈ s.log) {id : String} {row : CommandRow}
    (hrow : s.state.commands.get? id = some row)
    (hsame : earlier.requestId = id ∨
      earlier.clientId = row.clientId ∧ earlier.idempotencyKey = row.idempotencyKey) :
    row = receiptRow sha256 earlier response.toCommandResult := by
  have hid : earlier.requestId = id := by
    rcases hsame with hid | ⟨hclient, hkey⟩
    · exact hid
    · exact h.keys _ _ _ _ (h.row hran) hrow hclient hkey
  rw [← hid, h.row hran] at hrow
  exact (Option.some.inj hrow).symm

/-- A request under an identity in use finds a receipt. -/
theorem CommandInv.found (h : CommandInv sha256 s)
    (hran : (earlier, .ran (.ok response)) ∈ s.log) (hsame : SameIdentity earlier request) :
    adoptCommand sha256 s.state request ≠ none := by
  intro hnone
  unfold adoptCommand at hnone
  split at hnone
  · cases hnone
  · next hread =>
      rw [Option.map_eq_none_iff] at hnone
      rcases hsame with hid | ⟨hclient, hkey⟩
      · rw [readCommand, ← hid, h.row hran] at hread
        cases hread
      · rw [← hclient, ← hkey, h.forKey hran] at hnone
        cases hnone

/-- What is found is the row under the request id, or that under the key if no
row has the request id. -/
theorem adoptCommand_some {state : ServerState} (h : adoptCommand sha256 state request = some reply) :
    ∃ id row, state.commands.get? id = some row ∧
      (id = request.requestId ∨ state.commands.get? request.requestId = none ∧
        row.clientId = request.clientId ∧ row.idempotencyKey = request.idempotencyKey) ∧
      (row.requestFingerprint = clientRequestFingerprint sha256 request ∧
          reply = { commandResponse id row with
            requestId := request.requestId, outcome := adoptedOutcome row.outcome } ∨
        row.requestFingerprint ≠ clientRequestFingerprint sha256 request ∧
          reply.outcome = .conflict) := by
  unfold adoptCommand at h
  split at h
  · next existing hread =>
      obtain ⟨row, hrow, rfl⟩ := Option.map_eq_some_iff.1 hread
      refine ⟨request.requestId, row, hrow, .inl rfl, ?_⟩
      rw [Option.some.injEq] at h
      subst h
      split
      · next hsame => exact .inl ⟨hsame, rfl⟩
      · next hother => exact .inr ⟨hother, rfl⟩
  · next hread =>
      obtain ⟨⟨id, row⟩, hfind, hreply⟩ := Option.map_eq_some_iff.1 h
      obtain ⟨hrow, hkey⟩ := Table.find?_some hfind
      obtain ⟨hclient, hkey⟩ := of_decide_eq_true hkey
      have hfree : state.commands.get? request.requestId = none := Option.map_eq_none_iff.1 hread
      refine ⟨id, row, hrow, .inr ⟨hfree, hclient, hkey⟩, ?_⟩
      subst hreply
      dsimp only
      split
      · next hsame => exact .inl ⟨hsame, rfl⟩
      · next hother => exact .inr ⟨hother, rfl⟩

theorem CommandInv.answers (hsha256 : Function.Injective sha256) (h : CommandInv sha256 s)
    (hfound : adoptCommand sha256 s.state request = some reply) :
    Answered sha256 s.log request (.found reply) := by
  intro earlier response hran hsame
  obtain ⟨id, row, hrow, hwhere, hreply⟩ := adoptCommand_some hfound
  obtain ⟨first, response', hfirst, hfirstId, hfirstRow⟩ := (h.recorded id row).1 hrow
  -- The request shares an identity with the run whose receipt was found.
  have hfirstSame : SameIdentity first request := by
    rcases hwhere with hid | ⟨-, hclient, hkey⟩
    · exact .inl (hfirstId.trans hid)
    · rw [hfirstRow] at hclient hkey
      exact .inr ⟨hclient, hkey⟩
  rcases hreply with ⟨hfingerprint, hreply⟩ | ⟨hother, hconflict⟩
  · -- With the fingerprint of the request, it is also the receipt of the earlier run.
    have hearlier : row = receiptRow sha256 earlier response.toCommandResult := by
      refine h.sameRow hran hrow ?_
      rw [hfirstRow] at hfingerprint ⊢
      obtain ⟨hclient, hkey⟩ := sameKey_of_fingerprint hsha256 hfingerprint
      rcases hsame with hid | ⟨hclient', hkey'⟩
      · rcases hwhere with hid' | ⟨hfree, -⟩
        · exact .inl (hid.trans hid'.symm)
        · rw [← hid, h.row hran] at hfree
          cases hfree
      · exact .inr ⟨hclient'.trans hclient.symm, hkey'.trans hkey.symm⟩
    refine ⟨reply, rfl, fun hdiffer => absurd ?_ hdiffer, fun _ => ?_⟩
    · rw [hearlier] at hfingerprint
      exact hfingerprint
    · rw [hreply, hearlier]
      exact replays_receiptRow response.toCommandResult id
  · refine ⟨reply, rfl, fun _ => hconflict, fun hall => absurd ?_ hother⟩
    rw [hfirstRow]
    exact hall first response' hfirst hfirstSame

/-- A request that found no receipt shares no identity with a committed run. -/
theorem CommandInv.answers_none (h : CommandInv sha256 s)
    (hnone : adoptCommand sha256 s.state request = none) (ending : CommandEnd) :
    Answered sha256 s.log request ending :=
  fun _ _ hran hsame => absurd hnone (h.found hran hsame)

/-! ## Steps -/

/-- The endings that store a receipt. -/
def CommandEnd.IsCommitted (ending : CommandEnd) : Prop :=
  ∃ response, ending = .ran (.ok response)

theorem answered_append {log : List (ClientRequest × CommandEnd)} {ending : CommandEnd}
    (hold : ∀ before request ending after, log = before ++ (request, ending) :: after →
      Answered sha256 before request ending)
    (hnew : Answered sha256 log request ending) :
    ∀ before request' ending' after,
      log ++ [(request, ending)] = before ++ (request', ending') :: after →
        Answered sha256 before request' ending' := by
  intro before request' ending' after hsplit
  rcases List.eq_nil_or_concat after with rfl | ⟨front, last, rfl⟩
  · obtain ⟨rfl, hlast⟩ := List.append_inj' hsplit rfl
    obtain ⟨rfl, rfl⟩ := Prod.mk.inj (List.cons.inj hlast).1
    exact hnew
  · rw [List.concat_eq_append, ← List.cons_append, ← List.append_assoc] at hsplit
    obtain ⟨hlog, -⟩ := List.append_inj' hsplit rfl
    exact hold before request' ending' front hlog

/-- An ending that stores no receipt. -/
theorem CommandInv.log (h : CommandInv sha256 s) {ending : CommandEnd}
    {pending : List CommandCall} (hopen : ¬ ending.IsCommitted)
    (hanswered : Answered sha256 s.log request ending) :
    CommandInv sha256 ⟨s.state, pending, s.log ++ [(request, ending)]⟩ := by
  refine ⟨fun id row => ?_, h.keys, answered_append h.answered hanswered⟩
  rw [h.recorded id row]
  constructor
  · rintro ⟨first, response, hran, hrest⟩
    exact ⟨first, response, List.mem_append_left _ hran, hrest⟩
  · rintro ⟨first, response, hran, hrest⟩
    rcases List.mem_append.1 hran with hran | hran
    · exact ⟨first, response, hran, hrest⟩
    · obtain ⟨-, hending⟩ := Prod.mk.inj (List.mem_singleton.1 hran)
      exact absurd ⟨response, hending.symm⟩ hopen

/-- What a transaction that commits did to the receipts. -/
theorem runCommand_ok {state state' : ServerState} {serverEpoch now : Int} {operation : Operation}
    (h : runCommand sha256 state request serverEpoch now operation = .ok (response, state')) :
    commandForKey state.commands request.clientId request.idempotencyKey = none ∧
      state.commands.insert? request.requestId
        (receiptRow sha256 request response.toCommandResult) = some state'.commands := by
  simp only [runCommand, insertCommand, bind_ok, require_ok, orThrow_ok, Except.ok.injEq,
    Prod.exists, Prod.mk.injEq] at h
  obtain ⟨result, db, blobs, _, _, _, _, _, after, ⟨_, _, _, _, _, _, _, hkey, _, _, commands,
    hinsert, rfl⟩, rfl, rfl⟩ := h
  exact ⟨hkey, hinsert⟩

/-- A committed run. -/
theorem CommandInv.commit (h : CommandInv sha256 s) {state' : ServerState}
    {pending : List CommandCall}
    (hkey : commandForKey s.state.commands request.clientId request.idempotencyKey = none)
    (hinsert : s.state.commands.insert? request.requestId
      (receiptRow sha256 request response.toCommandResult) = some state'.commands)
    (hanswered : Answered sha256 s.log request (.ran (.ok response))) :
    CommandInv sha256 ⟨state', pending, s.log ++ [(request, .ran (.ok response))]⟩ := by
  obtain ⟨hfree, hget⟩ := Table.get?_of_insert? hinsert
  -- No other row is for the key of the new one.
  have hunused : ∀ id row, s.state.commands.get? id = some row →
      ¬ (row.clientId = request.clientId ∧ row.idempotencyKey = request.idempotencyKey) :=
    fun id row hrow => of_decide_eq_false (Table.find?_none.1 hkey id row hrow)
  refine ⟨fun id row => ?_, ?_, answered_append h.answered hanswered⟩
  · rw [hget id]
    constructor
    · intro hrow
      split at hrow
      · next hid =>
          exact ⟨request, response, List.mem_append_right _ (List.mem_singleton.2 rfl), hid.symm,
            (Option.some.inj hrow).symm⟩
      · obtain ⟨first, response', hran, hrest⟩ := (h.recorded id row).1 hrow
        exact ⟨first, response', List.mem_append_left _ hran, hrest⟩
    · rintro ⟨first, response', hran, hid, hrow⟩
      rcases List.mem_append.1 hran with hran | hran
      · have hold := (h.recorded id row).2 ⟨first, response', hran, hid, hrow⟩
        rw [if_neg]
        · exact hold
        · rintro rfl
          rw [hfree] at hold
          cases hold
      · obtain ⟨rfl, hending⟩ := Prod.mk.inj (List.mem_singleton.1 hran)
        obtain rfl := Except.ok.inj (CommandEnd.ran.inj hending)
        rw [if_pos hid.symm, hrow]
  · intro id id' row row' hrow hrow' hclient hidempotency
    rw [hget] at hrow hrow'
    split at hrow
    · next hid =>
        split at hrow'
        · next hid' => exact hid.trans hid'.symm
        · obtain rfl := Option.some.inj hrow
          exact absurd ⟨hclient.symm, hidempotency.symm⟩ (hunused id' row' hrow')
    · split at hrow'
      · obtain rfl := Option.some.inj hrow'
        exact absurd ⟨hclient, hidempotency⟩ (hunused id row hrow)
      · exact h.keys id id' row row' hrow hrow' hclient hidempotency

/-- The receipts do not depend on who is waiting. -/
theorem CommandInv.pending (h : CommandInv sha256 s) (pending : List CommandCall) :
    CommandInv sha256 { s with pending } :=
  ⟨h.recorded, h.keys, h.answered⟩

theorem not_committed_found (reply : ClientResponse) : ¬ (CommandEnd.found reply).IsCommitted :=
  fun ⟨_, h⟩ => by cases h

theorem not_committed_error (message : String) :
    ¬ (CommandEnd.ran (.error message)).IsCommitted :=
  fun ⟨_, h⟩ => by cases h

theorem CommandInv.finishCall (hsha256 : Function.Injective sha256) (h : CommandInv sha256 s)
    (call : CommandCall) (now : Int) : CommandInv sha256 (s.finishCall sha256 call now) := by
  unfold CommandServer.finishCall
  split
  · next reply hfound =>
      exact h.log (not_committed_found reply) (h.answers hsha256 hfound)
  · next hnone =>
      split
      · next response state' hrun =>
          obtain ⟨hkey, hinsert⟩ := runCommand_ok hrun
          exact h.commit hkey hinsert (h.answers_none hnone _)
      · next message _ =>
          exact h.log (not_committed_error message) (h.answers_none hnone _)

theorem CommandInv.act (hsha256 : Function.Injective sha256) (h : CommandInv sha256 s)
    (action : CommandAction) : CommandInv sha256 (s.act sha256 action) := by
  cases action with
  | start call =>
      show CommandInv sha256 (s.start sha256 call)
      unfold CommandServer.start
      split
      · next reply hfound =>
          exact h.log (not_committed_found reply) (h.answers hsha256 hfound)
      · exact h.pending _
  | finish index now =>
      unfold CommandServer.act
      dsimp only
      split
      · exact (h.pending _).finishCall hsha256 _ now
      · exact h

theorem commandRun_inv (hsha256 : Function.Injective sha256) (h : CommandInv sha256 s)
    (actions : List CommandAction) : CommandInv sha256 (commandRun sha256 s actions) := by
  induction actions generalizing s with
  | nil => exact h
  | cons action actions ih => exact ih (h.act hsha256 action)

variable (sha256) in
/-- Unless an operation has run and committed, the tables and the receipts are as
they were. -/
theorem act_state (s : CommandServer) (action : CommandAction) :
    (s.act sha256 action).state = s.state ∨
      ∃ request response, (s.act sha256 action).log = s.log ++ [(request, .ran (.ok response))] := by
  cases action with
  | start call =>
      refine .inl ?_
      show (s.start sha256 call).state = s.state
      unfold CommandServer.start
      split <;> rfl
  | finish index now =>
      unfold CommandServer.act
      dsimp only
      split
      · next call _ =>
          unfold CommandServer.finishCall
          split
          · exact .inl rfl
          · split
            · next response state' _ => exact .inr ⟨call.request, response, rfl⟩
            · exact .inl rfl
      · exact .inl rfl

end

/-- A server without receipts, with any tables. -/
def CommandServer.fresh (db : Db) (blobs : StateDatabase String) : CommandServer :=
  { state := ⟨db, blobs, .empty⟩ }

theorem commandInv_fresh (sha256 : String → String) (db : Db) (blobs : StateDatabase String) :
    CommandInv sha256 (.fresh db blobs) := by
  constructor
  · refine fun id row => iff_of_false nofun ?_
    rintro ⟨_, _, hran, _⟩
    cases hran
  · intro id id' row row' hrow
    cases hrow
  · intro before request ending after hsplit
    cases before <;> cases hsplit

/-- In every run a request under an identity whose operation has committed runs
nothing and is answered from the receipt, and a call that runs nothing or throws
leaves everything as it was. -/
theorem commandRun_once {sha256 : String → String} (hsha256 : Function.Injective sha256) (db : Db)
    (blobs : StateDatabase String) (actions : List CommandAction) :
    (∀ before request ending after,
      (commandRun sha256 (.fresh db blobs) actions).log = before ++ (request, ending) :: after →
        Answered sha256 before request ending) ∧
      ∀ action request ending,
        ((commandRun sha256 (.fresh db blobs) actions).act sha256 action).log =
            (commandRun sha256 (.fresh db blobs) actions).log ++ [(request, ending)] →
          ¬ ending.IsCommitted →
            ((commandRun sha256 (.fresh db blobs) actions).act sha256 action).state =
              (commandRun sha256 (.fresh db blobs) actions).state := by
  refine ⟨(commandRun_inv hsha256 (commandInv_fresh sha256 db blobs) actions).answered, ?_⟩
  intro action request ending hlog hopen
  rcases act_state sha256 (commandRun sha256 (.fresh db blobs) actions) action with
    hstate | ⟨first, response, hcommitted⟩
  · exact hstate
  · rw [hlog] at hcommitted
    obtain ⟨-, hending⟩ := Prod.mk.inj
      (List.cons.inj (List.append_cancel_left hcommitted)).1
    exact absurd ⟨response, hending⟩ hopen

/-! ## One command sent twice -/

def listRequest (requestId : String) : ClientRequest :=
  { requestId, clientId := "client-1", operation := "run.list", idempotencyKey := "key-1"
    payload := .null }

/-- A command that gives a receipt and changes nothing else. -/
def listCall (requestId : String) : CommandCall :=
  ⟨listRequest requestId, 1, fun db blobs =>
    .ok ({ outcome := .accepted, receipt := some (.arr []) }, db, blobs)⟩

def listActions : List CommandAction :=
  [.start (listCall "request-1"), .start (listCall "request-2"), .finish 0 1, .finish 0 2]

set_option maxRecDepth 4000 in
/-- Both calls are past their first look when the first one commits. -/
theorem listedTwice_replays :
    ∃ reply, (commandRun id (.fresh .empty .fresh) listActions).log =
        [(listRequest "request-1", .ran (.ok
            { outcome := .accepted, receipt := some (.arr []), requestId := "request-1" })),
          (listRequest "request-2", .found reply)] ∧
      SameReply { outcome := .accepted, receipt := some (.arr []) } (listRequest "request-2") reply := by
  have hlog : (commandRun id (.fresh .empty .fresh) listActions).log =
      [(listRequest "request-1", .ran (.ok
          { outcome := .accepted, receipt := some (.arr []), requestId := "request-1" })),
        (listRequest "request-2", .found
          { outcome := .adopted, receipt := some (.arr []), requestId := "request-2" })] := rfl
  have honce := (commandRun_once Function.injective_id .empty .fresh listActions).1
    [(listRequest "request-1", .ran (.ok
      { outcome := .accepted, receipt := some (.arr []), requestId := "request-1" }))]
    (listRequest "request-2") _ [] hlog
  obtain ⟨reply, hreply, -, hreplays⟩ := honce _ _ List.mem_cons_self (.inr ⟨rfl, rfl⟩)
  refine ⟨reply, by rw [hlog, hreply], hreplays ?_⟩
  intro other response hother _
  obtain ⟨rfl, -⟩ := Prod.mk.inj (List.mem_singleton.1 hother)
  rfl

def failingCall : CommandCall :=
  ⟨listRequest "request-1", 1, fun _ _ => .error "Run store is unavailable"⟩

/-- A retry of a command that threw runs it again. -/
theorem failedCommand_runsAgain :
    ¬ ∀ actions : List CommandAction,
      ((commandRun id (.fresh .empty .fresh) actions).log.filter fun e =>
        match e.2 with
        | .ran _ => e.1.requestId = "request-1"
        | .found _ => false).length ≤ 1 := by
  intro h
  have htwice := h [.start failingCall, .finish 0 1, .start failingCall, .finish 0 2]
  exact absurd htwice (by decide)

end PiWorkflows
