import PiWorkflows.Server.Claims

/-!
# One server at a time

The epoch fences the servers. The row agrees with what was granted last, so a claim that was
taken over is never renewed or given back again, and a claim that was not is renewed at any time.
-/

namespace PiWorkflows

open Fallible

/-- What may follow an event: a claim of a later epoch, or the same claim until it is given back. -/
def ServerEvent.Precedes (earlier later : ServerEvent) : Prop :=
  match earlier, later with
  | earlier, .granted claim => earlier.claim.epoch < claim.epoch
  | .released given, later => given.epoch < later.claim.epoch
  | earlier, later => earlier.claim.epoch ≤ later.claim.epoch

/-- The claim that an event leaves in force. -/
def ServerEvent.inForce : ServerEvent → Option ServerClaim
  | .granted claim => some claim
  | .renewed claim => some claim
  | .released _ => none

/-- The claim that is in force after some events. -/
def holding (events : List ServerEvent) : Option ServerClaim :=
  events.getLast?.bind ServerEvent.inForce

/-- Two claims of one server at one epoch. -/
def ServerClaim.Same (sha256 : String → String) (a b : ServerClaim) : Prop :=
  a.epoch = b.epoch ∧ (a.holder sha256).identity = (b.holder sha256).identity

theorem holding_append (events : List ServerEvent) (event : ServerEvent) :
    holding (events ++ [event]) = event.inForce := by
  rw [holding, List.getLast?_append]
  rfl

variable {sha256 : String → String}

theorem ServerRow.acquireServer_ok {row row' : ServerRow} {claim : ServerClaim}
    {options : AcquireServerOptions} (h : row.acquireServer sha256 options = .ok (claim, row')) :
    claim.epoch = row.epoch + 1 ∧ row'.epoch = claim.epoch ∧
      row'.holder = some (claim.holder sha256) := by
  simp only [acquireServer, bind_ok, require_ok, pure_ok, Prod.mk.injEq] at h
  obtain ⟨_, _, _, _, rfl, rfl⟩ := h
  exact ⟨rfl, rfl, rfl⟩

theorem ServerRow.names_holder {row : ServerRow} {claim : ServerClaim}
    (h : row.names sha256 claim = true) : row.epoch = claim.epoch ∧ row.holder ≠ none := by
  obtain ⟨hepoch, hholder⟩ := of_decide_eq_true h
  exact ⟨hepoch, fun hnone => by rw [hnone] at hholder; cases hholder⟩

theorem ServerRow.renewServer_ok {row row' : ServerRow} {claim renewed : ServerClaim}
    {leaseMs now : Int} (h : row.renewServer sha256 claim leaseMs now = .ok (renewed, row')) :
    row.holder ≠ none ∧ row.epoch = renewed.epoch ∧ row'.epoch = row.epoch ∧
      row'.holder = some (renewed.holder sha256) := by
  simp only [renewServer, bind_ok, require_ok, pure_ok, Prod.mk.injEq] at h
  obtain ⟨_, _, _, hnames, rfl, rfl⟩ := h
  obtain ⟨hepoch, hholder⟩ := of_decide_eq_true hnames
  refine ⟨(names_holder hnames).2, hepoch, rfl, ?_⟩
  obtain ⟨holder, hsome, hsame⟩ := Option.map_eq_some_iff.1 hholder
  have hexpires := congrArg (fun h : ServerHolder => { h with expiresAt := now + leaseMs }) hsame
  show row.holder.map _ = _
  rw [hsome]
  exact congrArg some hexpires

namespace ServerHistory

variable {history : ServerHistory}

/-- The row says what the events say. -/
structure Agrees (sha256 : String → String) (history : ServerHistory) : Prop where
  fenced : history.events.Pairwise ServerEvent.Precedes
  reached : ∀ event ∈ history.events, event.claim.epoch ≤ history.row.epoch
  ended : history.row.holder ≠ none → ∀ claim, .released claim ∈ history.events →
    claim.epoch < history.row.epoch
  holder : history.row.holder = (holding history.events).map (ServerClaim.holder sha256)
  epoch : ∀ claim, holding history.events = some claim → history.row.epoch = claim.epoch

/-- One more event that comes after all others, at the epoch of the row. -/
theorem Agrees.append (h : history.Agrees sha256) {row : ServerRow} {event : ServerEvent}
    (hevent : ∀ earlier ∈ history.events, earlier.Precedes event)
    (hrow : history.row.epoch ≤ row.epoch) (hepoch : row.epoch = event.claim.epoch)
    (hbefore : history.row.holder ≠ none ∨ history.row.epoch < row.epoch)
    (hheld : row.holder = event.inForce.map (ServerClaim.holder sha256)) :
    Agrees sha256 ⟨row, history.events ++ [event]⟩ where
  fenced := by
    refine List.pairwise_append.2 ⟨h.fenced, List.pairwise_singleton _ _, ?_⟩
    intro earlier hearlier later hlater
    rw [List.mem_singleton.1 hlater]
    exact hevent earlier hearlier
  reached := by
    intro other hother
    rcases List.mem_append.1 hother with hother | hother
    · exact Nat.le_trans (h.reached other hother) hrow
    · rw [List.mem_singleton.1 hother]
      exact Nat.le_of_eq hepoch.symm
  ended := by
    intro hholder claim hclaim
    rcases List.mem_append.1 hclaim with hclaim | hclaim
    · rcases hbefore with hbefore | hlt
      · exact Nat.lt_of_lt_of_le (h.ended hbefore claim hclaim) hrow
      · exact Nat.lt_of_le_of_lt (h.reached _ hclaim) hlt
    · rw [← List.mem_singleton.1 hclaim] at hheld
      exact absurd hheld hholder
  holder := by
    rw [holding_append]
    exact hheld
  epoch := by
    intro claim hclaim
    rw [holding_append] at hclaim
    cases event <;> cases hclaim <;> exact hepoch

/-- What comes before an event at the epoch of a row that has a holder. -/
theorem Agrees.precedes (h : history.Agrees sha256) (hholder : history.row.holder ≠ none)
    {claim : ServerClaim} (hepoch : history.row.epoch = claim.epoch) {earlier : ServerEvent}
    (hearlier : earlier ∈ history.events) :
    earlier.Precedes (.renewed claim) ∧ earlier.Precedes (.released claim) := by
  have hle := h.reached earlier hearlier
  rw [hepoch] at hle
  cases earlier with
  | granted given => exact ⟨hle, hle⟩
  | renewed given => exact ⟨hle, hle⟩
  | released given =>
      have hlt := h.ended hholder given hearlier
      rw [hepoch] at hlt
      exact ⟨hlt, hlt⟩

/-- Every call of a server keeps it so. -/
theorem Agrees.call (h : history.Agrees sha256) (call : ServerCall) :
    (history.call sha256 call).Agrees sha256 := by
  cases call with
  | acquire options =>
      rw [ServerHistory.call]
      split
      · next claim row heq =>
          obtain ⟨hnext, hepoch, hheld⟩ := ServerRow.acquireServer_ok heq
          refine h.append (fun earlier hearlier => ?_) (by omega) hepoch (.inr (by omega)) hheld
          have hlt : earlier.claim.epoch < claim.epoch := by
            have hle := h.reached earlier hearlier
            omega
          cases earlier <;> exact hlt
      · exact h
  | renew claim leaseMs now =>
      rw [ServerHistory.call]
      split
      · next renewed row heq =>
          obtain ⟨hholder, hepoch, hrow, hheld⟩ := ServerRow.renewServer_ok heq
          exact h.append (fun _ hearlier => (h.precedes hholder hepoch hearlier).1)
            (Nat.le_of_eq hrow.symm) (hrow.trans hepoch) (.inl hholder) hheld
      · exact h
  | release claim =>
      rw [ServerHistory.call, ServerRow.releaseServer]
      by_cases hnames : history.row.names sha256 claim = true
      · rw [if_pos hnames]
        obtain ⟨hepoch, hholder⟩ := ServerRow.names_holder hnames
        exact h.append (fun _ hearlier => (h.precedes hholder hepoch hearlier).2)
          (Nat.le_refl _) hepoch (.inl hholder) rfl
      · rw [if_neg hnames]
        exact h

theorem agrees_calls (calls : List ServerCall) :
    (ServerHistory.calls sha256 calls).Agrees sha256 := by
  refine List.foldlRecOn (motive := Agrees sha256) calls _ ?_ fun _ h call _ => h.call call
  exact ⟨.nil, fun _ h => absurd h List.not_mem_nil, fun _ _ h => absurd h List.not_mem_nil, rfl,
    fun _ h => by cases h⟩

/-- The row carries a claim exactly when it is the one in force. -/
theorem Agrees.names_iff (h : history.Agrees sha256) (claim : ServerClaim) :
    history.row.names sha256 claim = true ↔
      ∃ held, holding history.events = some held ∧ claim.Same sha256 held := by
  simp only [ServerRow.names, decide_eq_true_eq, h.holder, ServerClaim.Same]
  cases hholding : holding history.events with
  | none => simp
  | some held => simp [h.epoch held hholding, eq_comm]

/-- The row is live exactly when a claim is in force that has not expired. -/
theorem Agrees.isLive_eq_false (h : history.Agrees sha256) (now : Int) :
    history.row.isLive now = false ↔
      ∀ claim, holding history.events = some claim → claim.expiresAt ≤ now := by
  rw [ServerRow.isLive, h.holder]
  cases holding history.events <;> simp [ServerClaim.holder]

/-- In every order of the calls of any servers, whatever their clocks say: epochs only grow, and
what is done with a claim is done before any later one is granted and before it is given back. A
claim is granted exactly when none is in force or the one in force has expired, and it is renewed
and given back exactly as long as it is in force, expired or not. -/
theorem serverClaims_fenced (sha256 : String → String) (calls : List ServerCall) :
    let history := ServerHistory.calls sha256 calls
    history.events.Pairwise ServerEvent.Precedes ∧
      (∀ options, (∃ granted, history.row.acquireServer sha256 options = .ok granted) ↔
        requireLeaseMs options.leaseMs = .ok () ∧
          ∀ claim, holding history.events = some claim → claim.expiresAt ≤ options.now) ∧
      (∀ claim leaseMs now,
        (∃ renewed, history.row.renewServer sha256 claim leaseMs now = .ok renewed) ↔
          requireLeaseMs leaseMs = .ok () ∧
            ∃ held, holding history.events = some held ∧ claim.Same sha256 held) ∧
      ∀ claim, (history.row.releaseServer sha256 claim).1 = true ↔
        ∃ held, holding history.events = some held ∧ claim.Same sha256 held := by
  intro history
  have h : history.Agrees sha256 := agrees_calls calls
  refine ⟨h.fenced, fun options => ?_, fun claim leaseMs now => ?_, fun claim => ?_⟩
  · simp only [← h.isLive_eq_false, ServerRow.acquireServer, bind_ok, require_ok, pure_ok]
    constructor
    · rintro ⟨_, _, hlease, _, hfree, -⟩
      exact ⟨hlease, hfree⟩
    · rintro ⟨hlease, hfree⟩
      exact ⟨_, (), hlease, (), hfree, rfl⟩
  · simp only [← h.names_iff, ServerRow.renewServer, bind_ok, require_ok, pure_ok]
    constructor
    · rintro ⟨_, _, hlease, _, hnames, -⟩
      exact ⟨hlease, hnames⟩
    · rintro ⟨hlease, hnames⟩
      exact ⟨_, (), hlease, (), hnames, rfl⟩
  · rw [← h.names_iff, ServerRow.releaseServer]
    cases history.row.names sha256 claim <;> simp

end ServerHistory

end PiWorkflows
