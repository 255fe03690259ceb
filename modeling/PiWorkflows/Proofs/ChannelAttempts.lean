import PiWorkflows.Proofs.MutationFence
import PiWorkflows.Server.ChannelEffects

/-!
# Attempts of a channel effect

A transaction does one of three things to an effect: it starts the next attempt
of an effect that is new, rejected or ambiguous, it settles the attempt that is
unfinished, or it confirms an ambiguous one. `Change` says so once, whatever the
call that the transaction belongs to has read before and how long ago, since each
transaction compares status and count again. That attempts are numbered without
gaps and that an applied effect stays as it is follow from it.

What an attempt was started for is in what its call has read: the automatic retry
of a rejected effect below the maximum, or the explicit retry of the ambiguous
attempt it names. A transaction that finds anything else throws.
-/

namespace PiWorkflows

open Fallible

/-! ## The tables -/

namespace ChannelTables

variable {t t' : ChannelTables} {effectId : String}

/-- The number of attempts of an effect, zero before there is one. -/
def attemptCount (t : ChannelTables) (effectId : String) : Nat :=
  ((t.effects.get? effectId).map ChannelEffectRow.attemptCount).getD 0

theorem attemptCount_of_get? {row : ChannelEffectRow} (h : t.effects.get? effectId = some row) :
    t.attemptCount effectId = row.attemptCount := by
  rw [attemptCount, h]
  rfl

/-- An effect has attempts from 1 to its count; the last one alone may be
unfinished, and it is while the effect is applying. -/
structure Numbered (t : ChannelTables) : Prop where
  started : ∀ effectId row, t.effects.get? effectId = some row → 1 ≤ row.attemptCount
  numbers : ∀ effectId n, (t.attempts.get? (effectId, n)).isSome ↔
    1 ≤ n ∧ n ≤ t.attemptCount effectId
  unfinished : ∀ effectId row n attempt, t.effects.get? effectId = some row →
    t.attempts.get? (effectId, n) = some attempt →
    (attempt.finishedAt = none ↔ n = row.attemptCount ∧ row.status = .applying)

theorem numbered_empty : Numbered empty where
  started := by
    intro effectId row h
    cases h
  numbers := by
    intro effectId n
    constructor
    · intro h
      cases h
    · intro h
      have hcount : empty.attemptCount effectId = 0 := rfl
      omega
  unfinished := by
    intro effectId row n attempt h
    cases h

/-- One row of effects is written. -/
structure Writes (effectId : String) (old : Option ChannelEffectRow) (new : ChannelEffectRow)
    (t t' : ChannelTables) : Prop where
  found : t.effects.get? effectId = old
  effects : ∀ e, t'.effects.get? e = if e = effectId then some new else t.effects.get? e

/-- What a transaction does to an effect, with the number of the attempt it starts. -/
inductive Change (effectId : String) (t t' : ChannelTables) : Option Nat → Prop
  | start {old : Option ChannelEffectRow} {new : ChannelEffectRow} {attempt : EffectAttemptRow}
      (writes : Writes effectId old new t t')
      (ready : ∀ row, old = some row → row.status = .rejected ∨ row.status = .ambiguous)
      (applying : new.status = .applying)
      (next : new.attemptCount = t.attemptCount effectId + 1)
      (running : attempt.finishedAt = none)
      (attempts : ∀ key, t'.attempts.get? key =
        if key = (effectId, new.attemptCount) then some attempt else t.attempts.get? key) :
      Change effectId t t' (some new.attemptCount)
  | settle {old new : ChannelEffectRow} {finish : EffectAttemptRow → EffectAttemptRow}
      (writes : Writes effectId (some old) new t t')
      (applying : old.status = .applying)
      (settled : new.status ≠ .applying)
      (count : new.attemptCount = old.attemptCount)
      (finished : ∀ attempt, (finish attempt).finishedAt ≠ none)
      (attempts : ∀ key, t'.attempts.get? key =
        if key = (effectId, old.attemptCount) then (t.attempts.get? key).map finish
        else t.attempts.get? key) :
      Change effectId t t' none
  | confirm {old new : ChannelEffectRow}
      (writes : Writes effectId (some old) new t t')
      (ambiguous : old.status = .ambiguous)
      (applied : new.status = .applied)
      (count : new.attemptCount = old.attemptCount)
      (attempts : t'.attempts = t.attempts) :
      Change effectId t t' none

/-- The written effect, before and after. -/
theorem Writes.attemptCount_eq {old : Option ChannelEffectRow} {new : ChannelEffectRow}
    (h : Writes effectId old new t t') (e : String) :
    t'.attemptCount e = if e = effectId then new.attemptCount else t.attemptCount e := by
  rw [attemptCount, h.effects e]
  split
  · rfl
  · rfl

theorem Change.attemptCount_eq {started : Option Nat} (h : Change effectId t t' started)
    (e : String) :
    t'.attemptCount e =
      t.attemptCount e + if e = effectId ∧ started.isSome then 1 else 0 := by
  cases h with
  | start writes _ _ next _ _ =>
      rw [writes.attemptCount_eq e]
      by_cases he : e = effectId
      · simp [he, next]
      · simp [he]
  | settle writes _ _ count _ _ =>
      rw [writes.attemptCount_eq e]
      by_cases he : e = effectId
      · simp [he, count, attemptCount_of_get? writes.found]
      · simp [he]
  | confirm writes _ _ count _ =>
      rw [writes.attemptCount_eq e]
      by_cases he : e = effectId
      · simp [he, count, attemptCount_of_get? writes.found]
      · simp [he]

theorem Change.started_eq {n : Nat} (h : Change effectId t t' (some n)) :
    n = t.attemptCount effectId + 1 := by
  cases h with
  | start _ _ _ next _ _ => exact next

/-- An applied effect is not the one a transaction writes. -/
theorem Change.applied_kept {started : Option Nat} {e : String} {row : ChannelEffectRow}
    (h : Change effectId t t' started) (hrow : t.effects.get? e = some row)
    (happlied : row.status = .applied) :
    t'.effects.get? e = some row ∧ ∀ n, t'.attempts.get? (e, n) = t.attempts.get? (e, n) := by
  have hother : ∀ {old : Option ChannelEffectRow} {new : ChannelEffectRow},
      Writes effectId old new t t' → (∀ r, old = some r → r.status ≠ .applied) →
      e ≠ effectId := by
    intro old new writes hold he
    subst he
    exact hold row (writes.found.symm.trans hrow) happlied
  have hkeep : ∀ {old : Option ChannelEffectRow} {new : ChannelEffectRow},
      Writes effectId old new t t' → e ≠ effectId → t'.effects.get? e = some row := by
    intro old new writes he
    rw [writes.effects e, if_neg he, hrow]
  have hkey : ∀ {n m : Nat}, e ≠ effectId → (e, n) ≠ (effectId, m) :=
    fun he heq => he (Prod.mk.inj heq).1
  cases h with
  | start writes ready _ _ _ attempts =>
      have he : e ≠ effectId := hother writes fun r hr => by
        rcases ready r hr with h | h <;> rw [h] <;> decide
      exact ⟨hkeep writes he, fun n => by rw [attempts, if_neg (hkey he)]⟩
  | settle writes applying _ _ _ attempts =>
      have he : e ≠ effectId := hother writes fun r hr => by
        cases hr
        rw [applying]
        decide
      exact ⟨hkeep writes he, fun n => by rw [attempts, if_neg (hkey he)]⟩
  | confirm writes ambiguous _ _ attempts =>
      have he : e ≠ effectId := hother writes fun r hr => by
        cases hr
        rw [ambiguous]
        decide
      exact ⟨hkeep writes he, fun n => by rw [attempts]⟩

theorem Change.numbered {started : Option Nat} (h : Change effectId t t' started)
    (ht : t.Numbered) : t'.Numbered := by
  have hcount := h.attemptCount_eq
  cases h with
  | @start old new attempt writes ready applying next running attempts =>
      refine ⟨?_, ?_, ?_⟩
      · intro e row hrow
        rw [writes.effects e] at hrow
        split at hrow
        · cases hrow
          omega
        · exact ht.started e row hrow
      · intro e n
        have hnum := ht.numbers e n
        rw [attempts, hcount e]
        by_cases he : e = effectId
        · subst he
          by_cases hn : n = new.attemptCount
          · subst hn
            simp [next]
          · have hne : (e, n) ≠ (e, new.attemptCount) := fun heq => hn (Prod.mk.inj heq).2
            rw [if_neg hne, hnum]
            simp only [Option.isSome_some, and_self, if_true]
            omega
        · have hne : (e, n) ≠ (effectId, new.attemptCount) := fun heq => he (Prod.mk.inj heq).1
          rw [if_neg hne, hnum]
          simp [he]
      · intro e row n found hrow hfound
        rw [writes.effects e] at hrow
        rw [attempts] at hfound
        by_cases he : e = effectId
        · subst he
          rw [if_pos rfl] at hrow
          cases hrow
          by_cases hn : n = new.attemptCount
          · subst hn
            rw [if_pos rfl] at hfound
            cases hfound
            exact iff_of_true running ⟨rfl, applying⟩
          · have hne : (e, n) ≠ (e, new.attemptCount) := fun heq => hn (Prod.mk.inj heq).2
            rw [if_neg hne] at hfound
            -- An effect that is ready for an attempt has no unfinished one.
            refine iff_of_false ?_ fun h => hn h.1
            intro hfinished
            have hsome := (ht.numbers e n).1 (Option.isSome_of_eq_some hfound)
            cases hold : t.effects.get? e with
            | none =>
                have hzero : t.attemptCount e = 0 := by rw [attemptCount, hold]; rfl
                omega
            | some r =>
                have happlying := ((ht.unfinished e r n found hold hfound).1 hfinished).2
                rcases ready r (writes.found.symm.trans hold) with h | h
                · rw [h] at happlying
                  cases happlying
                · rw [h] at happlying
                  cases happlying
        · have hne : (e, n) ≠ (effectId, new.attemptCount) := fun heq => he (Prod.mk.inj heq).1
          rw [if_neg he] at hrow
          rw [if_neg hne] at hfound
          exact ht.unfinished e row n found hrow hfound
  | @settle old new finish writes applying settled count finished attempts =>
      refine ⟨?_, ?_, ?_⟩
      · intro e row hrow
        rw [writes.effects e] at hrow
        split at hrow
        · cases hrow
          rw [count]
          exact ht.started _ _ writes.found
        · exact ht.started e row hrow
      · intro e n
        have hsome : (t'.attempts.get? (e, n)).isSome = (t.attempts.get? (e, n)).isSome := by
          rw [attempts]
          split
          · exact Option.isSome_map
          · rfl
        rw [hsome, ht.numbers e n, hcount e]
        simp
      · intro e row n found hrow hfound
        rw [writes.effects e] at hrow
        rw [attempts] at hfound
        by_cases he : e = effectId
        · subst he
          rw [if_pos rfl] at hrow
          cases hrow
          refine iff_of_false ?_ fun h => settled h.2
          by_cases hn : n = old.attemptCount
          · subst hn
            rw [if_pos rfl] at hfound
            obtain ⟨before, _, rfl⟩ := Option.map_eq_some_iff.1 hfound
            exact finished before
          · have hne : (e, n) ≠ (e, old.attemptCount) := fun heq => hn (Prod.mk.inj heq).2
            rw [if_neg hne] at hfound
            exact fun h => hn ((ht.unfinished e old n found writes.found hfound).1 h).1
        · have hne : (e, n) ≠ (effectId, old.attemptCount) := fun heq => he (Prod.mk.inj heq).1
          rw [if_neg he] at hrow
          rw [if_neg hne] at hfound
          exact ht.unfinished e row n found hrow hfound
  | @confirm old new writes ambiguous applied count attempts =>
      refine ⟨?_, ?_, ?_⟩
      · intro e row hrow
        rw [writes.effects e] at hrow
        split at hrow
        · cases hrow
          rw [count]
          exact ht.started _ _ writes.found
        · exact ht.started e row hrow
      · intro e n
        rw [attempts, ht.numbers e n, hcount e]
        simp
      · intro e row n found hrow hfound
        rw [writes.effects e] at hrow
        rw [attempts] at hfound
        split at hrow
        · next he =>
            subst he
            cases hrow
            rw [ht.unfinished e old n found writes.found hfound, ambiguous, applied]
            simp
        · exact ht.unfinished e row n found hrow hfound

/-! ## The transactions -/

theorem insertAttempt_ok {number : Nat} {ownerId : String} {leaseGeneration : Nat} {now : Int}
    (h : t.insertAttempt effectId number ownerId leaseGeneration now = .ok t') :
    t'.effects = t.effects ∧ ∃ attempt : EffectAttemptRow, attempt.finishedAt = none ∧
      ∀ key, t'.attempts.get? key =
        if key = (effectId, number) then some attempt else t.attempts.get? key := by
  simp only [insertAttempt, bind_ok, require_ok, orThrow_ok, pure_ok] at h
  obtain ⟨_, _, attempts, hinsert, rfl⟩ := h
  exact ⟨rfl, _, rfl, (Table.get?_of_insert? hinsert).2⟩

theorem matchesEffect_iff {status : EffectStatus} {count : Nat} :
    t.matchesEffect effectId status count = true ↔
      ∃ row, t.effects.get? effectId = some row ∧ row.status = status ∧
        row.attemptCount = count := by
  simp only [matchesEffect, Option.any_eq_true, Bool.and_eq_true, decide_eq_true_eq]

theorem writes_update {row : ChannelEffectRow} (hrow : t.effects.get? effectId = some row)
    {f : ChannelEffectRow → ChannelEffectRow} (h : t'.effects = t.effects.update effectId f) :
    Writes effectId (some row) (f row) t t' where
  found := hrow
  effects := by
    intro e
    rw [h, Table.get?_update_of_some hrow]

theorem createEffect_ok {sha256 : String → String} {options : EnsureOptions} {resourceId : String}
    {sourceRevision : Nat} {now : Int}
    (h : t.createEffect sha256 options resourceId sourceRevision now = .ok t') :
    t.effects.get? (options.effectId sha256) = none ∧
      Change (options.effectId sha256) t t' (some 1) := by
  simp only [createEffect, bind_ok, require_ok, orThrow_ok] at h
  obtain ⟨_, _, effects, hinsert, hattempt⟩ := h
  obtain ⟨hfree, heffects⟩ := Table.get?_of_insert? hinsert
  obtain ⟨hsame, attempt, hrunning, hattempts⟩ := insertAttempt_ok hattempt
  have hcount : t.attemptCount (options.effectId sha256) = 0 := by
    rw [attemptCount, hfree]
    rfl
  have hwrites : Writes (options.effectId sha256) none
      (newEffect sha256 options resourceId sourceRevision now) t t' := by
    refine ⟨hfree, fun e => ?_⟩
    rw [hsame]
    exact heffects e
  refine ⟨hfree, .start hwrites (by rintro _ ⟨⟩) rfl ?_ hrunning hattempts⟩
  rw [hcount]
  rfl

theorem settleEffect_ok {options : ChannelSettleOptions} {now : Int}
    (h : t.settleEffect options now = .ok t') : Change options.effectId t t' none := by
  simp only [settleEffect, bind_ok, require_ok, pure_ok, matchesEffect_iff] at h
  obtain ⟨_, ⟨row, hrow, hstatus, hcount⟩, rfl⟩ := h
  have hfinished : ∀ attempt, (finishedAttempt options now attempt).finishedAt ≠ none := by
    intro attempt
    unfold finishedAttempt
    split
    · simp
    · next hfinished => exact hfinished
  refine .settle (writes_update hrow rfl) hstatus ?_ rfl hfinished ?_
  · show options.outcome.status ≠ .applying
    cases options.outcome <;> decide
  · intro key
    rw [hcount]
    exact Table.get?_update _ _ _ _

theorem confirmEffect_ok {current : ChannelEffectRecord} {now : Int}
    (h : t.confirmEffect current now = .ok t') : Change current.effectId t t' none := by
  simp only [confirmEffect, bind_ok, require_ok, pure_ok, matchesEffect_iff] at h
  obtain ⟨_, ⟨row, hrow, hstatus, _⟩, rfl⟩ := h
  exact .confirm (writes_update hrow rfl) hstatus rfl rfl rfl

theorem retryEffect_ok {current : ChannelEffectRecord} {ownerId : String} {leaseGeneration : Nat}
    {now : Int} (hready : current.status = .rejected ∨ current.status = .ambiguous)
    (h : t.retryEffect current ownerId leaseGeneration now = .ok t') :
    (t.effects.get? current.effectId).map ChannelEffectRow.status = some current.status ∧
      Change current.effectId t t' (some (current.attemptNumber + 1)) := by
  simp only [retryEffect, bind_ok, require_ok, matchesEffect_iff] at h
  obtain ⟨_, ⟨row, hrow, hstatus, hcount⟩, hattempt⟩ := h
  obtain ⟨hsame, attempt, hrunning, hattempts⟩ := insertAttempt_ok hattempt
  have hwrites : Writes current.effectId (some row) (retriedRow (current.attemptNumber + 1) now row)
      t t' := writes_update hrow hsame
  refine ⟨by rw [hrow, Option.map_some, hstatus], .start hwrites ?_ rfl ?_ hrunning hattempts⟩
  · intro r hr
    cases hr
    rw [hstatus]
    exact hready
  · rw [attemptCount_of_get? hrow, hcount]
    rfl

end ChannelTables

/-! ## The store -/

namespace MutationStore

variable {σ : Type} {sha256 : String → String} {s s' : MutationStore σ}

theorem insertEvent_tables {event : EventRow} (h : s.insertEvent sha256 event = .ok s') :
    s'.tables = s.tables := by
  simp only [insertEvent, bind_ok, require_ok, Except.ok.injEq] at h
  obtain ⟨_, _, _, _, _, _, _, _, rfl⟩ := h
  rfl

theorem ensureResource_tables {type : ResourceType} {aggregateKey resourceId : String} {now : Int}
    (h : s.ensureResource sha256 type aggregateKey now = .ok (resourceId, s')) :
    s'.tables = s.tables := by
  simp only [ensureResource, bind_ok, require_ok, Except.ok.injEq, Prod.mk.injEq] at h
  obtain ⟨_, _, _, _, _, _, _, rfl⟩ := h
  rfl

end MutationStore

/-! ## Why an attempt is started -/

/-- The call asks for an attempt after the one that ended with the status. -/
inductive Retries (sha256 : String → String) (effectId : String) (attemptNumber : Nat) :
    ChannelCall → EffectStatus → Prop
  | automatic (options : EnsureOptions) (own : options.effectId sha256 = effectId)
      (below : attemptNumber < options.maxAutomaticAttempts) :
      Retries sha256 effectId attemptNumber (.ensureApplying options) .rejected
  | explicit (options : RecoverOptions) (retry : options.action = .retry)
      (named : options.stableMessageId = channelEffectAttemptId sha256 effectId attemptNumber) :
      Retries sha256 effectId attemptNumber (.recover options) .ambiguous

theorem Retries.ready {sha256 : String → String} {effectId : String} {attemptNumber : Nat}
    {call : ChannelCall} {status : EffectStatus}
    (h : Retries sha256 effectId attemptNumber call status) :
    status = .rejected ∨ status = .ambiguous := by
  cases h with
  | automatic _ _ _ => exact .inl rfl
  | explicit _ _ _ => exact .inr rfl

/-- What a call that has read may do. -/
def Warranted (sha256 : String → String) (call : ChannelCall) : PreparedCall → Prop
  | .create options | .insert options _ _ => call = .ensureApplying options
  | .retry current _ _ _ _ =>
      Retries sha256 current.effectId current.attemptNumber call current.status
  | .settle _ _ | .mark _ _ | .confirm _ _ => True

/-- An attempt is the first one of its effect, or its call asks for it. -/
def AttemptStart.Warranted (sha256 : String → String) (start : AttemptStart) : Prop :=
  match start.status with
  | none => start.attemptNumber = 1 ∧ ∃ options, start.call = .ensureApplying options
  | some status => ∃ attemptNumber, start.attemptNumber = attemptNumber + 1 ∧
      Retries sha256 start.effectId attemptNumber start.call status

namespace ChannelEffectStore

open ChannelTables

variable {sha256 : String → String} {s s' : ChannelEffectStore}

theorem beginAttempt_ok {current : ChannelEffectRecord} {explicit : Bool} {ownerId actorId : String}
    {leaseGeneration : Nat} {prepared : PreparedCall}
    (h : beginAttempt current explicit ownerId leaseGeneration actorId = .ok prepared) :
    prepared = .retry current explicit ownerId leaseGeneration actorId := by
  simp only [beginAttempt, bind_ok, require_ok, pure_ok] at h
  obtain ⟨_, _, rfl⟩ := h
  rfl

theorem effectId_of_read {t : ChannelTables} {effectId : String} {current : ChannelEffectRecord}
    (h : t.read effectId = some current) : current.effectId = effectId := by
  obtain ⟨row, _, hrecord⟩ := Option.bind_eq_some_iff.1 h
  obtain ⟨attempt, _, rfl⟩ := Option.map_eq_some_iff.1 hrecord
  rfl

theorem status_of_listAmbiguous {t : ChannelTables} {current : ChannelEffectRecord}
    (h : current ∈ t.listAmbiguous) : current.status = .ambiguous := by
  obtain ⟨e, he, hrecord⟩ := List.mem_filterMap.1 h
  have hstatus : e.2.status = .ambiguous :=
    of_decide_eq_true (List.mem_filter.1 (List.mem_mergeSort.1 he)).2
  obtain ⟨attempt, _, rfl⟩ := Option.map_eq_some_iff.1 hrecord
  exact hstatus

theorem recover_ok {options : RecoverOptions} {prepared : PreparedCall}
    (h : recover sha256 s options = .ok prepared) :
    Warranted sha256 (.recover options) prepared := by
  simp only [recover, bind_ok, orThrow_ok] at h
  obtain ⟨current, hfind, hprepared⟩ := h
  have hnamed : channelEffectAttemptId sha256 current.effectId current.attemptNumber =
      options.stableMessageId := by simpa using List.find?_some hfind
  have hstatus := status_of_listAmbiguous (List.mem_of_find?_eq_some hfind)
  cases haction : options.action with
  | confirm =>
      rw [haction] at hprepared
      cases hprepared
      trivial
  | retry =>
      rw [haction] at hprepared
      rw [beginAttempt_ok hprepared]
      show Retries sha256 current.effectId current.attemptNumber _ current.status
      rw [hstatus]
      exact .explicit options haction hnamed.symm

theorem ensureApplying_ok {options : EnsureOptions} {prepared : PreparedCall}
    (h : ensureApplying sha256 s options = .ok (some prepared)) :
    Warranted sha256 (.ensureApplying options) prepared := by
  unfold ensureApplying at h
  split at h
  · next existing hread =>
      split at h
      · next hretry =>
          obtain ⟨_, hbegin, hsome⟩ := map_ok.1 h
          cases hsome
          rw [beginAttempt_ok hbegin]
          show Retries sha256 existing.effectId existing.attemptNumber _ existing.status
          rw [hretry.1]
          exact .automatic options (effectId_of_read hread).symm hretry.2
      · cases h
  · cases h
    rfl

theorem prepare_ok {call : ChannelCall} {prepared : PreparedCall}
    (h : prepare sha256 s call = .ok (some prepared)) : Warranted sha256 call prepared := by
  cases call with
  | ensureApplying options => exact ensureApplying_ok h
  | settle options =>
      obtain ⟨_, hsettle, hsome⟩ := map_ok.1 h
      cases hsome
      simp only [settle, bind_ok, require_ok, pure_ok] at hsettle
      obtain ⟨_, _, _, _, rfl⟩ := hsettle
      trivial
  | markApplyingAmbiguous options =>
      cases h
      trivial
  | recover options =>
      obtain ⟨_, hrecover, hsome⟩ := map_ok.1 h
      cases hsome
      exact recover_ok hrecover

theorem mutateTables_ok {resourceId operation eventType eventId : String} {actor : MutationActor}
    {change : ChannelTables → Except String ChannelTables} {payload : Json} {now : Int}
    (h : mutateTables sha256 s resourceId operation actor eventType change payload now eventId =
      .ok s') : change s.tables = .ok s'.tables := by
  simp only [mutateTables, MutationStore.mutate, bind_ok, map_ok, pure_ok, Except.ok.injEq] at h
  obtain ⟨_, _, ⟨_, t⟩, ⟨_, _, _, _, _, _, ⟨_, tables, blobs⟩, ⟨_, hchange, hresult⟩, _, hevent,
    hpair⟩, rfl⟩ := h
  cases hresult
  cases hpair
  rw [hchange, MutationStore.insertEvent_tables hevent]
  rfl

theorem markOne_ok {options : MarkOptions} {effectId eventId : String} {now : Int}
    (h : markOne sha256 s options effectId now eventId = .ok s') :
    s'.tables = s.tables ∨ ∃ e, Change e s.tables s'.tables none := by
  simp only [markOne, bind_ok] at h
  obtain ⟨current, _, h⟩ := h
  split at h
  · cases h
    exact .inl rfl
  · obtain ⟨prepared, _, h⟩ := bind_ok.1 h
    cases prepared with
    | settle current settleOptions => exact .inr ⟨_, settleEffect_ok (mutateTables_ok h)⟩
    | create | insert | mark | confirm | retry =>
        cases h
        exact .inl rfl

/-- What a transaction of a call does to the tables. -/
theorem commit_ok {call : ChannelCall} {prepared : PreparedCall} {rest : Option PreparedCall} {now : Int}
    {eventId : String} (hwarrant : Warranted sha256 call prepared)
    (h : commit sha256 s now eventId prepared = .ok (s', rest)) :
    (s'.tables = s.tables ∧ prepared.starts sha256 = none) ∨
      ∃ effectId started, Change effectId s.tables s'.tables started ∧
        prepared.starts sha256 = started.map (Prod.mk effectId) := by
  cases prepared with
  | create options =>
      simp only [commit, bind_ok, pure_ok, Prod.mk.injEq] at h
      obtain ⟨_, _, ⟨_, t⟩, hensure, rfl, _⟩ := h
      exact .inl ⟨MutationStore.ensureResource_tables hensure, rfl⟩
  | insert options resourceId sourceRevision =>
      simp only [commit, bind_ok, pure_ok, Prod.mk.injEq] at h
      obtain ⟨_, hmutate, rfl, _⟩ := h
      exact .inr ⟨_, _, (createEffect_ok (mutateTables_ok hmutate)).2, rfl⟩
  | settle current options =>
      simp only [commit, bind_ok, pure_ok, Prod.mk.injEq] at h
      obtain ⟨_, hmutate, rfl, _⟩ := h
      exact .inr ⟨_, _, settleEffect_ok (mutateTables_ok hmutate), rfl⟩
  | mark options effectIds =>
      cases effectIds with
      | nil =>
          cases h
          exact .inl ⟨rfl, rfl⟩
      | cons effectId effectIds =>
          simp only [commit, bind_ok, pure_ok, Prod.mk.injEq] at h
          obtain ⟨_, hmark, rfl, _⟩ := h
          rcases markOne_ok hmark with hsame | ⟨e, hchange⟩
          · exact .inl ⟨hsame, rfl⟩
          · exact .inr ⟨e, none, hchange, rfl⟩
  | confirm current actorId =>
      simp only [commit, bind_ok, pure_ok, Prod.mk.injEq] at h
      obtain ⟨_, hmutate, rfl, _⟩ := h
      exact .inr ⟨_, _, confirmEffect_ok (mutateTables_ok hmutate), rfl⟩
  | retry current explicit ownerId leaseGeneration actorId =>
      simp only [commit, bind_ok, pure_ok, Prod.mk.injEq] at h
      obtain ⟨_, hmutate, rfl, _⟩ := h
      exact .inr ⟨_, _, (retryEffect_ok (Retries.ready hwarrant) (mutateTables_ok hmutate)).2, rfl⟩

/-- The attempt a transaction starts is one that its call asks for. -/
theorem commit_starts {call : ChannelCall} {prepared : PreparedCall} {rest : Option PreparedCall}
    {now : Int} {eventId effectId : String} {attemptNumber : Nat}
    (hwarrant : Warranted sha256 call prepared)
    (h : commit sha256 s now eventId prepared = .ok (s', rest))
    (hstarts : prepared.starts sha256 = some (effectId, attemptNumber)) :
    AttemptStart.Warranted sha256
      { effectId, attemptNumber
        status := (s.tables.effects.get? effectId).map ChannelEffectRow.status, call } := by
  cases prepared with
  | insert options resourceId sourceRevision =>
      cases hstarts
      simp only [commit, bind_ok, pure_ok, Prod.mk.injEq] at h
      obtain ⟨_, hmutate, _, _⟩ := h
      have hfree := (createEffect_ok (mutateTables_ok hmutate)).1
      simp only [AttemptStart.Warranted, hfree, Option.map_none, true_and]
      exact ⟨options, hwarrant⟩
  | retry current explicit ownerId leaseGeneration actorId =>
      cases hstarts
      simp only [commit, bind_ok, pure_ok, Prod.mk.injEq] at h
      obtain ⟨_, hmutate, _, _⟩ := h
      have hstatus := (retryEffect_ok (Retries.ready hwarrant) (mutateTables_ok hmutate)).1
      simp only [AttemptStart.Warranted, hstatus]
      exact ⟨_, rfl, hwarrant⟩
  | create | settle | mark | confirm => cases hstarts

/-- What is left of a call asks for nothing else. -/
theorem commit_rest {call : ChannelCall} {prepared rest : PreparedCall} {now : Int} {eventId : String}
    (hwarrant : Warranted sha256 call prepared)
    (h : commit sha256 s now eventId prepared = .ok (s', some rest)) :
    Warranted sha256 call rest := by
  cases prepared with
  | create options =>
      simp only [commit, bind_ok, pure_ok, Prod.mk.injEq, Option.some.injEq] at h
      obtain ⟨_, _, _, _, _, rfl⟩ := h
      exact hwarrant
  | mark options effectIds =>
      cases effectIds with
      | nil => cases h
      | cons effectId effectIds =>
          simp only [commit, bind_ok, pure_ok, Prod.mk.injEq, Option.some.injEq] at h
          obtain ⟨_, _, _, rfl⟩ := h
          trivial
  | insert | settle | confirm | retry =>
      simp only [commit, bind_ok, pure_ok, Prod.mk.injEq, reduceCtorEq, and_false, exists_false]
        at h

end ChannelEffectStore

/-! ## Runs -/

namespace ChannelServer

open ChannelTables

variable {sha256 : String → String} {P : ChannelCall → Prop} {s : ChannelServer}

/-- The attempts of an effect in the log. -/
def startsOf (s : ChannelServer) (effectId : String) : List AttemptStart :=
  s.starts.filter fun start => start.effectId = effectId

/-- What holds of a server all of whose calls satisfy a condition. -/
structure Attempted (sha256 : String → String) (P : ChannelCall → Prop) (s : ChannelServer) :
    Prop where
  numbered : s.store.tables.Numbered
  pending : ∀ e ∈ s.pending, P e.1 ∧ Warranted sha256 e.1 e.2
  starts : ∀ start ∈ s.starts, P start.call ∧ start.Warranted sha256
  logged : ∀ effectId, (s.startsOf effectId).map AttemptStart.attemptNumber =
    List.range' 1 (s.store.tables.attemptCount effectId)

/-- A new server. -/
def fresh (blobs : StateDatabase String) : ChannelServer where
  store := MutationStore.fresh blobs ChannelTables.empty

theorem fresh_attempted (blobs : StateDatabase String) : Attempted sha256 P (fresh blobs) where
  numbered := numbered_empty
  pending := fun _ he => absurd he List.not_mem_nil
  starts := fun _ hstart => absurd hstart List.not_mem_nil
  logged := fun _ => rfl

/-- A change of an effect and the log entry of it. -/
theorem logged_change {t' : ChannelTables} {effectId : String} {started : Option Nat}
    (call : ChannelCall) {status : Option EffectStatus}
    (hlogged : ∀ e, (s.startsOf e).map AttemptStart.attemptNumber =
      List.range' 1 (s.store.tables.attemptCount e))
    (hchange : Change effectId s.store.tables t' started) (e : String) :
    (((s.starts ++ (started.map fun attemptNumber =>
        ({ effectId, attemptNumber, status, call } : AttemptStart)).toList).filter
          fun start => start.effectId = e).map AttemptStart.attemptNumber) =
      List.range' 1 (t'.attemptCount e) := by
  rw [List.filter_append, List.map_append, hchange.attemptCount_eq e]
  show (s.startsOf e).map AttemptStart.attemptNumber ++ _ = _
  rw [hlogged e]
  cases started with
  | none => simp
  | some n =>
      have hnumber := hchange.started_eq
      by_cases he : effectId = e
      · subst he
        rw [hnumber]
        simp [List.range'_1_concat, Nat.add_comm 1]
      · simp [he, Ne.symm he]

theorem commit_attempted {call : ChannelCall} {prepared : PreparedCall} {rest : Option PreparedCall}
    {store : ChannelEffectStore} {now : Int} {eventId : String}
    {pending : List (ChannelCall × PreparedCall)} (h : Attempted sha256 P s)
    (hentry : P call ∧ Warranted sha256 call prepared)
    (hpending : ∀ e ∈ pending, P e.1 ∧ Warranted sha256 e.1 e.2)
    (hcommit : ChannelEffectStore.commit sha256 s.store now eventId prepared = .ok (store, rest)) :
    Attempted sha256 P
      { store
        pending := pending ++ (rest.map fun rest => (call, rest)).toList
        starts := s.starts ++ startOf sha256 s call prepared } where
  numbered := by
    rcases ChannelEffectStore.commit_ok hentry.2 hcommit with ⟨hsame, _⟩ | ⟨_, _, hchange, _⟩
    · show store.tables.Numbered
      rw [hsame]
      exact h.numbered
    · exact hchange.numbered h.numbered
  pending := by
    intro e he
    rcases List.mem_append.1 he with he | he
    · exact hpending e he
    · obtain ⟨left, rfl, rfl⟩ := Option.map_eq_some_iff.1 (Option.mem_toList.1 he)
      exact ⟨hentry.1, ChannelEffectStore.commit_rest hentry.2 hcommit⟩
  starts := by
    intro start hstart
    rcases List.mem_append.1 hstart with hstart | hstart
    · exact h.starts start hstart
    · obtain ⟨_, hstarts, rfl⟩ := Option.map_eq_some_iff.1 (Option.mem_toList.1 hstart)
      exact ⟨hentry.1, ChannelEffectStore.commit_starts hentry.2 hcommit hstarts⟩
  logged := by
    rcases ChannelEffectStore.commit_ok hentry.2 hcommit with
      ⟨hsame, hstarts⟩ | ⟨effectId, started, hchange, hstarts⟩
    · intro e
      show ((s.starts ++ startOf sha256 s call prepared).filter _).map _ =
        List.range' 1 (store.tables.attemptCount e)
      rw [hsame, ← h.logged e, startOf, hstarts]
      simp [startsOf]
    · intro e
      rw [← logged_change call h.logged hchange e]
      show ((s.starts ++ startOf sha256 s call prepared).filter _).map _ = _
      rw [startOf, hstarts]
      cases started with
      | none => rfl
      | some n => rfl

theorem act_attempted (h : Attempted sha256 P s) {action : ChannelAction}
    (hcall : ∀ call, action = .call call → P call) : Attempted sha256 P (act sha256 s action) := by
  cases action with
  | call call =>
      unfold act
      dsimp only
      split
      · next prepared hprepare =>
          refine ⟨h.numbered, ?_, h.starts, h.logged⟩
          intro e he
          rcases List.mem_append.1 he with he | he
          · exact h.pending e he
          · obtain rfl := List.mem_singleton.1 he
            exact ⟨hcall call rfl, ChannelEffectStore.prepare_ok hprepare⟩
      · exact h
  | commit index now eventId =>
      simp only [act]
      cases hfound : s.pending[index]? with
      | none => exact h
      | some e =>
          have hpending : ∀ e ∈ s.pending.eraseIdx index, P e.1 ∧ Warranted sha256 e.1 e.2 :=
            fun e he => h.pending e (List.mem_of_mem_eraseIdx he)
          have hentry := h.pending e (List.mem_of_getElem? hfound)
          cases hcommit : ChannelEffectStore.commit sha256 s.store now eventId e.2 with
          | error message =>
              simp only [hcommit]
              exact ⟨h.numbered, hpending, h.starts, h.logged⟩
          | ok r =>
              simp only [hcommit]
              exact commit_attempted h hentry hpending hcommit
  | crash =>
      exact ⟨h.numbered, fun _ he => absurd he List.not_mem_nil, h.starts, h.logged⟩
  | write action =>
      simp only [act]
      cases hwrite : (s.store.withTables ()).step sha256 action with
      | error message => exact h
      | ok store => exact ⟨h.numbered, h.pending, h.starts, h.logged⟩

/-- A step changes at most one effect. -/
theorem act_tables (h : Attempted sha256 P s) (action : ChannelAction) :
    (act sha256 s action).store.tables = s.store.tables ∨
      ∃ effectId started,
        Change effectId s.store.tables (act sha256 s action).store.tables started := by
  cases action with
  | call call =>
      left
      simp only [act]
      cases hprepare : ChannelEffectStore.prepare sha256 s.store call with
      | error message => rfl
      | ok prepared => cases prepared <;> rfl
  | commit index now eventId =>
      simp only [act]
      cases hfound : s.pending[index]? with
      | none => exact .inl rfl
      | some e =>
          have hentry := h.pending e (List.mem_of_getElem? hfound)
          cases hcommit : ChannelEffectStore.commit sha256 s.store now eventId e.2 with
          | error message =>
              simp only [hcommit]
              exact .inl trivial
          | ok r =>
              simp only [hcommit]
              rcases ChannelEffectStore.commit_ok hentry.2 hcommit with
                ⟨htables, _⟩ | ⟨effectId, started, hchange, _⟩
              · exact .inl htables
              · exact .inr ⟨effectId, started, hchange⟩
  | crash => exact .inl rfl
  | write action =>
      left
      simp only [act]
      cases hwrite : (s.store.withTables ()).step sha256 action with
      | error message => rfl
      | ok store => rfl

/-- An applied effect through one step. -/
theorem act_applied (h : Attempted sha256 P s) (action : ChannelAction) {effectId : String}
    {row : ChannelEffectRow} (hrow : s.store.tables.effects.get? effectId = some row)
    (happlied : row.status = .applied) :
    (act sha256 s action).store.tables.effects.get? effectId = some row ∧
      ∀ n, (act sha256 s action).store.tables.attempts.get? (effectId, n) =
        s.store.tables.attempts.get? (effectId, n) := by
  rcases act_tables h action with hsame | ⟨_, _, hchange⟩
  · rw [hsame]
    exact ⟨hrow, fun _ => rfl⟩
  · exact hchange.applied_kept hrow happlied

theorem run_attempted {actions : List ChannelAction} (h : Attempted sha256 P s)
    (hcalls : ∀ call, .call call ∈ actions → P call) :
    Attempted sha256 P (channelRun sha256 s actions) := by
  induction actions generalizing s with
  | nil => exact h
  | cons action rest ih =>
      refine ih (act_attempted h ?_) fun call hcall => hcalls call (List.mem_cons_of_mem _ hcall)
      intro call hcall
      exact hcalls call (hcall ▸ List.mem_cons_self)

theorem run_applied {actions : List ChannelAction} {effectId : String} {row : ChannelEffectRow}
    (h : Attempted sha256 (fun _ => True) s)
    (hrow : s.store.tables.effects.get? effectId = some row) (happlied : row.status = .applied) :
    (channelRun sha256 s actions).store.tables.effects.get? effectId = some row ∧
      ∀ n, (channelRun sha256 s actions).store.tables.attempts.get? (effectId, n) =
        s.store.tables.attempts.get? (effectId, n) := by
  induction actions generalizing s with
  | nil => exact ⟨hrow, fun _ => rfl⟩
  | cons action rest ih =>
      obtain ⟨hkept, hsame⟩ := act_applied h action hrow happlied
      obtain ⟨hend, hattempts⟩ := ih (act_attempted h fun _ _ => trivial) hkept
      exact ⟨hend, fun n => (hattempts n).trans (hsame n)⟩

/-! ## Automatic attempts -/

/-- The attempt was not asked for by a human. -/
def isAutomatic (start : AttemptStart) : Bool :=
  match start.call with
  | .ensureApplying _ => true
  | _ => false

/-- The number of an automatic attempt is below the maximum. -/
theorem automatic_le {start : AttemptStart} {m : Nat} (hm : 1 ≤ m)
    (hmax : ∀ options, start.call = .ensureApplying options →
      options.effectId sha256 = start.effectId → options.maxAutomaticAttempts ≤ m)
    (h : start.Warranted sha256) (hautomatic : isAutomatic start = true) :
    start.attemptNumber ≤ m := by
  unfold AttemptStart.Warranted at h
  split at h
  · omega
  · next status hstatus =>
      obtain ⟨n, hnumber, hretries⟩ := h
      cases hcall : start.call with
      | ensureApplying options =>
          rw [hcall] at hretries
          cases hretries with
          | automatic _ own below =>
              have hle := hmax options hcall own
              omega
      | settle | markApplyingAmbiguous | recover => simp [isAutomatic, hcall] at hautomatic

theorem automatic_length_le {effectId : String} {m : Nat} (hm : 1 ≤ m)
    (h : Attempted sha256 (fun call => ∀ options, call = .ensureApplying options →
      options.effectId sha256 = effectId → options.maxAutomaticAttempts ≤ m) s) :
    ((s.startsOf effectId).filter isAutomatic).length ≤ m := by
  have hsublist :
      (((s.startsOf effectId).filter isAutomatic).map AttemptStart.attemptNumber).Sublist
      (List.range' 1 (s.store.tables.attemptCount effectId)) := by
    rw [← h.logged effectId]
    exact List.filter_sublist.map _
  have hnodup := List.Nodup.sublist hsublist List.nodup_range'
  have hsubset : ((s.startsOf effectId).filter isAutomatic).map AttemptStart.attemptNumber ⊆
      List.range' 1 m := by
    intro n hn
    have hpos := (List.mem_range'_1.1 (hsublist.subset hn)).1
    obtain ⟨start, hstart, rfl⟩ := List.mem_map.1 hn
    obtain ⟨hof, hautomatic⟩ := List.mem_filter.1 hstart
    obtain ⟨hmem, heffect⟩ := List.mem_filter.1 hof
    obtain ⟨hmax, hwarrant⟩ := h.starts start hmem
    have hle := automatic_le hm
      (fun options hcall hown => hmax options hcall (hown.trans (of_decide_eq_true heffect)))
      hwarrant hautomatic
    rw [List.mem_range'_1]
    omega
  have hlength := (List.subperm_of_subset hnodup hsubset).length_le
  rwa [List.length_map, List.length_range'] at hlength

end ChannelServer

open ChannelServer in
/-- Whatever calls of any processes interleave or are cut off, from a database
without effects on: attempts have no gap, at most the last one is unfinished, and
that exactly while the effect is applying; an applied effect never changes again;
after an ambiguous attempt there is another one only for a `recover` with action
`retry` that names it; and automatic attempts stay within their maximum. -/
theorem channelAttempts_hold (sha256 : String → String) (blobs : StateDatabase String)
    (actions : List ChannelAction) :
    let s := channelRun sha256 (fresh blobs) actions
    (∀ effectId row, s.store.tables.effects.get? effectId = some row →
      1 ≤ row.attemptCount ∧
      (∀ n, (s.store.tables.attempts.get? (effectId, n)).isSome ↔
        1 ≤ n ∧ n ≤ row.attemptCount) ∧
      (∀ n attempt, s.store.tables.attempts.get? (effectId, n) = some attempt →
        (attempt.finishedAt = none ↔ n = row.attemptCount ∧ row.status = .applying)) ∧
      (row.status = .applied → ∀ more : List ChannelAction,
        (channelRun sha256 s more).store.tables.effects.get? effectId = some row ∧
        ∀ n, (channelRun sha256 s more).store.tables.attempts.get? (effectId, n) =
          s.store.tables.attempts.get? (effectId, n))) ∧
    (∀ effectId, (s.startsOf effectId).map AttemptStart.attemptNumber =
      List.range' 1 (s.store.tables.attemptCount effectId)) ∧
    (∀ start ∈ s.starts, start.status = some .ambiguous →
      ∃ options n, start.call = .recover options ∧ options.action = .retry ∧
        start.attemptNumber = n + 1 ∧
        options.stableMessageId = channelEffectAttemptId sha256 start.effectId n) ∧
    (∀ effectId m, 1 ≤ m →
      (∀ options, .call (.ensureApplying options) ∈ actions →
        options.effectId sha256 = effectId → options.maxAutomaticAttempts ≤ m) →
      ((s.startsOf effectId).filter isAutomatic).length ≤ m) := by
  intro s
  have hs : Attempted sha256 (fun _ => True) s :=
    run_attempted (fresh_attempted blobs) fun _ _ => trivial
  refine ⟨?_, hs.logged, ?_, ?_⟩
  · intro effectId row hrow
    refine ⟨hs.numbered.started effectId row hrow, ?_, ?_, ?_⟩
    · intro n
      rw [hs.numbered.numbers, ChannelTables.attemptCount_of_get? hrow]
    · intro n attempt
      exact hs.numbered.unfinished effectId row n attempt hrow
    · intro happlied more
      exact run_applied hs hrow happlied
  · intro start hstart hstatus
    have hwarrant := (hs.starts start hstart).2
    simp only [AttemptStart.Warranted, hstatus] at hwarrant
    obtain ⟨n, hnumber, hretries⟩ := hwarrant
    cases hcall : start.call with
    | recover options =>
        rw [hcall] at hretries
        cases hretries with
        | explicit _ retry named => exact ⟨options, n, rfl, retry, hnumber, named⟩
    | ensureApplying | settle | markApplyingAmbiguous =>
        rw [hcall] at hretries
        cases hretries
  · intro effectId m hm hmax
    exact automatic_length_le hm (run_attempted (fresh_attempted blobs)
      fun call hcall options heq hown => hmax options (heq ▸ hcall) hown)

/-! ## A recovered delivery -/

/-- A delivery that is tried once on its own. -/
def deliverOnce : EnsureOptions where
  channelResourceId := MutationStore.resourceIdFor id .channel "pager"
  channelId := "pager"
  profile := "default"
  decisionId := "deploy"
  purpose := .delivery
  request := .null
  requestDigest := "digest"
  ownerId := "adapter"
  leaseGeneration := 1
  maxAutomaticAttempts := 1

/-- The adapter is gone before it says how the delivery ended, and a human asks
for another attempt. -/
def recoveredDelivery : List ChannelAction :=
  let effectId := deliverOnce.effectId id
  [.write (.ensureResource .channel "pager" 0),
    .write (.claim ⟨deliverOnce.channelResourceId, .channel, "adapter", 0, 60000, 0, "token", "e"⟩),
    .call (.ensureApplying deliverOnce), .commit 0 1 "e0", .commit 0 1 "e1",
    .call (.markApplyingAmbiguous ⟨none, none, "adapter lost", "pager"⟩), .commit 0 2 "e2",
    .commit 0 2 "e3", .call (.ensureApplying deliverOnce),
    .call (.recover ⟨channelEffectAttemptId id effectId 1, .retry, "human", "adapter", 1⟩),
    .commit 0 3 "e4"]

theorem recoveredDelivery_attempts :
    let s := channelRun id (ChannelServer.fresh .fresh) recoveredDelivery
    (s.startsOf (deliverOnce.effectId id)).map AttemptStart.attemptNumber = [1, 2] ∧
      ((s.startsOf (deliverOnce.effectId id)).filter ChannelServer.isAutomatic).length ≤ 1 := by
  refine ⟨by decide +kernel, ?_⟩
  refine (channelAttempts_hold id .fresh recoveredDelivery).2.2.2 _ 1 (Nat.le_refl 1) ?_
  intro options hcall _
  simp only [recoveredDelivery, List.mem_cons, reduceCtorEq, ChannelAction.call.injEq,
    ChannelCall.ensureApplying.injEq, List.not_mem_nil, or_self, or_false, false_or] at hcall
  subst hcall
  exact Nat.le_refl 1

end PiWorkflows
