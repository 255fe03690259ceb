import PiWorkflows.Lib.Attempts
import PiWorkflows.Proofs.QueueDependents
import PiWorkflows.Proofs.SameJson
import PiWorkflows.Workflows.Effects

/-!
# An effect is attempted under its recovery

A managed effect is a task of `Lib.Attempts`: the row of the effect is the task,
and the attempts whose row has no end are live. How often it may be attempted is
written in its payload. The effects that commits order for the queue have no
recovery in theirs and are foreign here.

Any party may call the store at any time, with any authority, and a party that
crashes is one that calls no more. So a run is a list of calls in any order: of
effects, of the queue and of the engine's commits, and writes elsewhere between
them. It is followed for one effect, with the history of its executions and of
the recoveries that opened it again.
-/

namespace PiWorkflows

open Fallible Attempts

/-! ## The effect as a task -/

def EffectRecovery.kind : EffectRecovery → Kind
  | .idempotent => .repeatable
  | .manual => .single

/-- What may be done with an effect, by its payload. -/
def effectKind (payload : Json) : Kind :=
  if textMember payload "recovery" = some "idempotent" then .repeatable
  else if textMember payload "recovery" = some "manual" then .single
  else .foreign

def effectPhase (effect : EffectRow) : Phase (Option Json) :=
  match effect.status with
  | .pending => .ready
  | .applying => .running
  | .applied => .done effect.result
  | .rejected | .ambiguous | .cancelled => .closed

def effectTask (effect : EffectRow) : Task Json (Option Json) :=
  ⟨effect.payload, effectPhase effect, effect.attemptCount⟩

/-- The attempts whose end is not written down. -/
def liveAttempts (attempts : Table (String × ℕ) EffectAttemptRow) (id : String) : Set ℕ :=
  {n | ∃ attempt, attempts.get? (id, n) = some attempt ∧ attempt.finishedAt = none}

def effectCell (db : Db) (id : String) : Cell Json (Option Json) :=
  ⟨(db.effects.get? id).map effectTask, liveAttempts db.effectAttempts id⟩

theorem kind_ne_foreign (recovery : EffectRecovery) : recovery.kind ≠ .foreign := by
  cases recovery <;> exact Kind.noConfusion

theorem effectKind_same {a b : Json} (h : SameJson a b) : effectKind a = effectKind b := by
  unfold effectKind
  rw [textMember_same h]

theorem effectKind_payload (options : EffectOptions) :
    effectKind options.payload = options.recovery.kind := by
  unfold effectKind EffectOptions.payload
  cases options.recovery <;> rfl

/-- A reservation is compared by the digest of its payload. -/
theorem effectKind_of_hash {sha256 : String → String} (hsha256 : Function.Injective sha256)
    {payload : Json} {options : EffectOptions}
    (h : jsonHash sha256 payload = jsonHash sha256 options.payload) :
    effectKind payload = options.recovery.kind := by
  rw [effectKind_same (canonicalJson_eq_iff_same.1 (hsha256 h)), effectKind_payload]

theorem effectKind_of_recovery {payload : Json} (h : effectRecoveryFromPayload payload = .idempotent) :
    effectKind payload = .repeatable := by
  unfold effectRecoveryFromPayload at h
  unfold effectKind
  split at h
  · next hrecovery => rw [if_pos hrecovery]
  · cases h

/-! ## Attempts that end -/

section

variable {t : Table (String × ℕ) EffectAttemptRow} {id : String}
  {p : String × ℕ → EffectAttemptRow → Bool} {f : EffectAttemptRow → EffectAttemptRow}

/-- Ending some of the attempts takes these out of the live ones. -/
theorem mem_liveAttempts_updateWhere {ended : Prop} {n : ℕ}
    (hf : ∀ attempt, (f attempt).finishedAt ≠ none)
    (hp : ∀ attempt, attempt.finishedAt = none → (p (id, n) attempt = true ↔ ended)) :
    n ∈ liveAttempts (t.updateWhere p f) id ↔ n ∈ liveAttempts t id ∧ ¬ ended := by
  unfold liveAttempts
  rw [Set.mem_ofPred_eq, Set.mem_ofPred_eq, Table.get?_updateWhere]
  constructor
  · rintro ⟨attempt', hattempt', hopen⟩
    obtain ⟨attempt, hattempt, rfl⟩ := Option.map_eq_some_iff.1 hattempt'
    split at hopen
    · exact absurd hopen (hf attempt)
    · next hnot => exact ⟨⟨attempt, hattempt, hopen⟩, fun hn => hnot ((hp attempt hopen).2 hn)⟩
  · rintro ⟨⟨attempt, hattempt, hopen⟩, hnot⟩
    refine ⟨attempt, ?_, hopen⟩
    rw [hattempt, Option.map_some, if_neg]
    exact fun h => hnot ((hp attempt hopen).1 h)

/-- The attempt under one number ended. -/
theorem liveAttempts_ended {number : ℕ} (hf : ∀ attempt, (f attempt).finishedAt ≠ none)
    (hp : ∀ n attempt, attempt.finishedAt = none → (p (id, n) attempt = true ↔ n = number)) :
    liveAttempts (t.updateWhere p f) id = liveAttempts t id \ {number} := by
  ext n
  exact mem_liveAttempts_updateWhere hf (hp n)

/-- None of them ended. -/
theorem liveAttempts_kept (hf : ∀ attempt, (f attempt).finishedAt ≠ none)
    (hp : ∀ n attempt, attempt.finishedAt = none → p (id, n) attempt = false) :
    liveAttempts (t.updateWhere p f) id = liveAttempts t id := by
  ext n
  have hnone : ∀ attempt : EffectAttemptRow, attempt.finishedAt = none →
      (p (id, n) attempt = true ↔ False) := by
    intro attempt hopen
    rw [hp n attempt hopen]
    exact iff_of_false Bool.false_ne_true not_false
  rw [mem_liveAttempts_updateWhere hf hnone, not_false_iff, and_true]

end

section

variable {db db' : Db} {id : String}

theorem effectCell_same (heffects : db'.effects = db.effects)
    (hattempts : db'.effectAttempts = db.effectAttempts) : effectCell db' id = effectCell db id := by
  unfold effectCell
  rw [heffects, hattempts]

theorem effectCell_some {effect : EffectRow} (heffect : db.effects.get? id = some effect) :
    effectCell db id = ⟨some (effectTask effect), liveAttempts db.effectAttempts id⟩ := by
  rw [effectCell, heffect]
  rfl

theorem insertEffectAttempt_ok {context : StoreContext} {now : Int} {effectId : String} {number : ℕ}
    (h : insertEffectAttempt db context now effectId number = .ok db') :
    db'.effects = db.effects ∧ ∀ id, liveAttempts db'.effectAttempts id =
      if id = effectId then insert number (liveAttempts db.effectAttempts id)
      else liveAttempts db.effectAttempts id := by
  unfold insertEffectAttempt at h
  simp only [bind_ok, orThrow_ok, pure_ok] at h
  obtain ⟨effectAttempts, hinsert, rfl⟩ := h
  obtain ⟨hfree, hget⟩ := Table.get?_of_insert? hinsert
  refine ⟨rfl, fun id => ?_⟩
  ext n
  unfold liveAttempts
  dsimp only
  rw [Set.mem_ofPred_eq, hget]
  split
  · next heq =>
      obtain ⟨rfl, rfl⟩ := Prod.mk.inj heq
      rw [if_pos rfl]
      exact iff_of_true ⟨_, rfl, rfl⟩ (Set.mem_insert _ _)
  · next hne =>
      split
      · next heq =>
          have hother : n ≠ number := fun hn => hne (by rw [heq, hn])
          rw [Set.mem_insert_iff, or_iff_right hother]
          rfl
      · rfl

end

/-! ## One call on the effects -/

/-- What a reservation adds to the history of an effect. -/
def reservationEvents (id : String) (options : EffectOptions) (answer : EffectReservation) :
    List Event :=
  if answer.effectId = id ∧ answer.disposition = .execute then
    [.started options.recovery.kind answer.attemptNumber]
  else []

/-- What a recovery adds: the effect is opened again. -/
def recoveryEvents (db : Db) (id runId : String) : List Event :=
  match db.effects.get? id with
  | some effect =>
      if isApplyingEffect runId effect = true ∧ needsRecovery effect = false then
        [.reopened effect.attemptCount]
      else []
  | none => []

section

variable {sha256 : String → String} {db db' : Db} {context : StoreContext} {now : Int} (id : String)

theorem beginEffectAttempt_step {options : EffectOptions} {existing : EffectRow}
    {answer : EffectReservation} {effectId : String}
    (hexisting : db.effects.get? effectId = some existing) (hpending : existing.status = .pending)
    (hkind : effectKind existing.payload = options.recovery.kind)
    (h : beginEffectAttempt db context now effectId (existing.attemptCount + 1) = .ok (db', answer)) :
    Step effectKind (reservationEvents id options answer) (effectCell db id) (effectCell db' id) := by
  unfold beginEffectAttempt at h
  simp only [bind_ok, pure_ok, Prod.mk.injEq] at h
  obtain ⟨started, hstarted, rfl, rfl⟩ := h
  obtain ⟨heffects, hlive⟩ := insertEffectAttempt_ok hstarted
  by_cases hid : id = effectId
  · obtain rfl := hid
    have hevents : reservationEvents id options ⟨id, existing.attemptCount + 1, .execute⟩ =
        [.started (effectKind existing.payload) (existing.attemptCount + 1)] := by
      rw [reservationEvents, if_pos ⟨rfl, rfl⟩, hkind]
    have hbefore : effectCell db id =
        ⟨some ⟨existing.payload, .ready, existing.attemptCount⟩, liveAttempts db.effectAttempts id⟩ := by
      rw [effectCell_some hexisting, effectTask, effectPhase, hpending]
    have hafter : effectCell started id =
        ⟨some ⟨existing.payload, .running, existing.attemptCount + 1⟩,
          insert (existing.attemptCount + 1) (liveAttempts db.effectAttempts id)⟩ := by
      unfold effectCell
      rw [heffects, hlive, if_pos rfl, Table.get?_update_self, hexisting]
      rfl
    rw [hevents, hbefore, hafter]
    exact .again (hkind ▸ kind_ne_foreign options.recovery)
  · have hevents : reservationEvents id options ⟨effectId, existing.attemptCount + 1, .execute⟩ =
        [] := if_neg fun h => hid h.1.symm
    have hafter : effectCell started id = effectCell db id := by
      unfold effectCell
      rw [heffects, hlive, if_neg hid, Table.get?_update_ne hid]
    rw [hevents, hafter]
    exact .keep _

theorem reserveAgain_step (hsha256 : Function.Injective sha256) {options : EffectOptions}
    {existing : EffectRow} {answer : EffectReservation}
    (hexisting : db.effects.get? (options.effectId sha256) = some existing)
    (h : reserveAgain sha256 db context now options existing = .ok (db', answer)) :
    Step effectKind (reservationEvents id options answer) (effectCell db id) (effectCell db' id) := by
  unfold reserveAgain at h
  simp only [bind_ok, require_ok] at h
  obtain ⟨_, hhash, h⟩ := h
  split at h
  · cases h
    rw [reservationEvents, if_neg (fun h => by cases h.2)]
    exact .keep _
  · next hpending =>
      exact beginEffectAttempt_step id hexisting hpending (effectKind_of_hash hsha256 hhash) h
  all_goals
    cases h
    rw [reservationEvents, if_neg (fun h => by cases h.2)]
    exact .keep _

theorem reserveFirst_step {options : EffectOptions} {answer : EffectReservation}
    (h : reserveFirst sha256 db context now options = .ok (db', answer)) :
    Step effectKind (reservationEvents id options answer) (effectCell db id) (effectCell db' id) := by
  unfold reserveFirst at h
  simp only [bind_ok, orThrow_ok, pure_ok, Prod.mk.injEq] at h
  obtain ⟨effects, hinsert, started, hstarted, rfl, rfl⟩ := h
  obtain ⟨hfree, hget⟩ := Table.get?_of_insert? hinsert
  obtain ⟨heffects, hlive⟩ := insertEffectAttempt_ok hstarted
  have hkind : effectKind (storedJson options.payload) = options.recovery.kind := by
    rw [storedJson, effectKind_same (sameJson_normalize options.payload), effectKind_payload]
  by_cases hid : id = options.effectId sha256
  · have hevents : reservationEvents id options ⟨options.effectId sha256, 1, .execute⟩ =
        [.started (effectKind (storedJson options.payload)) 1] := by
      rw [reservationEvents, if_pos ⟨hid.symm, rfl⟩, hkind]
    have hbefore : effectCell db id = ⟨none, liveAttempts db.effectAttempts id⟩ := by
      rw [effectCell, hid, hfree]
      rfl
    have hafter : effectCell started id =
        ⟨some ⟨storedJson options.payload, .running, 1⟩, insert 1 (liveAttempts db.effectAttempts id)⟩ := by
      unfold effectCell
      rw [heffects, hlive, if_pos hid, hget, if_pos hid]
      rfl
    rw [hevents, hbefore, hafter]
    exact .start (hkind ▸ kind_ne_foreign options.recovery)
  · have hevents : reservationEvents id options ⟨options.effectId sha256, 1, .execute⟩ = [] :=
      if_neg fun h => hid h.1.symm
    have hafter : effectCell started id = effectCell db id := by
      unfold effectCell
      rw [heffects, hlive, if_neg hid, hget, if_neg hid]
    rw [hevents, hafter]
    exact .keep _

theorem reserveEffect_step (hsha256 : Function.Injective sha256) {options : EffectOptions}
    {answer : EffectReservation}
    (h : reserveEffect sha256 db context now options = .ok (db', answer)) :
    Step effectKind (reservationEvents id options answer) (effectCell db id) (effectCell db' id) := by
  unfold reserveEffect at h
  simp only [bind_ok] at h
  obtain ⟨_, -, _, -, authorized, hauthorized, h⟩ := h
  obtain ⟨leases, rfl⟩ := assertWriteAuthority_leases hauthorized
  have hsame : effectCell { db with leases := leases } id = effectCell db id :=
    effectCell_same rfl rfl
  rw [← hsame]
  split at h
  · next existing hexisting => exact reserveAgain_step id hsha256 hexisting h
  · exact reserveFirst_step id h

theorem keep_step (heffect : db'.effects.get? id = db.effects.get? id)
    (hlive : liveAttempts db'.effectAttempts id = liveAttempts db.effectAttempts id) :
    Step effectKind [] (effectCell db id) (effectCell db' id) := by
  have hsame : effectCell db' id = effectCell db id := by rw [effectCell, heffect, hlive]; rfl
  rw [hsame]
  exact .keep _

/-- An effect that is being applied gets an end. -/
theorem finish_step {effect effect' : EffectRow} (hbefore : db.effects.get? id = some effect)
    (happlying : effect.status = .applying) (hafter : db'.effects.get? id = some effect')
    (hpayload : effect'.payload = effect.payload)
    (hnumber : effect'.attemptCount = effect.attemptCount) (hover : (effectPhase effect').IsOver)
    (hlive : liveAttempts db'.effectAttempts id = liveAttempts db.effectAttempts id \ {effect.attemptCount}) :
    Step effectKind [] (effectCell db id) (effectCell db' id) := by
  rw [effectCell_some hbefore, effectCell_some hafter, hlive, effectTask, effectTask, hpayload,
    hnumber]
  have hrunning : effectPhase effect = .running := by rw [effectPhase, happlying]
  rw [hrunning]
  exact .finish hover

/-- An effect that waits gets one. -/
theorem abandon_step {effect effect' : EffectRow} (hbefore : db.effects.get? id = some effect)
    (hpending : effect.status = .pending) (hafter : db'.effects.get? id = some effect')
    (hpayload : effect'.payload = effect.payload)
    (hnumber : effect'.attemptCount = effect.attemptCount) (hover : (effectPhase effect').IsOver)
    (hlive : liveAttempts db'.effectAttempts id = liveAttempts db.effectAttempts id) :
    Step effectKind [] (effectCell db id) (effectCell db' id) := by
  rw [effectCell_some hbefore, effectCell_some hafter, hlive, effectTask, effectTask, hpayload,
    hnumber]
  have hready : effectPhase effect = .ready := by rw [effectPhase, hpending]
  rw [hready]
  exact .abandon hover

/-- An effect that is being applied is opened again. -/
theorem reopen_step {effect effect' : EffectRow} (hbefore : db.effects.get? id = some effect)
    (happlying : effect.status = .applying) (hafter : db'.effects.get? id = some effect')
    (hpending : effect'.status = .pending) (hpayload : effect'.payload = effect.payload)
    (hnumber : effect'.attemptCount = effect.attemptCount)
    (hkind : effectKind effect.payload = .repeatable)
    (hlive : liveAttempts db'.effectAttempts id =
      liveAttempts db.effectAttempts id \ {effect.attemptCount}) :
    Step effectKind [.reopened effect.attemptCount] (effectCell db id) (effectCell db' id) := by
  rw [effectCell_some hbefore, effectCell_some hafter, hlive, effectTask, effectTask, hpayload,
    hnumber]
  have hrunning : effectPhase effect = .running := by rw [effectPhase, happlying]
  have hready : effectPhase effect' = .ready := by rw [effectPhase, hpending]
  rw [hrunning, hready]
  exact .reopen hkind

theorem settleEffect_step {runId effectId : String} {attemptNumber : Nat} {outcome : EffectOutcome}
    {result : Option Json} {error : Option String}
    (h : settleEffect sha256 db context now runId effectId attemptNumber outcome result error =
      .ok db') : Step effectKind [] (effectCell db id) (effectCell db' id) := by
  unfold settleEffect at h
  simp only [bind_ok, orThrow_ok, require_ok, pure_ok] at h
  obtain ⟨authorized, hauthorized, effect, hfound, _, hnumber, rfl⟩ := h
  obtain ⟨leases, rfl⟩ := assertWriteAuthority_leases hauthorized
  obtain ⟨heffect, happlying⟩ := Option.filter_eq_some_iff.1 hfound
  have happlying : effect.status = .applying := (of_decide_eq_true happlying).2
  by_cases hid : id = effectId
  · obtain rfl := hid
    refine finish_step id heffect happlying
      ((Table.get?_update_self _ _ _).trans (congrArg (Option.map _) heffect)) rfl rfl ?_ ?_
    · cases outcome <;> exact trivial
    · refine liveAttempts_ended (fun _ => Option.some_ne_none _) ?_
      intro n attempt hopen
      simp [hopen, hnumber]
  · refine keep_step id (Table.get?_update_ne hid _ _)
      (liveAttempts_kept (fun _ => Option.some_ne_none _) ?_)
    intro n attempt hopen
    simp [hid]

/-- What writing an effect and ending its attempt leaves of another row or status. -/
theorem get?_updateWhere_some {effect : EffectRow} (heffect : db.effects.get? id = some effect)
    (p : String → EffectRow → Bool) (f : EffectRow → EffectRow) :
    (db.effects.updateWhere p f).get? id = some (if p id effect then f effect else effect) := by
  rw [Table.get?_updateWhere, heffect]
  rfl

theorem get?_updateWhere_none (heffect : db.effects.get? id = none)
    (p : String → EffectRow → Bool) (f : EffectRow → EffectRow) :
    (db.effects.updateWhere p f).get? id = db.effects.get? id := by
  rw [Table.get?_updateWhere, heffect]
  rfl

theorem recoverApplyingEffects_step {runId : String} {answer : RecoveryAnswer}
    (h : recoverApplyingEffects sha256 db context now runId = .ok (db', answer)) :
    Step effectKind (recoveryEvents db id runId) (effectCell db id) (effectCell db' id) := by
  unfold recoverApplyingEffects at h
  simp only [bind_ok, pure_ok, Prod.mk.injEq] at h
  obtain ⟨authorized, hauthorized, rfl, -⟩ := h
  obtain ⟨leases, rfl⟩ := assertWriteAuthority_leases hauthorized
  unfold recoveryEvents
  cases heffect : db.effects.get? id with
  | none =>
      refine keep_step id (get?_updateWhere_none id heffect _ _)
        (liveAttempts_kept (fun _ => Option.some_ne_none _) ?_)
      intro n attempt hopen
      simp [heffect]
  | some effect =>
      have hafter := get?_updateWhere_some id heffect
        (fun _ effect => isApplyingEffect runId effect) (recoverEffect now)
      by_cases happlying : isApplyingEffect runId effect = true
      · rw [if_pos happlying] at hafter
        have hstatus : effect.status = .applying := (of_decide_eq_true happlying).2
        have hended : ∀ n (attempt : EffectAttemptRow), attempt.finishedAt = none →
            (decide (attempt.finishedAt = none ∧
              (db.effects.get? id).any (fun effect =>
                isApplyingEffect runId effect = true ∧ effect.attemptCount = n)) = true ↔
              n = effect.attemptCount) := by
          intro n attempt hopen
          simp only [hopen, heffect, happlying, Option.any_some, true_and, decide_eq_true_eq]
          exact eq_comm
        dsimp only
        cases hmanual : needsRecovery effect with
        | true =>
            have hclosed : (effectPhase (recoverEffect now effect)).IsOver := by
              rw [effectPhase, recoverEffect, hmanual]
              trivial
            rw [if_neg (fun h => by cases h.2)]
            exact finish_step id heffect hstatus hafter rfl rfl hclosed
              (liveAttempts_ended (fun _ => Option.some_ne_none _) hended)
        | false =>
            have hkind : effectKind effect.payload = .repeatable := by
              refine effectKind_of_recovery ?_
              have hnot := of_decide_eq_false hmanual
              cases hrecovery : effectRecoveryFromPayload effect.payload with
              | idempotent => rfl
              | manual => exact absurd hrecovery hnot
            have hpending : (recoverEffect now effect).status = .pending := by
              rw [recoverEffect, hmanual]
              rfl
            rw [if_pos ⟨happlying, rfl⟩]
            exact reopen_step id heffect hstatus hafter hpending rfl rfl hkind
              (liveAttempts_ended (fun _ => Option.some_ne_none _) hended)
      · rw [if_neg happlying] at hafter
        dsimp only
        rw [if_neg (fun h => happlying h.1)]
        refine keep_step id (hafter.trans heffect.symm)
          (liveAttempts_kept (fun _ => Option.some_ne_none _) ?_)
        intro n attempt hopen
        simp [heffect, happlying]

/-! ## Other calls -/

theorem settleRunEffect_step {runId effectType : String} :
    Step effectKind [] (effectCell db id)
      (effectCell (settleRunEffect db runId now effectType) id) := by
  cases heffect : db.effects.get? id with
  | none => exact keep_step id (get?_updateWhere_none id heffect _ _) rfl
  | some effect =>
      have hafter := get?_updateWhere_some id heffect
        (fun _ effect => effect.sourceRun = some runId ∧ effect.effectType = effectType ∧
          effect.status = .pending)
        (fun effect => { effect with
          status := .applied, updatedAt := now, settledAt := some now })
      split at hafter
      · next hasked =>
          have hpending : effect.status = .pending := (of_decide_eq_true hasked).2.2
          exact abandon_step id heffect hpending hafter rfl rfl trivial rfl
      · exact keep_step id (hafter.trans heffect.symm) rfl

theorem cancelRunEffects_step {runId error : String} :
    Step effectKind [] (effectCell db id) (effectCell (cancelRunEffects db runId now error) id) := by
  cases heffect : db.effects.get? id with
  | none =>
      refine keep_step id (get?_updateWhere_none id heffect _ _)
        (liveAttempts_kept (fun _ => Option.some_ne_none _) ?_)
      intro n attempt hopen
      simp [heffect]
  | some effect =>
      have hafter := get?_updateWhere_some id heffect
        (fun _ effect => isOpenRunEffect runId effect)
        (fun effect => { effect with
          status := if effect.status = .applying then .ambiguous else .cancelled
          nextAttemptAt := none, error := some error, updatedAt := now, settledAt := some now })
      by_cases hopen : isOpenRunEffect runId effect = true
      · rw [if_pos hopen] at hafter
        by_cases happlying : effect.status = .applying
        · refine finish_step id heffect happlying hafter rfl rfl ?_
            (liveAttempts_ended (fun _ => Option.some_ne_none _) ?_)
          · rw [effectPhase, if_pos happlying]
            trivial
          · intro n attempt hlive
            simp only [hlive, heffect, hopen, happlying, Option.any_some, true_and,
              decide_eq_true_eq]
            exact eq_comm
        · have hpending : effect.status = .pending := by
            have hstatus := (of_decide_eq_true hopen).2.2
            simp only [List.mem_cons, List.not_mem_nil, or_false] at hstatus
            exact hstatus.resolve_right happlying
          refine abandon_step id heffect hpending hafter rfl rfl ?_
            (liveAttempts_kept (fun _ => Option.some_ne_none _) ?_)
          · rw [effectPhase, if_neg happlying]
            trivial
          · intro n attempt _
            simp [heffect, happlying]
      · rw [if_neg hopen] at hafter
        refine keep_step id (hafter.trans heffect.symm)
          (liveAttempts_kept (fun _ => Option.some_ne_none _) ?_)
        intro n attempt _
        simp [heffect, hopen]

theorem execute_step {operation : QueueOperation} {answer : QueueAnswer}
    (h : execute sha256 db operation = .ok (db', answer)) :
    Step effectKind [] (effectCell db id) (effectCell db' id) := by
  cases execute_dependents h with
  | same hrows =>
      rw [effectCell_same hrows.effects hrows.effectAttempts]
      exact .keep _
  | settled runId effectType now hrows =>
      rw [effectCell_same hrows.effects hrows.effectAttempts]
      exact settleRunEffect_step id
  | expired requestId error now request hrequest hpending hrows =>
      rw [effectCell_same hrows.effects hrows.effectAttempts]
      exact .keep _
  | failed runId now hrows =>
      rw [effectCell_same hrows.effects hrows.effectAttempts]
      exact .keep _
  | cancelled runId effectError submissionError now hrows =>
      rw [effectCell_same hrows.effects hrows.effectAttempts]
      exact cancelRunEffects_step id

/-- The effect a commit orders is foreign: its payload names no recovery. -/
theorem enqueueRunSettlementEffect_step {state : RunState} {revision : Nat} :
    Step effectKind [] (effectCell db id)
      (effectCell (enqueueRunSettlementEffect sha256 db state now revision) id) := by
  unfold enqueueRunSettlementEffect
  split
  · exact .keep _
  · dsimp only
    cases hinsert : db.effects.insert? (settlementEffectId sha256 state) _ with
    | none => exact .keep _
    | some effects =>
        rw [Option.getD_some]
        obtain ⟨hfree, hget⟩ := Table.get?_of_insert? hinsert
        by_cases hid : id = settlementEffectId sha256 state
        · have hbefore : effectCell db id = ⟨none, liveAttempts db.effectAttempts id⟩ := by
            rw [effectCell, hid, hfree]
            rfl
          rw [hbefore]
          unfold effectCell
          dsimp only
          rw [hget, if_pos hid]
          exact .order rfl
        · exact keep_step id (by dsimp only; rw [hget, if_neg hid]) rfl

theorem commitTransition_run {dates : HostDates} {runId : String} {options : CommitOptions}
    {transition : WorkflowTransition}
    (h : commitTransition sha256 dates db runId options transition = .ok db') :
    Run effectKind [] (effectCell db id) (effectCell db' id) := by
  obtain ⟨prepared, persisted, consumed, hprepared, hpersisted, hconsumed, hsettled⟩ :=
    (commitTransition_change h).writes
  have hpersisted : Step effectKind [] (effectCell db id) (effectCell persisted id) := by
    rw [← effectCell_same hprepared.effects hprepared.effectAttempts]
    rcases hpersisted with hsame | ⟨state, now, revision, hordered⟩
    · rw [effectCell_same hsame.effects hsame.effectAttempts]
      exact .keep _
    · rw [effectCell_same hordered.effects hordered.effectAttempts]
      exact enqueueRunSettlementEffect_step id
  have hconsumed : effectCell consumed id = effectCell persisted id := by
    rcases hconsumed with hsame | ⟨now, runId, attemptId, hrows⟩
    · exact effectCell_same hsame.effects hsame.effectAttempts
    · exact effectCell_same hrows.effects hrows.effectAttempts
  have hsettled : Step effectKind [] (effectCell consumed id) (effectCell db' id) := by
    rcases hsettled with hsame | ⟨runId, now, effectType, hrows⟩
    · rw [effectCell_same hsame.effects hsame.effectAttempts]
      exact .keep _
    · rw [effectCell_same hrows.effects hrows.effectAttempts]
      exact settleRunEffect_step id
  rw [hconsumed] at hsettled
  exact (Run.single hpersisted).tail hsettled

end

/-! ## Runs -/

/-- A call of the store or a write elsewhere. -/
inductive EffectAction where
  | reserve (context : StoreContext) (now : Int) (options : EffectOptions)
  | settle (context : StoreContext) (now : Int) (runId effectId : String) (attemptNumber : Nat)
      (outcome : EffectOutcome) (result : Option Json) (error : Option String)
  | recover (context : StoreContext) (now : Int) (runId : String)
  | queue (operation : QueueOperation)
  | commit (runId : String) (options : CommitOptions) (transition : WorkflowTransition)
  | elsewhere (write : Db → Db)

/-- The store, with the history of one effect. -/
structure EffectState where
  db : Db
  history : List Event

def EffectState.initial : EffectState :=
  ⟨.empty, []⟩

section

variable (sha256 : String → String) (dates : HostDates) (id : String)

/-- One action, followed for the effect under the id. -/
def effectAct (s : EffectState) : EffectAction → Except String EffectState
  | .reserve context now options =>
      (reserveEffect sha256 s.db context now options).map fun r =>
        ⟨r.1, s.history ++ reservationEvents id options r.2⟩
  | .settle context now runId effectId attemptNumber outcome result error =>
      (settleEffect sha256 s.db context now runId effectId attemptNumber outcome result error).map
        fun db => ⟨db, s.history⟩
  | .recover context now runId =>
      (recoverApplyingEffects sha256 s.db context now runId).map fun r =>
        ⟨r.1, s.history ++ recoveryEvents s.db id runId⟩
  | .queue operation => (execute sha256 s.db operation).map fun r => ⟨r.1, s.history⟩
  | .commit runId options transition =>
      (commitTransition sha256 dates s.db runId options transition).map fun db => ⟨db, s.history⟩
  | .elsewhere write =>
      .ok ⟨{ write s.db with effects := s.db.effects, effectAttempts := s.db.effectAttempts },
        s.history⟩

/-- Any actions in any order; a call that throws changes nothing. -/
def effectRun (s : EffectState) (actions : List EffectAction) : EffectState :=
  Trace.served (effectAct sha256 dates id) s actions

end

section

variable {sha256 : String → String} {dates : HostDates} {id : String} {s s' : EffectState}

theorem effectAct_run (hsha256 : Function.Injective sha256) {action : EffectAction}
    (h : effectAct sha256 dates id s action = .ok s') : ∃ events,
    s'.history = s.history ++ events ∧
      Run effectKind events (effectCell s.db id) (effectCell s'.db id) := by
  cases action with
  | reserve context now options =>
      simp only [effectAct, map_ok] at h
      obtain ⟨⟨db, answer⟩, hreserved, rfl⟩ := h
      exact ⟨_, rfl, .single (reserveEffect_step id hsha256 hreserved)⟩
  | settle =>
      simp only [effectAct, map_ok] at h
      obtain ⟨db, hsettled, rfl⟩ := h
      exact ⟨[], (List.append_nil _).symm, .single (settleEffect_step id hsettled)⟩
  | recover context now runId =>
      simp only [effectAct, map_ok] at h
      obtain ⟨⟨db, answer⟩, hrecovered, rfl⟩ := h
      exact ⟨_, rfl, .single (recoverApplyingEffects_step id hrecovered)⟩
  | queue operation =>
      simp only [effectAct, map_ok] at h
      obtain ⟨⟨db, answer⟩, hexecuted, rfl⟩ := h
      exact ⟨[], (List.append_nil _).symm, .single (execute_step id hexecuted)⟩
  | commit =>
      simp only [effectAct, map_ok] at h
      obtain ⟨db, hcommitted, rfl⟩ := h
      exact ⟨[], (List.append_nil _).symm, commitTransition_run id hcommitted⟩
  | elsewhere write =>
      cases h
      exact ⟨[], (List.append_nil _).symm, .single (.keep _)⟩

/-- The invariant of a run. -/
def EffectInv (id : String) (s : EffectState) : Prop :=
  Sound effectKind s.history (effectCell s.db id)

theorem effectInv_initial : EffectInv id .initial := by
  have hempty : effectCell EffectState.initial.db id = ⟨none, ∅⟩ := by
    have hlive : liveAttempts EffectState.initial.db.effectAttempts id = ∅ := by
      refine Set.eq_empty_of_forall_notMem fun n hn => ?_
      obtain ⟨attempt, hattempt, -⟩ := hn
      cases hattempt
    rw [effectCell, hlive]
    rfl
  show Sound effectKind [] (effectCell EffectState.initial.db id)
  rw [hempty]
  exact .free

theorem effectAct_inv (hsha256 : Function.Injective sha256) (s : EffectState) (action : EffectAction)
    (s' : EffectState) (hs : EffectInv id s) (h : effectAct sha256 dates id s action = .ok s') :
    EffectInv id s' := by
  obtain ⟨events, hhistory, hrun⟩ := effectAct_run hsha256 h
  unfold EffectInv
  rw [hhistory]
  exact hrun.sound hs

theorem effectRun_inv (hsha256 : Function.Injective sha256) (actions : List EffectAction) :
    EffectInv id (effectRun sha256 dates id .initial actions) :=
  Trace.served_invariant (effectAct_inv hsha256) effectInv_initial actions

/-- An applied effect stays as it is. -/
def KeepsApplied (id : String) (s s' : EffectState) : Prop :=
  ∀ payload result n, (effectCell s.db id).task = some ⟨payload, .done result, n⟩ →
    (effectCell s'.db id).task = some ⟨payload, .done result, n⟩

theorem effectRun_keepsApplied (hsha256 : Function.Injective sha256) (hs : EffectInv id s)
    (later : List EffectAction) : KeepsApplied id s (effectRun sha256 dates id s later) := by
  refine Trace.served_related ?_ ?_ (effectAct_inv hsha256) ?_ hs later
  · exact fun _ _ _ _ h => h
  · exact fun h h' payload result n hdone => h' payload result n (h payload result n hdone)
  · intro s action s' _ h payload result n hdone
    obtain ⟨events, -, hrun⟩ := effectAct_run hsha256 h
    exact hrun.done_kept hdone

theorem effectCell_applied {db : Db} {payload : Json} {result : Option Json} {n : ℕ} :
    (effectCell db id).task = some ⟨payload, .done result, n⟩ ↔
      ∃ effect, db.effects.get? id = some effect ∧ effect.status = .applied ∧
        effect.payload = payload ∧ effect.result = result ∧ effect.attemptCount = n := by
  unfold effectCell
  dsimp only
  rw [Option.map_eq_some_iff]
  refine exists_congr fun effect => and_congr_right fun _ => ?_
  unfold effectTask effectPhase
  cases effect.status <;> simp [eq_comm]

/-- The reservation of an applied effect, as far as the caller's authority goes. -/
theorem reserveEffect_applied {db : Db} {context : StoreContext} {now : Int}
    {options : EffectOptions} {effect : EffectRow}
    (heffect : db.effects.get? (options.effectId sha256) = some effect)
    (happlied : effect.status = .applied)
    (hpayload : canonicalJson effect.payload = canonicalJson options.payload) :
    reserveEffect sha256 db context now options = (do
      requireBoundedEffectText options.effectType "type"
      requireBoundedEffectText options.idempotencyKey "idempotency key"
      let authorized ← assertWriteAuthority sha256 db options.runId context now
      pure (authorized,
        ⟨options.effectId sha256, effect.attemptCount, .adopted effect.result⟩)) := by
  unfold reserveEffect
  refine bind_congr fun _ => bind_congr fun _ => ?_
  cases hauthorized : assertWriteAuthority sha256 db options.runId context now with
  | error message => rfl
  | ok authorized =>
      obtain ⟨leases, rfl⟩ := assertWriteAuthority_leases hauthorized
      show (match db.effects.get? (options.effectId sha256) with
        | some existing =>
            reserveAgain sha256 { db with leases := leases } context now options existing
        | none => reserveFirst sha256 { db with leases := leases } context now options) = _
      rw [heffect]
      dsimp only
      have hhash : jsonHash sha256 effect.payload = jsonHash sha256 options.payload :=
        congrArg sha256 hpayload
      unfold reserveAgain require
      rw [if_pos hhash, happlied]
      rfl

theorem reserveEffect_otherPayload (hsha256 : Function.Injective sha256) {db : Db}
    {context : StoreContext} {now : Int} {options : EffectOptions} {effect : EffectRow}
    (heffect : db.effects.get? (options.effectId sha256) = some effect)
    (hpayload : canonicalJson effect.payload ≠ canonicalJson options.payload) :
    ∃ message, reserveEffect sha256 db context now options = .error message := by
  cases hreserved : reserveEffect sha256 db context now options with
  | error message => exact ⟨message, rfl⟩
  | ok r =>
      unfold reserveEffect at hreserved
      simp only [bind_ok] at hreserved
      obtain ⟨_, -, _, -, authorized, hauthorized, hreserved⟩ := hreserved
      obtain ⟨leases, rfl⟩ := assertWriteAuthority_leases hauthorized
      simp only [heffect, reserveAgain, bind_ok, require_ok] at hreserved
      obtain ⟨_, hhash, -⟩ := hreserved
      exact absurd (hsha256 hhash) hpayload

/-- Whatever is called in whatever order, for every id of an effect: a manual
reservation that was answered `execute` is the only execution there ever is; at
most one attempt is without an end, that of an effect that is applying; an applied
effect is adopted with its result by every later reservation for its payload; an
execution that is not the first follows the recovery that ended the one before;
and a reservation for another payload changes nothing. -/
theorem effectRun_managed (hsha256 : Function.Injective sha256) (actions : List EffectAction) :
    (∀ n, .started .single n ∈ (effectRun sha256 dates id .initial actions).history →
      (effectRun sha256 dates id .initial actions).history = [.started .single n]) ∧
    (∀ n attempt,
      (effectRun sha256 dates id .initial actions).db.effectAttempts.get? (id, n) = some attempt →
      attempt.finishedAt = none → ∃ effect,
        (effectRun sha256 dates id .initial actions).db.effects.get? id = some effect ∧
        effect.status = .applying ∧ effect.attemptCount = n) ∧
    (∀ effect, (effectRun sha256 dates id .initial actions).db.effects.get? id = some effect →
      effect.status = .applied → ∀ later context now options,
      options.effectId sha256 = id → canonicalJson effect.payload = canonicalJson options.payload →
      reserveEffect sha256
          (effectRun sha256 dates id (effectRun sha256 dates id .initial actions) later).db context
          now options = (do
        requireBoundedEffectText options.effectType "type"
        requireBoundedEffectText options.idempotencyKey "idempotency key"
        let authorized ← assertWriteAuthority sha256
          (effectRun sha256 dates id (effectRun sha256 dates id .initial actions) later).db
          options.runId context now
        pure (authorized, ⟨id, effect.attemptCount, .adopted effect.result⟩))) ∧
    (∀ before kind n after,
      (effectRun sha256 dates id .initial actions).history = before ++ .started kind n :: after →
      before ≠ [] → ∃ earlier i, n = i + 1 ∧
        before = earlier ++ [.started .repeatable i, .reopened i]) ∧
    (∀ n attempt, .reopened n ∈ (effectRun sha256 dates id .initial actions).history →
      (effectRun sha256 dates id .initial actions).db.effectAttempts.get? (id, n) = some attempt →
      attempt.finishedAt ≠ none) ∧
    (∀ effect, (effectRun sha256 dates id .initial actions).db.effects.get? id = some effect →
      ∀ context now options, options.effectId sha256 = id →
      canonicalJson effect.payload ≠ canonicalJson options.payload →
      (∃ message, reserveEffect sha256 (effectRun sha256 dates id .initial actions).db context now
        options = .error message) ∧
      effectRun sha256 dates id (effectRun sha256 dates id .initial actions)
        [.reserve context now options] = effectRun sha256 dates id .initial actions) := by
  have hinv : EffectInv id (effectRun sha256 dates id .initial actions) :=
    effectRun_inv hsha256 actions
  generalize effectRun sha256 dates id .initial actions = s at hinv
  refine ⟨?_, ?_, ?_, ?_, ?_, ?_⟩
  · exact fun n hstarted => hinv.started_once hstarted
  · intro n attempt hattempt hopen
    obtain ⟨task, htask, hrunning, hnumber, -⟩ := hinv.live ⟨attempt, hattempt, hopen⟩
    obtain ⟨effect, heffect, rfl⟩ := Option.map_eq_some_iff.1 htask
    refine ⟨effect, heffect, ?_, hnumber⟩
    unfold effectTask effectPhase at hrunning
    cases hstatus : effect.status <;> simp [hstatus] at hrunning ⊢
  · rintro effect heffect happlied later context now options rfl hpayload
    have hkept : KeepsApplied (options.effectId sha256) s
        (effectRun sha256 dates (options.effectId sha256) s later) :=
      effectRun_keepsApplied hsha256 hinv later
    obtain ⟨effect', heffect', happlied', hpayload', hresult, hnumber⟩ :=
      effectCell_applied.1 (hkept effect.payload effect.result effect.attemptCount
        (effectCell_applied.2 ⟨effect, heffect, happlied, rfl, rfl, rfl⟩))
    rw [reserveEffect_applied heffect' happlied' (hpayload' ▸ hpayload), hresult, hnumber]
  · intro before kind n after hhistory hlater
    have hsound : Sound effectKind (before ++ .started kind n :: after) (effectCell s.db id) :=
      hhistory ▸ hinv
    exact hsound.restarted hlater
  · intro n attempt hreopened hattempt hopen
    obtain ⟨_, -, -, -, hnot⟩ := hinv.live ⟨attempt, hattempt, hopen⟩
    exact hnot hreopened
  · rintro effect heffect context now options rfl hpayload
    obtain ⟨message, hrefused⟩ := reserveEffect_otherPayload hsha256 heffect hpayload
    refine ⟨⟨message, hrefused⟩, ?_⟩
    unfold effectRun
    rw [Trace.served_cons, Trace.served_nil, Trace.serve, effectAct, hrefused]
    rfl

end

/-- A manual effect of a run. -/
def manualEffect : EffectOptions :=
  { runId := "run", effectType := "mail", idempotencyKey := "run:mail:send:1", request := .null
    recovery := .manual }

/-- Its runner crashes after the reservation, and the next one tries again. -/
def crashedEffect : List EffectAction :=
  [.queue (.reserve
      { runId := "run", workflowName := "review", workflowSourceRef := "builtin:review"
        workflowSource := .null, definitionDigest := String.ofList (List.replicate 64 'a')
        input := .null, originSessionId := "session", executionMode := some .headless } 0),
    .queue (.claim "run" "server-1" "first" 10 1 {}),
    .reserve ⟨some (some ⟨.server, "server-1", "first", 1, none⟩), 2⟩ 2 manualEffect,
    .queue (.claim "run" "server-2" "second" 10 50000 {}),
    .recover ⟨some (some ⟨.server, "server-2", "second", 2, none⟩), 3⟩ 50001 "run",
    .reserve ⟨some (some ⟨.server, "server-2", "second", 2, none⟩), 3⟩ 50002 manualEffect]

theorem crashedEffect_executedOnce :
    (effectRun id ⟨fun _ => none, fun _ => ""⟩ (manualEffect.effectId id) .initial
      crashedEffect).history = [.started .single 1] :=
  (effectRun_managed Function.injective_id crashedEffect).1 1 (by decide)

end PiWorkflows
