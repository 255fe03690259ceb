import PiWorkflows.Proofs.DecisionOutcome
import PiWorkflows.Proofs.QueueDependents
import PiWorkflows.Workflows.DecisionHistory

/-!
# What a resolved decision leaves behind

The store of decisions resolves in three ways, and all of them raise the revision,
record the event and enqueue the effects in the transaction of the resolution. So a
decision is open at revision 1 or resolved at revision 2 (`DecisionState`).

The queue writes resolutions alone. A run in which no run is cancelled with an open
decision keeps the states apart (`runs_recorded`), any other loses them.
-/

namespace PiWorkflows

open Fallible

/-! ## What is looked at -/

/-- When and at which revision an effect was enqueued, if it settles the presentations of
the decision. -/
def settlement (effects : Table String EffectRow) (decisionId effectId : String) :
    Option (Int × Nat) :=
  (effects.get? effectId).bind fun effect =>
    if effect.effectType = "decision.settle_presentations" ∧ effect.idempotencyKey = decisionId then
      some (effect.createdAt, effect.sourceRevision)
    else none

namespace DecisionHistory

variable {sha256 : String → String} {dates : HostDates} {normalize : Json → Except String Json}
  {h h' : DecisionHistory} {decisionId : String}

/-- The revisions that a decision has events of. -/
def eventRevisions (h : DecisionHistory) (decisionId : String) : List Nat :=
  (h.events.filter fun event => event.decisionId = decisionId).map DecisionEvent.revision

/-- Where a decision stands: its row, its resolution, its revision, its events and its
effect. -/
inductive DecisionState (h : DecisionHistory) (decisionId : String) : Prop
  | unknown (hrow : h.store.db.decisions.get? decisionId = none)
      (hresolution : h.store.db.resolutions.get? decisionId = none)
      (hrevision : h.revisions.get? decisionId = none) (hevents : h.eventRevisions decisionId = [])
      (heffects : ∀ effectId, settlement h.store.db.effects decisionId effectId = none)
  | waiting (row : DecisionRow) (hrow : h.store.db.decisions.get? decisionId = some row)
      (hresolution : h.store.db.resolutions.get? decisionId = none)
      (hrevision : h.revisions.get? decisionId = some 1)
      (hevents : h.eventRevisions decisionId = [1])
      (heffects : ∀ effectId, settlement h.store.db.effects decisionId effectId = none)
  | resolved (row : DecisionRow) (resolution : ResolutionRow) (effectId : String)
      (hrow : h.store.db.decisions.get? decisionId = some row)
      (hresolution : h.store.db.resolutions.get? decisionId = some resolution)
      (hrevision : h.revisions.get? decisionId = some 2)
      (hevents : h.eventRevisions decisionId = [1, 2])
      (heffects : ∀ other, settlement h.store.db.effects decisionId other =
        if other = effectId then some (resolution.resolvedAt, 2) else none)

/-- Nothing of a decision changes. -/
structure SameDecision (h h' : DecisionHistory) (decisionId : String) : Prop where
  row : h'.store.db.decisions.get? decisionId = h.store.db.decisions.get? decisionId
  resolution : h'.store.db.resolutions.get? decisionId = h.store.db.resolutions.get? decisionId
  revision : h'.revisions.get? decisionId = h.revisions.get? decisionId
  events : h'.eventRevisions decisionId = h.eventRevisions decisionId
  effects : ∀ effectId, settlement h'.store.db.effects decisionId effectId =
    settlement h.store.db.effects decisionId effectId

theorem DecisionState.same (hstate : DecisionState h decisionId)
    (hsame : SameDecision h h' decisionId) : DecisionState h' decisionId := by
  obtain ⟨hrow', hresolution', hrevision', hevents', heffects'⟩ := hsame
  cases hstate with
  | unknown hrow hresolution hrevision hevents heffects =>
      exact .unknown (hrow'.trans hrow) (hresolution'.trans hresolution)
        (hrevision'.trans hrevision) (hevents'.trans hevents)
        fun id => (heffects' id).trans (heffects id)
  | waiting row hrow hresolution hrevision hevents heffects =>
      exact .waiting row (hrow'.trans hrow) (hresolution'.trans hresolution)
        (hrevision'.trans hrevision) (hevents'.trans hevents)
        fun id => (heffects' id).trans (heffects id)
  | resolved row resolution effectId hrow hresolution hrevision hevents heffects =>
      exact .resolved row resolution effectId (hrow'.trans hrow)
        (hresolution'.trans hresolution) (hrevision'.trans hrevision) (hevents'.trans hevents)
        fun id => (heffects' id).trans (heffects id)

theorem eventRevisions_insert (event : DecisionEvent) :
    (h.insertDecisionEvent event).eventRevisions decisionId =
      h.eventRevisions decisionId ++
        if event.decisionId = decisionId then [event.revision] else [] := by
  rw [eventRevisions, insertDecisionEvent, List.filter_append, List.map_append]
  congr 1
  by_cases heq : event.decisionId = decisionId
  · simp [heq]
  · simp [heq]

/-! ## Resolutions -/

/-- The writes to the database that resolve a decision. -/
def Resolves (sha256 : String → String) (db db' : Db) (request : HumanDecisionRequest)
    (outcome : String) (now : Int) : Prop :=
  ∃ row resolutions, row.resolvedAt = now ∧
    db.resolutions.insert? request.decisionId row = some resolutions ∧
    HumanDecisionStore.enqueueResolutionEffects sha256 { db with resolutions := resolutions }
      request outcome now = .ok db'

theorem enqueueResolutionEffect_ok {db db' : Db} {request : HumanDecisionRequest}
    {outcome effectType : String} {now : Int}
    (hok : HumanDecisionStore.enqueueResolutionEffect sha256 request outcome now db effectType =
      .ok db') :
    ∃ effectId, ∀ other id, settlement db'.effects other id =
      if id = effectId ∧ effectType = "decision.settle_presentations" ∧ request.decisionId = other
        then some (now, 2)
      else settlement db.effects other id := by
  simp only [HumanDecisionStore.enqueueResolutionEffect, bind_ok, orThrow_ok, pure_ok] at hok
  obtain ⟨effects, hinsert, rfl⟩ := hok
  obtain ⟨hfree, hget⟩ := Table.get?_of_insert? hinsert
  refine ⟨"effect-" ++ shortDigest sha256 (.obj
    [("decisionId", .str request.decisionId), ("effectType", .str effectType)]),
    fun other id => ?_⟩
  rw [settlement, hget id]
  split
  · next heq =>
      subst heq
      rw [settlement, hfree, Option.bind_some, Option.bind_none]
      simp only [true_and]
  · next hne =>
      rw [if_neg fun hall => hne hall.1]
      rfl

theorem enqueueResolutionEffects_settlement {db db' : Db} {request : HumanDecisionRequest}
    {outcome : String} {now : Int}
    (hok : HumanDecisionStore.enqueueResolutionEffects sha256 db request outcome now = .ok db') :
    ∃ effectId, ∀ other id, settlement db'.effects other id =
      if id = effectId ∧ request.decisionId = other then some (now, 2)
      else settlement db.effects other id := by
  rw [HumanDecisionStore.enqueueResolutionEffects, HumanDecisionStore.resolutionEffects] at hok
  split at hok
  · rw [List.foldlM_cons, bind_ok] at hok
    obtain ⟨_, hsettle, hrest⟩ := hok
    obtain rfl := Except.ok.inj hrest
    obtain ⟨effectId, hget⟩ := enqueueResolutionEffect_ok hsettle
    refine ⟨effectId, fun other id => ?_⟩
    simpa only [true_and] using hget other id
  · simp only [List.foldlM_cons, bind_ok] at hok
    obtain ⟨_, hparent, _, hsettle, hrest⟩ := hok
    obtain rfl := Except.ok.inj hrest
    obtain ⟨_, hparent⟩ := enqueueResolutionEffect_ok hparent
    obtain ⟨effectId, hget⟩ := enqueueResolutionEffect_ok hsettle
    refine ⟨effectId, fun other id => ?_⟩
    have hnot : ("decision.cancel_parent" : String) ≠ "decision.settle_presentations" := by decide
    have hbefore := (hparent other id).trans (if_neg fun hall => hnot hall.2.1)
    rw [hget, hbefore]
    simp only [true_and]

theorem recordResolution_ok {eventType actorType : String} {actorId : Option String}
    {payload : Json}
    (hok : h.recordResolution decisionId eventType actorType actorId payload = .ok h') :
    ∃ revision, h.revisions.get? decisionId = some revision ∧ h'.store = h.store ∧
      (∀ other, h'.revisions.get? other =
        if other = decisionId then some (revision + 1) else h.revisions.get? other) ∧
      ∀ other, h'.eventRevisions other =
        h.eventRevisions other ++ if decisionId = other then [revision + 1] else [] := by
  simp only [recordResolution, bind_ok, orThrow_ok, pure_ok] at hok
  obtain ⟨revision, hrevision, rfl⟩ := hok
  refine ⟨revision, hrevision, rfl, fun other => ?_, fun other => ?_⟩
  · show Table.get? (h.revisions.update decisionId (· + 1)) other = _
    rw [Table.get?_update]
    split
    · next heq => rw [heq, hrevision]; rfl
    · rfl
  · rw [eventRevisions_insert]
    rfl

/-- A decision that is resolved, with what is recorded of it, was open. -/
theorem state_resolves {store : HumanDecisionStore} {request : HumanDecisionRequest}
    {outcome eventType actorType : String} {actorId : Option String} {payload : Json} {now : Int}
    (hstate : DecisionState h decisionId)
    (hresolves : Resolves sha256 h.store.db store.db request outcome now)
    (hrecord : ({ h with store := store } : DecisionHistory).recordResolution request.decisionId
      eventType actorType actorId payload = .ok h') : DecisionState h' decisionId := by
  obtain ⟨resolution, resolutions, rfl, hinsert, heffects⟩ := hresolves
  obtain ⟨hopen, hget⟩ := Table.get?_of_insert? hinsert
  obtain ⟨hdecisions, hresolutions⟩ := HumanDecisionStore.enqueueResolutionEffects_ok heffects
  obtain ⟨effectId, hsettlement⟩ := enqueueResolutionEffects_settlement heffects
  obtain ⟨revision, hrevision, hstore, hrevisions, hevents⟩ := recordResolution_ok hrecord
  have hafter : h'.store.db.resolutions.get? decisionId =
      if decisionId = request.decisionId then some resolution
      else h.store.db.resolutions.get? decisionId := by
    rw [hstore]
    show store.db.resolutions.get? decisionId = _
    rw [hresolutions]
    exact hget decisionId
  have hrow : h'.store.db.decisions.get? decisionId = h.store.db.decisions.get? decisionId := by
    rw [hstore]
    show store.db.decisions.get? decisionId = _
    rw [hdecisions]
  by_cases hid : decisionId = request.decisionId
  · subst hid
    cases hstate with
    | unknown _ _ hnone => exact absurd (hnone.symm.trans hrevision) nofun
    | waiting row hthere _ hone hbefore hnone =>
        obtain rfl : 1 = revision := Option.some.inj (hone.symm.trans hrevision)
        refine .resolved row resolution effectId (hrow.trans hthere) (hafter.trans (if_pos rfl))
          ((hrevisions _).trans (if_pos rfl)) ?_ fun other => ?_
        · rw [hevents, if_pos rfl]
          exact congrArg (· ++ [2]) hbefore
        · rw [hstore]
          show settlement store.db.effects _ other = _
          rw [hsettlement, hnone]
          simp only [and_true]
    | resolved _ _ _ _ hthere => exact absurd (hopen.symm.trans hthere) nofun
  · refine hstate.same ⟨hrow, hafter.trans (if_neg hid), (hrevisions _).trans (if_neg hid), ?_,
      fun id => ?_⟩
    · rw [hevents, if_neg (Ne.symm hid)]
      exact List.append_nil _
    · rw [hstore]
      show settlement store.db.effects decisionId id = _
      rw [hsettlement, if_neg fun hall => hid hall.2.symm]

/-! ## Calls of the store -/

theorem attemptAcceptance_resolves {s s' : HumanDecisionStore} {request : HumanDecisionRequest}
    {authority : Option RunWriteAuthority} {decision : ResolvedHumanDecision}
    {attempt : AcceptanceAttempt} {time : Int} {status : AcceptanceStatus} {answer : Json}
    (hok : s.attemptAcceptance sha256 dates normalize request authority decision attempt time =
      .ok (s', status, answer)) :
    status ≠ .accepted ∧ s'.db = s.db ∨
      status = .accepted ∧ ∃ now, Resolves sha256 s.db s'.db request "accepted" now := by
  simp only [HumanDecisionStore.attemptAcceptance, bind_ok] at hok
  obtain ⟨_, -, winner, -, hok⟩ := hok
  cases winner with
  | some winner =>
      cases winner with
      | cancelled reason => cases hok
      | accepted won =>
          simp only [HumanDecisionStore.answerResolved] at hok
          split at hok
          · cases hok
            exact .inl ⟨by decide, rfl⟩
          · cases hok
            exact .inl ⟨by decide, rfl⟩
  | none =>
      simp only [HumanDecisionStore.resolveAccepted, bind_ok, orThrow_ok, pure_ok,
        Prod.mk.injEq] at hok
      obtain ⟨resolutions, hinsert, db, heffects, rfl, rfl, -⟩ := hok
      exact .inr ⟨rfl, _, _, resolutions, rfl, hinsert, heffects⟩

theorem state_recordAcceptance {request : HumanDecisionRequest} {actorType : String}
    {actorId : Option String} {accepted : HumanDecisionStore × AcceptanceStatus × Json}
    (hstate : DecisionState h decisionId)
    (haccepted : accepted.2.1 ≠ .accepted ∧ accepted.1.db = h.store.db ∨
      accepted.2.1 = .accepted ∧ ∃ now,
        Resolves sha256 h.store.db accepted.1.db request "accepted" now)
    (hrecord : h.recordAcceptance request.decisionId actorType actorId accepted = .ok h') :
    DecisionState h' decisionId := by
  obtain ⟨store, status, answer⟩ := accepted
  rw [recordAcceptance] at hrecord
  rcases haccepted with ⟨hstatus, hdb⟩ | ⟨rfl, now, hresolves⟩
  · have hsame : h' = { h with store := store } := by
      cases status with
      | accepted => exact absurd rfl hstatus
      | adopted => exact (Except.ok.inj hrecord).symm
      | conflict => exact (Except.ok.inj hrecord).symm
    subst hsame
    refine hstate.same ⟨?_, ?_, rfl, rfl, fun id => ?_⟩
    · exact congrArg (fun db : Db => db.decisions.get? decisionId) hdb
    · exact congrArg (fun db : Db => db.resolutions.get? decisionId) hdb
    · exact congrArg (fun db : Db => settlement db.effects decisionId id) hdb
  · exact state_resolves hstate hresolves hrecord

theorem state_accept {request : HumanDecisionRequest} {submission : HumanDecisionSubmission}
    {clock : AnswerClock} (hstate : DecisionState h decisionId)
    (hok : h.accept sha256 dates normalize request submission clock = .ok h') :
    DecisionState h' decisionId := by
  simp only [accept, HumanDecisionStore.accept, bind_ok] at hok
  obtain ⟨accepted, ⟨_, -, hattempt⟩, hrecord⟩ := hok
  exact state_recordAcceptance hstate (attemptAcceptance_resolves hattempt) hrecord

theorem state_resolveTimeout {request : HumanDecisionRequest}
    {authority : Option RunWriteAuthority} {now : Int} (hstate : DecisionState h decisionId)
    (hok : h.resolveTimeout sha256 dates normalize request authority now = .ok h') :
    DecisionState h' decisionId := by
  simp only [resolveTimeout, HumanDecisionStore.resolveTimeout, bind_ok] at hok
  obtain ⟨accepted, ⟨_, -, hattempt⟩, hrecord⟩ := hok
  exact state_recordAcceptance hstate (attemptAcceptance_resolves hattempt) hrecord

theorem cancel_resolves {s s' : HumanDecisionStore} {request : HumanDecisionRequest}
    {reason : CancellationReason} {authority : Option RunWriteAuthority} {now : Int}
    {adopted : Bool}
    (hok : s.cancel sha256 dates normalize request reason authority now = .ok (s', adopted)) :
    adopted = true ∧ s' = s ∨
      adopted = false ∧ Resolves sha256 s.db s'.db request "cancelled" now := by
  simp only [HumanDecisionStore.cancel, bind_ok] at hok
  obtain ⟨_, -, _, -, _, -, winner, -, hok⟩ := hok
  cases winner with
  | some winner =>
      cases winner with
      | cancelled other =>
          simp only [bind_ok, pure_ok, Prod.mk.injEq] at hok
          obtain ⟨_, -, rfl, rfl⟩ := hok
          exact .inl ⟨rfl, rfl⟩
      | accepted _ => cases hok
  | none =>
      simp only [HumanDecisionStore.resolveCancelled, map_ok, bind_ok, orThrow_ok, pure_ok,
        Prod.mk.injEq] at hok
      obtain ⟨_, ⟨_, -, resolutions, hinsert, db, heffects, rfl⟩, rfl, rfl⟩ := hok
      exact .inr ⟨rfl, _, resolutions, rfl, hinsert, heffects⟩

theorem state_cancel {request : HumanDecisionRequest} {reason : CancellationReason}
    {authority : Option RunWriteAuthority} {now : Int} (hstate : DecisionState h decisionId)
    (hok : h.cancel sha256 dates normalize request reason authority now = .ok h') :
    DecisionState h' decisionId := by
  simp only [cancel, bind_ok] at hok
  obtain ⟨⟨store, adopted⟩, hcancel, hrecord⟩ := hok
  rcases cancel_resolves hcancel with ⟨rfl, rfl⟩ | ⟨rfl, hresolves⟩
  · obtain rfl := Except.ok.inj hrecord
    exact hstate
  · exact state_resolves hstate hresolves hrecord

theorem createRequest_cases {s s' : HumanDecisionStore} {request : HumanDecisionRequest}
    (hok : s.createRequest sha256 dates normalize request = .ok s') :
    s'.db.resolutions = s.db.resolutions ∧ s'.db.effects = s.db.effects ∧
      match s.db.decisions.get? request.decisionId with
      | some _ => s'.db.decisions = s.db.decisions
      | none => ∃ row, ∀ id, s'.db.decisions.get? id =
          if id = request.decisionId then some row else s.db.decisions.get? id := by
  simp only [HumanDecisionStore.createRequest, createDecision, bind_ok, pure_ok] at hok
  obtain ⟨db, ⟨requestDigest, -, hok⟩, rfl⟩ := hok
  cases hrow : s.db.decisions.get? request.decisionId with
  | some row =>
      simp only [hrow, bind_ok, pure_ok] at hok
      obtain ⟨_, -, rfl⟩ := hok
      exact ⟨rfl, rfl, rfl⟩
  | none =>
      simp only [hrow, bind_ok, orThrow_ok, pure_ok] at hok
      obtain ⟨_, -, _, -, decisions, hinsert, rfl⟩ := hok
      exact ⟨rfl, rfl, _, (Table.get?_of_insert? hinsert).2⟩

theorem state_createRequest {request : HumanDecisionRequest}
    (hstate : DecisionState h decisionId)
    (hok : h.createRequest sha256 dates normalize request = .ok h') :
    DecisionState h' decisionId := by
  simp only [createRequest, bind_ok] at hok
  obtain ⟨store, hstore, hok⟩ := hok
  obtain ⟨hresolutions, heffects, hdecisions⟩ := createRequest_cases hstore
  have hresolution := congrArg (fun t => Table.get? t decisionId) hresolutions
  have hsettlement := fun id => congrArg (fun t => settlement t decisionId id) heffects
  split at hok
  · next row hrow =>
      rw [hrow] at hdecisions
      obtain rfl := Except.ok.inj hok
      exact hstate.same ⟨congrArg (fun t => Table.get? t decisionId) hdecisions, hresolution, rfl,
        rfl, hsettlement⟩
  · next hnone =>
      rw [hnone] at hdecisions
      obtain ⟨row, hget⟩ := hdecisions
      simp only [bind_ok, orThrow_ok, pure_ok] at hok
      obtain ⟨revisions, hinsert, rfl⟩ := hok
      obtain ⟨-, hrevisions⟩ := Table.get?_of_insert? hinsert
      by_cases hid : decisionId = request.decisionId
      · subst hid
        cases hstate with
        | unknown _ hopen _ hbefore hnoEffects =>
            refine .waiting row ((hget _).trans (if_pos rfl)) (hresolution.trans hopen)
              ((hrevisions _).trans (if_pos rfl)) ?_
              fun id => (hsettlement id).trans (hnoEffects id)
            rw [eventRevisions_insert, if_pos rfl]
            exact congrArg (· ++ [1]) hbefore
        | waiting row hthere =>
            rw [hnone] at hthere
            cases hthere
        | resolved row _ _ hthere =>
            rw [hnone] at hthere
            cases hthere
      · refine hstate.same ⟨(hget _).trans (if_neg hid), hresolution,
          (hrevisions _).trans (if_neg hid), ?_, hsettlement⟩
        rw [eventRevisions_insert, if_neg (Ne.symm hid)]
        exact List.append_nil _

/-! ## Other transactions -/

/-- A change of effects that leaves what they are for. -/
theorem settlement_updateWhere {effects : Table String EffectRow} {p : String → EffectRow → Bool}
    {f : EffectRow → EffectRow}
    (hf : ∀ effect, (f effect).effectType = effect.effectType ∧
      (f effect).idempotencyKey = effect.idempotencyKey ∧
      (f effect).createdAt = effect.createdAt ∧ (f effect).sourceRevision = effect.sourceRevision)
    (effectId : String) :
    settlement (effects.updateWhere p f) decisionId effectId =
      settlement effects decisionId effectId := by
  rw [settlement, settlement, Table.get?_updateWhere]
  cases effects.get? effectId with
  | none => rfl
  | some effect =>
      obtain ⟨htype, hkey, hcreated, hrevision⟩ := hf effect
      rw [Option.map_some, Option.bind_some, Option.bind_some]
      split
      · rw [htype, hkey, hcreated, hrevision]
      · rfl

theorem isDecisionEffect_of {effect : EffectRow}
    (htype : effect.effectType = "decision.settle_presentations") :
    isDecisionEffect effect = true := by
  rw [isDecisionEffect, htype]
  decide

theorem state_markEffectApplied (hstate : DecisionState h decisionId) (id effectType : String)
    (now : Int) : DecisionState (h.markEffectApplied id effectType now) decisionId := by
  refine hstate.same ⟨rfl, rfl, rfl, rfl, fun effectId => ?_⟩
  refine settlement_updateWhere ?_ effectId
  exact fun _ => ⟨rfl, rfl, rfl, rfl⟩

theorem settlement_keep (before after : Table String EffectRow) (effectId : String) :
    settlement (keepDecisionEffects before after) decisionId effectId =
      settlement before decisionId effectId := by
  rw [settlement, settlement, keepDecisionEffects, Table.get?_insertMissing,
    Table.get?_deleteWhere]
  have hother : ∀ effect, isDecisionEffect effect = false →
      ¬ (effect.effectType = "decision.settle_presentations" ∧
        effect.idempotencyKey = decisionId) := by
    intro effect hnot hall
    rw [isDecisionEffect_of hall.1] at hnot
    cases hnot
  have hlater : ((after.rows.filter fun e => !isDecisionEffect e.2).lookup effectId).bind
      (fun effect => if effect.effectType = "decision.settle_presentations" ∧
        effect.idempotencyKey = decisionId then some (effect.createdAt, effect.sourceRevision)
        else none) = none := by
    cases hlookup : (after.rows.filter fun e => !isDecisionEffect e.2).lookup effectId with
    | none => rfl
    | some effect =>
        have hmem := (List.mem_filter.1 (Assoc.mem_of_lookup hlookup)).2
        rw [Option.bind_some, if_neg (hother effect (by simpa using hmem))]
  cases before.get? effectId with
  | none => exact hlater
  | some effect =>
      cases hkept : isDecisionEffect effect with
      | true =>
          rw [Option.filter_some_pos (by rw [hkept]; rfl), Option.some_or]
      | false =>
          rw [Option.filter_some_neg (by rw [hkept]; decide), Option.none_or, hlater,
            Option.bind_some, if_neg (hother effect hkept)]

theorem state_elsewhere (hstate : DecisionState h decisionId) (change : Db → Db) :
    DecisionState (h.elsewhere change) decisionId :=
  hstate.same ⟨rfl, rfl, rfl, rfl, fun effectId => settlement_keep _ _ effectId⟩

theorem get?_deleteWhere_key {κ ρ : Type} [DecidableEq κ] (t : Table κ ρ) (gone : κ → Bool)
    (k : κ) : (t.deleteWhere fun k _ => gone k).get? k = if gone k = true then none else t.get? k := by
  rw [Table.get?_deleteWhere]
  cases t.get? k with
  | none => simp
  | some r => cases gone k <;> simp

theorem state_deleteRunAggregates (hstate : DecisionState h decisionId) (runIds : List String) :
    DecisionState (h.deleteRunAggregates runIds) decisionId := by
  have hrow := get?_deleteWhere_key h.store.db.decisions (h.isDecisionOf runIds) decisionId
  have hresolution := get?_deleteWhere_key h.store.db.resolutions (h.isDecisionOf runIds) decisionId
  have hrevision := get?_deleteWhere_key h.revisions (h.isDecisionOf runIds) decisionId
  have hevents : (h.deleteRunAggregates runIds).eventRevisions decisionId =
      if h.isDecisionOf runIds decisionId = true then [] else h.eventRevisions decisionId := by
    rw [eventRevisions, deleteRunAggregates]
    dsimp only
    rw [List.filter_filter, eventRevisions]
    split
    · next hgone =>
        rw [List.map_eq_nil_iff, List.filter_eq_nil_iff]
        intro event _ hboth
        simp only [Bool.and_eq_true, decide_eq_true_eq] at hboth
        rw [hboth.1, hgone] at hboth
        exact absurd hboth.2 (by decide)
    · next hstays =>
        congr 1
        refine List.filter_congr fun event _ => ?_
        by_cases heq : event.decisionId = decisionId
        · rw [heq, Bool.eq_false_iff.2 hstays]
          simp
        · simp [heq]
  have heffects : ∀ effectId, settlement (h.deleteRunAggregates runIds).store.db.effects decisionId
      effectId = if h.isDecisionOf runIds decisionId = true then none
        else settlement h.store.db.effects decisionId effectId := by
    intro effectId
    rw [settlement, deleteRunAggregates]
    dsimp only
    rw [Table.get?_deleteWhere, settlement]
    cases h.store.db.effects.get? effectId with
    | none => simp
    | some effect =>
        by_cases hall : effect.effectType = "decision.settle_presentations" ∧
          effect.idempotencyKey = decisionId
        · obtain ⟨htype, hkey⟩ := hall
          cases hgone : h.isDecisionOf runIds decisionId with
          | true => simp [Option.filter, isDecisionEffect_of htype, hkey, hgone]
          | false => simp [Option.filter, hkey, hgone]
        · have hnone : ∀ q : EffectRow → Bool, ((some effect).filter q).bind (fun effect =>
              if effect.effectType = "decision.settle_presentations" ∧
                effect.idempotencyKey = decisionId then
                some (effect.createdAt, effect.sourceRevision) else none) = none := by
            intro q
            rw [Option.filter_some]
            split
            · rw [Option.bind_some, if_neg hall]
            · rfl
          rw [hnone, Option.bind_some, if_neg hall, ite_self]
  cases hgone : h.isDecisionOf runIds decisionId with
  | true =>
      simp only [hgone, if_true] at hrow hresolution hrevision hevents heffects
      exact .unknown hrow hresolution hrevision hevents heffects
  | false =>
      simp only [hgone, Bool.false_eq_true, if_false] at hrow hresolution hrevision hevents heffects
      exact hstate.same ⟨hrow, hresolution, hrevision, hevents, heffects⟩

/-! ## The queue -/

/-- The run that a call of the queue cancels. -/
def cancelledRun (sha256 : String → String) (db : Db) : QueueOperation → Option String
  | .cancel runId claimToken now =>
      if (workflowRunRow db runId).any fun row => !row.queue.status.isTerminal &&
          (mayTerminate sha256 row claimToken now || claimToken.isNone && !row.lease.isLive now) then
        some runId
      else none
  | .cancelStale runId _ now =>
      if (workflowRunRow db runId).any fun row =>
          !row.queue.status.isTerminal && !row.lease.isLive now then some runId
      else none
  | _ => none

/-- What the queue does to decisions and their resolutions. -/
inductive ResolutionsChange (db db' : Db) (cancelled : Option String) : Prop
  | same (hdecisions : db'.decisions = db.decisions) (hresolutions : db'.resolutions = db.resolutions)
  | cancelled (runId actorId : String) (now : Int) (hcancelled : cancelled = some runId)
      (hdecisions : db'.decisions = db.decisions)
      (hresolutions : db'.resolutions = (cancelRunDecisions db runId now actorId).resolutions)

section

variable {db db' : Db} {runId token : String} {now : Int} {accepted : Bool}
  {cancelled : Option String}

theorem reserveInTransaction_resolutions {options : ReservationOptions} {digest : String}
    (hok : reserveWorkflowRunInTransaction db options now digest = .ok db') :
    ResolutionsChange db db' cancelled := by
  simp only [reserveWorkflowRunInTransaction, bind_ok, require_ok] at hok
  obtain ⟨_, -, lineage, -, hok⟩ := hok
  split at hok
  · cases hok
  · simp only [bind_ok, orThrow_ok, pure_ok] at hok
    obtain ⟨leases, -, runs, -, bindings, -, runQueue, -, rfl⟩ := hok
    exact .same rfl rfl

theorem claimRun_resolutions {runnerId : String} {leaseMs : Int} {options : ClaimOptions}
    (hok : claimRun sha256 db runId runnerId token leaseMs now options = some db') :
    ResolutionsChange db db' cancelled := by
  unfold claimRun at hok
  repeat' split at hok
  all_goals cases hok
  all_goals exact .same rfl rfl

theorem parkForError_resolutions {errorCode detail conflict : String}
    (hok : parkForError sha256 db runId token now errorCode detail conflict = .ok (db', accepted)) :
    ResolutionsChange db db' cancelled := by
  unfold parkForError at hok
  split at hok
  · cases hok
    exact .same rfl rfl
  · split at hok
    · simp only [bind_ok, pure_ok, Prod.mk.injEq] at hok
      obtain ⟨_, -, rfl, -⟩ := hok
      exact .same rfl rfl
    · cases hok
      exact .same rfl rfl

theorem cancelStale_resolutions {controlId : String}
    (hok : cancelStaleWorkflowRun db runId controlId now = .ok (db', accepted)) :
    db'.decisions = db.decisions ∧ (db'.resolutions = db.resolutions ∨
      (workflowRunRow db runId).any (fun row =>
        !row.queue.status.isTerminal && !row.lease.isLive now) = true ∧
        db'.resolutions = (cancelRunDecisions db runId now controlId).resolutions) := by
  unfold cancelStaleWorkflowRun at hok
  split at hok
  · cases hok
    exact ⟨rfl, .inl rfl⟩
  · next row hrow =>
      split at hok
      · cases hok
        exact ⟨rfl, .inl rfl⟩
      · next hgoes =>
          simp only [bind_ok, pure_ok, Prod.mk.injEq] at hok
          obtain ⟨_, -, rfl, -⟩ := hok
          refine ⟨rfl, .inr ⟨?_, rfl⟩⟩
          rw [not_or, Bool.not_eq_true, Bool.not_eq_true] at hgoes
          rw [hrow, Option.any_some, hgoes.1, hgoes.2]
          rfl

theorem terminalRun_resolutions (sha256 : String → String) (db : Db) (runId : String)
    (claimToken : Option String) (outcome : TerminalOutcome) (code error : String) (now : Int) :
    let db' := (terminalRun sha256 db runId claimToken outcome code error now).1
    db'.decisions = db.decisions ∧ (db'.resolutions = db.resolutions ∨
      outcome = .cancelled ∧ (workflowRunRow db runId).any (fun row =>
        !row.queue.status.isTerminal && mayTerminate sha256 row claimToken now) = true ∧
        ∃ actorId, db'.resolutions = (cancelRunDecisions db runId now actorId).resolutions) := by
  unfold terminalRun
  split
  · exact ⟨rfl, .inl rfl⟩
  · next row hrow =>
      split
      · next hgoes =>
          -- Whether the lease is released does not matter here.
          cases outcome with
          | failed => cases claimToken <;> exact ⟨rfl, .inl rfl⟩
          | cancelled =>
              have hany : (workflowRunRow db runId).any (fun row =>
                  !row.queue.status.isTerminal && mayTerminate sha256 row claimToken now) = true := by
                rw [hrow, Option.any_some, hgoes.1, hgoes.2]
                rfl
              cases claimToken <;> exact ⟨rfl, .inr ⟨rfl, hany, _, rfl⟩⟩
      · exact ⟨rfl, .inl rfl⟩

theorem cancel_resolutions {claimToken : Option String}
    (hok : cancelWorkflowRun sha256 db runId claimToken now = .ok (db', accepted)) :
    ResolutionsChange db db' (cancelledRun sha256 db (.cancel runId claimToken now)) := by
  have hmeans : ∀ p : QueuedRun → Bool, (∀ row, p row = true →
      (mayTerminate sha256 row claimToken now ||
        claimToken.isNone && !row.lease.isLive now) = true) →
      (workflowRunRow db runId).any (fun row => !row.queue.status.isTerminal && p row) = true →
      cancelledRun sha256 db (.cancel runId claimToken now) = some runId := by
    intro p hp hany
    rw [cancelledRun, if_pos]
    obtain ⟨row, hrow, hall⟩ := Option.any_eq_true _ _ |>.1 hany
    rw [Bool.and_eq_true] at hall
    rw [hrow, Option.any_some, hall.1, hp row hall.2]
    rfl
  obtain ⟨hdecisions, hterminal⟩ := terminalRun_resolutions sha256 db runId claimToken .cancelled
    "cancelled" "Workflow run cancelled" now
  unfold cancelWorkflowRun at hok
  dsimp only at hok
  split at hok
  · cases hok
    rcases hterminal with hsame | ⟨-, hany, actorId, hresolutions⟩
    · exact .same hdecisions hsame
    · exact .cancelled runId actorId now
        (hmeans _ (fun row hrow => by rw [hrow]; rfl) hany) hdecisions hresolutions
  · next hnot =>
      rw [not_or, Option.not_isSome_iff_eq_none] at hnot
      obtain ⟨hdecisions, hstale⟩ := cancelStale_resolutions hok
      rcases hstale with hsame | ⟨hany, hresolutions⟩
      · exact .same hdecisions hsame
      · refine .cancelled runId _ now (hmeans _ (fun row hrow => ?_) hany) hdecisions hresolutions
        rw [hnot.2, Option.isNone_none, Bool.true_and, hrow, Bool.or_true]

end

/-- Only a cancellation resolves decisions. -/
theorem execute_resolutions {db db' : Db} {operation : QueueOperation} {answer : QueueAnswer}
    (hok : execute sha256 db operation = .ok (db', answer)) :
    ResolutionsChange db db' (cancelledRun sha256 db operation) := by
  cases operation with
  | reserve options now =>
      simp only [execute, map_ok, plainAnswer, Prod.mk.injEq, reserveWorkflowRun, bind_ok] at hok
      obtain ⟨_, ⟨_, -, _, -, hreserved⟩, rfl, -⟩ := hok
      exact reserveInTransaction_resolutions hreserved
  | reserveOrAdopt options now =>
      simp only [execute, map_ok, plainAnswer, Prod.mk.injEq, reserveOrAdoptWorkflowRun,
        bind_ok] at hok
      obtain ⟨_, ⟨_, -, _, -, hreserved⟩, rfl, -⟩ := hok
      split at hreserved
      · simp only [bind_ok, pure_ok] at hreserved
        obtain ⟨_, -, rfl⟩ := hreserved
        exact .same rfl rfl
      · exact reserveInTransaction_resolutions hreserved
  | claim runId runnerId claimToken leaseMs now options =>
      simp only [execute, Except.ok.injEq] at hok
      cases hclaim : claimRun sha256 db runId runnerId claimToken leaseMs now options with
      | none =>
          rw [hclaim] at hok
          cases hok
          exact .same rfl rfl
      | some claimed =>
          rw [hclaim] at hok
          cases hok
          exact claimRun_resolutions hclaim
  | claimNext runnerId claimToken leaseMs now exclude =>
      simp only [execute] at hok
      split at hok
      · next hclaim =>
          cases hok
          simp only [claimNextWorkflowRun, Option.bind_eq_bind, Option.pure_def,
            Option.bind_eq_some_iff, Option.some.injEq, Prod.mk.injEq] at hclaim
          obtain ⟨_, -, _, hclaim, -, rfl⟩ := hclaim
          exact claimRun_resolutions hclaim
      · cases hok
        exact .same rfl rfl
  | renew =>
      cases hok
      unfold renewWorkflowRunClaim
      split <;> exact .same rfl rfl
  | markRunning =>
      cases hok
      unfold markWorkflowRunRunning updateClaimedRunStatus
      split <;> exact .same rfl rfl
  | park =>
      cases hok
      unfold parkWorkflowRun releaseRunClaim
      split <;> exact .same rfl rfl
  | complete =>
      cases hok
      unfold completeWorkflowRun releaseRunClaim
      split <;> exact .same rfl rfl
  | parkForRunnerNoProgress =>
      simp only [execute, map_ok, plainAnswer, Prod.mk.injEq] at hok
      obtain ⟨_, hparked, rfl, -⟩ := hok
      exact parkForError_resolutions hparked
  | parkForSourceChange =>
      simp only [execute, map_ok, plainAnswer, Prod.mk.injEq] at hok
      obtain ⟨_, hparked, rfl, -⟩ := hok
      exact parkForError_resolutions hparked
  | parkForAmbiguousEffect =>
      simp only [execute, map_ok, plainAnswer, Prod.mk.injEq] at hok
      obtain ⟨⟨db', accepted⟩, hparked, rfl, -⟩ := hok
      unfold parkWorkflowRunForAmbiguousEffect at hparked
      split at hparked
      · cases hparked
        exact .same rfl rfl
      · split at hparked
        · simp only [bind_ok, pure_ok, Prod.mk.injEq] at hparked
          obtain ⟨_, -, rfl, -⟩ := hparked
          exact .same rfl rfl
        · cases hparked
          exact .same rfl rfl
  | beginInteractionTimeout =>
      simp only [execute, map_ok, plainAnswer, Prod.mk.injEq] at hok
      obtain ⟨⟨db', accepted⟩, htimeout, rfl, -⟩ := hok
      unfold beginWorkflowRunInteractionTimeout at htimeout
      split at htimeout
      · cases htimeout
        exact .same rfl rfl
      · split at htimeout
        · split at htimeout
          · cases htimeout
            exact .same rfl rfl
          · simp only [bind_ok, pure_ok, Prod.mk.injEq] at htimeout
            obtain ⟨_, -, rfl, -⟩ := htimeout
            exact .same rfl rfl
        · cases htimeout
          exact .same rfl rfl
  | pauseParked =>
      cases hok
      unfold pauseParkedWorkflowRun
      repeat' split
      all_goals exact .same rfl rfl
  | resumePausedInteraction =>
      cases hok
      unfold resumePausedInteraction
      repeat' split
      all_goals exact .same rfl rfl
  | requestResume =>
      cases hok
      unfold requestWorkflowRunResume
      repeat' split
      all_goals exact .same rfl rfl
  | fail runId claimToken errorCode errorMessage now =>
      cases hok
      obtain ⟨hdecisions, hsame | ⟨houtcome, -⟩⟩ := terminalRun_resolutions sha256 db runId
        claimToken .failed errorCode errorMessage now
      · exact .same hdecisions hsame
      · cases houtcome
  | cancel =>
      simp only [execute, map_ok, plainAnswer, Prod.mk.injEq] at hok
      obtain ⟨_, hcancelled, rfl, -⟩ := hok
      exact cancel_resolutions hcancelled
  | cancelStale runId controlId now =>
      simp only [execute, map_ok, plainAnswer, Prod.mk.injEq] at hok
      obtain ⟨_, hcancelled, rfl, -⟩ := hok
      obtain ⟨hdecisions, hsame | ⟨hany, hresolutions⟩⟩ := cancelStale_resolutions hcancelled
      · exact .same hdecisions hsame
      · exact .cancelled runId controlId now (if_pos hany) hdecisions hresolutions
  | expireServerLeases =>
      cases hok
      exact .same rfl rfl

theorem execute_settlement {db db' : Db} {operation : QueueOperation} {answer : QueueAnswer}
    (hok : execute sha256 db operation = .ok (db', answer)) (effectId : String) :
    settlement db'.effects decisionId effectId = settlement db.effects decisionId effectId := by
  have hframe : ∀ later : Db, SameDependentRows later db' →
      settlement db'.effects decisionId effectId = settlement later.effects decisionId effectId :=
    fun later hrows => by rw [hrows.effects]
  rcases execute_dependents hok with hrows | ⟨runId, effectType, now, hrows⟩ |
    ⟨_, _, _, _, _, _, hrows⟩ | ⟨_, _, hrows⟩ | ⟨runId, effectError, submissionError, now, hrows⟩
  · exact hframe _ hrows
  · refine (hframe _ hrows).trans (settlement_updateWhere ?_ effectId)
    exact fun _ => ⟨rfl, rfl, rfl, rfl⟩
  · exact (hframe _ hrows).trans rfl
  · exact (hframe _ hrows).trans rfl
  · refine (hframe _ hrows).trans (settlement_updateWhere ?_ effectId)
    exact fun _ => ⟨rfl, rfl, rfl, rfl⟩

/-- No run is cancelled that the decision belongs to and waits in. -/
def StepFits (sha256 : String → String) (decisionId : String) (h : DecisionHistory) :
    Action → Prop
  | .queue operation => ∀ row, h.store.db.decisions.get? decisionId = some row →
      cancelledRun sha256 h.store.db operation = some row.runId →
        (h.store.db.resolutions.get? decisionId).isSome = true
  | _ => True

theorem state_queue {operation : QueueOperation} (hstate : DecisionState h decisionId)
    (hfits : StepFits sha256 decisionId h (.queue operation))
    (hok : h.queue sha256 operation = .ok h') : DecisionState h' decisionId := by
  simp only [queue, bind_ok] at hok
  obtain ⟨⟨db, answer⟩, hexecute, hok⟩ := hok
  obtain rfl := Except.ok.inj hok
  have heffects : ∀ id, settlement db.effects decisionId id =
      settlement h.store.db.effects decisionId id := execute_settlement hexecute
  rcases execute_resolutions hexecute with ⟨hdecisions, hresolutions⟩ |
    ⟨runId, actorId, now, hcancelled, hdecisions, hresolutions⟩
  · exact hstate.same ⟨congrArg (fun t => Table.get? t decisionId) hdecisions,
      congrArg (fun t => Table.get? t decisionId) hresolutions, rfl, rfl, heffects⟩
  · refine hstate.same ⟨congrArg (fun t => Table.get? t decisionId) hdecisions, ?_, rfl, rfl,
      heffects⟩
    show db.resolutions.get? decisionId = h.store.db.resolutions.get? decisionId
    cases hresolved : h.store.db.resolutions.get? decisionId with
    | some resolution =>
        rw [hresolutions, cancelRunDecisions, Table.get?_insertMissing, hresolved, Option.some_or]
    | none =>
        cases hafter : db.resolutions.get? decisionId with
        | none => rfl
        | some resolution =>
            rw [hresolutions, cancelRunDecisions, Table.get?_insertMissing, hresolved,
              Option.none_or] at hafter
            obtain ⟨⟨id, row⟩, hmem, heq⟩ := List.mem_map.1 (Assoc.mem_of_lookup hafter)
            obtain ⟨rfl, -⟩ := Prod.mk.inj heq
            obtain ⟨hrow, hrun⟩ := List.mem_filter.1 hmem
            have hfit := hfits row (Table.mem_rows.1 hrow)
              (hcancelled.trans (congrArg some (of_decide_eq_true hrun).symm))
            rw [hresolved] at hfit
            cases hfit

/-! ## Runs -/

theorem state_step {action : Action} (hstate : DecisionState h decisionId)
    (hfits : StepFits sha256 decisionId h action) :
    DecisionState (Trace.serve (step sha256 dates normalize) h action) decisionId := by
  rw [Trace.serve]
  split
  · next h' hok =>
      cases action with
      | createRequest request => exact state_createRequest hstate hok
      | accept request submission clock => exact state_accept hstate hok
      | resolveTimeout request authority now => exact state_resolveTimeout hstate hok
      | cancel request reason authority now => exact state_cancel hstate hok
      | markEffectApplied id effectType now =>
          obtain rfl := Except.ok.inj hok
          exact state_markEffectApplied hstate id effectType now
      | queue operation => exact state_queue hstate hfits hok
      | deleteRunAggregates runIds =>
          obtain rfl := Except.ok.inj hok
          exact state_deleteRunAggregates hstate runIds
      | elsewhere change =>
          obtain rfl := Except.ok.inj hok
          exact state_elsewhere hstate change
  · exact hstate

/-- A decision that has a resolution is at the revision behind the one it was asked with, has
the event of that revision, and one effect that was enqueued then to settle its
presentations. Without a resolution it has none of these. -/
structure Recorded (h : DecisionHistory) (decisionId : String) : Prop where
  resolved : ∀ resolution, h.store.db.resolutions.get? decisionId = some resolution →
    h.revisions.get? decisionId = some 2 ∧ h.eventRevisions decisionId = [1, 2] ∧
      ∃ effectId, ∀ other, settlement h.store.db.effects decisionId other =
        if other = effectId then some (resolution.resolvedAt, 2) else none
  waiting : h.store.db.resolutions.get? decisionId = none →
    (∀ revision, h.revisions.get? decisionId = some revision → revision = 1) ∧
      2 ∉ h.eventRevisions decisionId ∧
      ∀ effectId, settlement h.store.db.effects decisionId effectId = none

theorem DecisionState.recorded (hstate : DecisionState h decisionId) : Recorded h decisionId := by
  cases hstate with
  | unknown hrow hopen hrevision hevents heffects =>
      refine ⟨fun resolution hresolution => ?_, fun _ => ⟨fun revision hthere => ?_, ?_, heffects⟩⟩
      · exact absurd (hopen.symm.trans hresolution) nofun
      · exact absurd (hrevision.symm.trans hthere) nofun
      · rw [hevents]
        exact List.not_mem_nil
  | waiting row hrow hopen hrevision hevents heffects =>
      refine ⟨fun resolution hresolution => ?_, fun _ => ⟨fun revision hthere => ?_, ?_, heffects⟩⟩
      · exact absurd (hopen.symm.trans hresolution) nofun
      · exact Option.some.inj (hthere.symm.trans hrevision)
      · rw [hevents]
        decide
  | resolved row resolution effectId hrow hresolved hrevision hevents heffects =>
      refine ⟨fun other hother => ?_, fun hopen => ?_⟩
      · obtain rfl : other = resolution := Option.some.inj (hother.symm.trans hresolved)
        exact ⟨hrevision, hevents, effectId, heffects⟩
      · exact absurd (hopen.symm.trans hresolved) nofun

/-- A decision that nothing is known of. -/
def Unknown (h : DecisionHistory) (decisionId : String) : Prop :=
  h.store.db.decisions.get? decisionId = none ∧ h.store.db.resolutions.get? decisionId = none ∧
    h.revisions.get? decisionId = none ∧ h.eventRevisions decisionId = [] ∧
    ∀ effectId, settlement h.store.db.effects decisionId effectId = none

/-- Behind every run in which no run is cancelled that has the decision waiting, what is
recorded of a decision is what its resolution says. -/
theorem runs_recorded (sha256 : String → String) (dates : HostDates)
    (normalize : Json → Except String Json) (h : DecisionHistory) (decisionId : String)
    (hunknown : Unknown h decisionId) (actions : List Action)
    (hfits : Trace.Fits (Trace.serve (step sha256 dates normalize)) (StepFits sha256 decisionId) h
      actions) : Recorded (h.run sha256 dates normalize actions) decisionId := by
  obtain ⟨hrow, hresolution, hrevision, hevents, heffects⟩ := hunknown
  have hstart : DecisionState h decisionId :=
    .unknown hrow hresolution hrevision hevents heffects
  have hstate : DecisionState (h.run sha256 dates normalize actions) decisionId :=
    Trace.Fits.invariant (DecisionState · decisionId) (fun _ _ => state_step) hstart hfits
  exact hstate.recorded

/-! A decision that is answered, and one whose run is cancelled. -/

open HumanDecisionStore in
theorem answeredDecision_recorded :
    Recorded (run id hostDates .ok ⟨waitingStore, .empty, []⟩
      [.createRequest goRequest, .accept goRequest goSubmission ⟨1, 1, 1⟩]) "decision" := by
  refine runs_recorded id hostDates .ok _ "decision" ⟨rfl, rfl, rfl, rfl, fun _ => rfl⟩ _ ?_
  exact Trace.fits_cons.2 ⟨trivial, Trace.fits_cons.2 ⟨trivial, Trace.fits_nil⟩⟩

open HumanDecisionStore in
/-- The run of the decision in the queue, parked. -/
def parkedHistory : DecisionHistory where
  store :=
    { waitingStore with
      db := { waitingDb with
        runQueue := Table.empty.insert "run"
          { status := .parked, availableAt := 0, originSessionId := none, createdAt := 0
            updatedAt := 0 } (Table.get?_empty _)
        leases := Table.empty.insert "run" ⟨1, none⟩ (Table.get?_empty _) } }

open HumanDecisionStore in
/-- The decision is asked for. -/
def askedHistory : DecisionHistory where
  store :=
    { parkedHistory.store with
      db := { parkedHistory.store.db with decisions := askedStore.db.decisions }
      deadlines := askedStore.deadlines }
  revisions := Table.empty.insert "decision" 1 rfl
  events := [⟨"decision", 1, "decision.requested", "system", none, storedJson goRequest.json⟩]

open HumanDecisionStore in
theorem createRequest_parked :
    step id hostDates .ok parkedHistory (.createRequest goRequest) = .ok askedHistory := by
  simp only [step, createRequest, HumanDecisionStore.createRequest, createDecision,
    goRequest_valid (.inl rfl)]
  rfl

open HumanDecisionStore in
theorem cancelledRun_unrecorded :
    let h := parkedHistory.run id hostDates .ok
      [.createRequest goRequest, .queue (.cancel "run" none 5)]
    (∃ resolution, h.store.db.resolutions.get? "decision" = some resolution) ∧
      h.revisions.get? "decision" = some 1 ∧ h.eventRevisions "decision" = [1] ∧
      (∀ effectId, settlement h.store.db.effects "decision" effectId = none) ∧
      ¬ Recorded h "decision" := by
  intro h
  have hrun : h = Trace.serve (step id hostDates .ok) askedHistory (.queue (.cancel "run" none 5)) := by
    show Trace.served _ _ _ = _
    rw [Trace.served_cons, Trace.serve_of_ok createRequest_parked, Trace.served_cons,
      Trace.served_nil]
  have hresolved : ∃ resolution, h.store.db.resolutions.get? "decision" = some resolution := by
    rw [hrun]
    exact ⟨_, rfl⟩
  have hrevision : h.revisions.get? "decision" = some 1 := by
    rw [hrun]
    rfl
  refine ⟨hresolved, hrevision, by rw [hrun]; rfl, fun effectId => by rw [hrun]; rfl, ?_⟩
  intro hrecorded
  obtain ⟨resolution, hresolution⟩ := hresolved
  have htwo := (hrecorded.resolved resolution hresolution).1
  rw [hrevision] at htwo
  cases htwo

end DecisionHistory

end PiWorkflows
