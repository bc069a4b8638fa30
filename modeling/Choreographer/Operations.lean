import Choreographer.Instance

namespace Choreographer.Operations

open Choreographer.Lib.SortedMaps Choreographer.Lib.Updates
open Choreographer.Texts Choreographer.Values Choreographer.Steps Choreographer.DefinitionParts
open Choreographer.Definition Choreographer.Agenda Choreographer.Instance

/-- The calls a session answers, with their arguments. A step start or a move
without a role is the engine's own. -/
inductive Operation
  | startStep (roleId : Option RoleId) (stepId : StepId) (lease : StepLease) (now : OffsetDateTime)
  | applyStepResult (stepId : StepId) (result : StepResult) (now : OffsetDateTime)
  | approveGuard (guardName : GuardName) (approvedBy : RoleId) (approvedByKind : AuditActorKind)
    (now : OffsetDateTime)
  | bindParticipant (roleId : RoleId) (specialty : Specialty) (now : OffsetDateTime)
  | deferGuard (guardName : GuardName) (content : CeremonyGuardDeferralContent)
    (deferredBy : RoleId) (deferredByKind : AuditActorKind) (now : OffsetDateTime)
  | requestIntervention (interventionId : CeremonyInterventionId) (roleId : RoleId)
    (kind : CeremonyInterventionKind) (target : CeremonyInterventionTarget)
    (content : CeremonyInterventionContent) (provenance : Option CeremonyInterventionProvenance)
    (now : OffsetDateTime)
  | respondToIntervention (interventionId : CeremonyInterventionId) (roleId : RoleId)
    (content : CeremonyInterventionContent) (now : OffsetDateTime)
  | respondToInterventionWithEvidence (interventionId : CeremonyInterventionId) (roleId : RoleId)
    (evidencePack : CeremonyEvidencePack) (now : OffsetDateTime)
  | prepareEvidenceRequest (interventionId : CeremonyInterventionId) (roleId : RoleId)
    (sourceId : CeremonyEvidenceSourceId) (query : CeremonyInterventionContent)
  | assertReason (roleId : RoleId) (fromRecord toRecord : CeremonyRecordRef)
    (kind : CeremonyReasonKind) (why : String) (confidence : MemoryConfidence)
    (now : OffsetDateTime)
  | closeIntervention (interventionId : CeremonyInterventionId) (roleId : RoleId)
    (now : OffsetDateTime)
  | applyTransition (roleId : Option RoleId) (trigger : TransitionTrigger) (now : OffsetDateTime)

def Operation.run (definition : CeremonyDefinition) :
    Operation → Update DomainError CeremonyInstance Unit
  | .startStep none stepId lease now => do
    let _ ← CeremonyInstance.startStep definition stepId lease now
  | .startStep (some roleId) stepId lease now => do
    let _ ← CeremonyInstance.startStepAs definition roleId stepId lease now
  | .applyStepResult stepId result now =>
    CeremonyInstance.applyStepResult definition stepId result now
  | .approveGuard guardName approvedBy approvedByKind now =>
    CeremonyInstance.approveGuard definition guardName approvedBy approvedByKind now
  | .bindParticipant roleId specialty now =>
    CeremonyInstance.bindParticipant definition roleId specialty now
  | .deferGuard guardName content deferredBy deferredByKind now =>
    CeremonyInstance.deferGuard definition guardName content deferredBy deferredByKind now
  | .requestIntervention interventionId roleId kind target content provenance now =>
    CeremonyInstance.requestInterventionWithProvenanceAs definition interventionId roleId kind
      target content provenance now
  | .respondToIntervention interventionId roleId content now =>
    CeremonyInstance.respondToInterventionAs definition interventionId roleId content now
  | .respondToInterventionWithEvidence interventionId roleId evidencePack now =>
    CeremonyInstance.respondToInterventionWithEvidenceAs definition interventionId roleId
      evidencePack now
  | .prepareEvidenceRequest interventionId roleId sourceId query => do
    let _ ← check fun self => CeremonyInstance.prepareEvidenceRequestAs definition interventionId
      roleId sourceId query self
  | .assertReason roleId fromRecord toRecord kind why confidence now =>
    CeremonyInstance.assertReasonAs definition roleId fromRecord toRecord kind why confidence now
  | .closeIntervention interventionId roleId now =>
    CeremonyInstance.closeInterventionAs definition interventionId roleId now
  | .applyTransition none trigger now => do
    let _ ← CeremonyInstance.applyTransition definition trigger now
  | .applyTransition (some roleId) trigger now => do
    let _ ← CeremonyInstance.applyTransitionAs definition roleId trigger now

def Operation.answer (definition : CeremonyDefinition) (op : Operation) (i : CeremonyInstance) :
    Except DomainError Unit := ((op.run definition).on i).1

/-- What a call leaves behind, refused or not. -/
def Operation.after (definition : CeremonyDefinition) (op : Operation) (i : CeremonyInstance) :
    CeremonyInstance := ((op.run definition).on i).2

def runAll (definition : CeremonyDefinition) (ops : List Operation) (i : CeremonyInstance) :
    CeremonyInstance := ops.foldl (fun i op => op.after definition i) i

variable {d : CeremonyDefinition} {i i' : CeremonyInstance}

/-- The session runs this definition and has not ended. -/
structure Active (d : CeremonyDefinition) (i : CeremonyInstance) : Prop where
  matching : i.matchesDefinition d = true
  running : d.isTerminalState i.currentState = false

theorem requireDefinition_ok {u : Unit} :
    i.requireDefinition d = .ok u ↔ i.matchesDefinition d = true := by
  simp [CeremonyInstance.requireDefinition]

theorem requireActive_ok {reason : String} {u : Unit} :
    i.requireActive d reason = .ok u ↔ Active d i := by
  simp only [CeremonyInstance.requireActive, except_bind_eq_ok, requireDefinition_ok, require_eq_ok,
    CeremonyInstance.isTerminal]
  constructor
  · rintro ⟨_, hm, ht⟩
    exact ⟨hm, by simpa [hm] using ht⟩
  · rintro ⟨hm, ht⟩
    exact ⟨(), hm, by simp [ht]⟩

theorem requireRole_ok {roleId : RoleId} {action : RoleAction} {u : Unit} :
    i.requireRole d roleId action = .ok u ↔
      i.matchesDefinition d = true ∧ d.roleAllows roleId action = true := by
  simp [CeremonyInstance.requireRole, requireDefinition_ok]

theorem requireDeclaredRole_ok {roleId : RoleId} {u : Unit} :
    i.requireDeclaredRole d roleId = .ok u ↔
      i.matchesDefinition d = true ∧ (d.role roleId).isSome = true := by
  simp [CeremonyInstance.requireDeclaredRole, requireDefinition_ok]

theorem requireHumanGuard_ok {guardName : GuardName} {refusal : String} {u : Unit} :
    CeremonyInstance.requireHumanGuard d guardName refusal = .ok u ↔
      ∃ guard, d.guards.get? guardName = some guard ∧ guard.condition = .humanApproval := by
  simp [CeremonyInstance.requireHumanGuard]

/-- A session whose agenda item became `item`, by a contribution. -/
def answered (interventionId : CeremonyInterventionId) (now : OffsetDateTime) (i : CeremonyInstance)
    (before after : List CeremonyIntervention) (item : CeremonyIntervention) : CeremonyInstance :=
  let i' := { i with interventions := before ++ item :: after }
  { i' with
    reasons := i.reasons ++ (i'.answersReason interventionId now).toList
    updatedAt := now }

/-- Everything an accepted call does, and everything it was checked against.
Each invariant of a session is a case analysis of this relation. -/
inductive Effect (d : CeremonyDefinition) (i : CeremonyInstance) :
    Operation → CeremonyInstance → Prop
  | startStep {roleId : Option RoleId} {stepId : StepId} {lease : StepLease}
      {now : OffsetDateTime} {step : CeremonyStep} {record : StepExecutionRecord}
      {attempt : StepAttempt} (active : Active d i)
      (allowed : ∀ r ∈ roleId, d.roleAllows r (.step stepId) = true)
      (hstep : d.step stepId = some step) (hstate : step.stateId = i.currentState)
      (hrecord : i.stepRecords.get? stepId = some record)
      (startable : record.canBeStartedAt now = true)
      (numbered : nextAttemptForStart record = .ok attempt)
      (within : step.retryPolicy.allowsAttempt attempt = true)
      (fresh : i.idempotencyKeys.contains lease.idempotencyKey = false) :
      Effect d i (.startStep roleId stepId lease now) { i with
        idempotencyKeys := OrdSet.add lease.idempotencyKey i.idempotencyKeys
        stepRecords := i.stepRecords.insert stepId (record.withStarted lease attempt)
        updatedAt := now }
  | applyStepResult {stepId : StepId} {result : StepResult} {now : OffsetDateTime}
      {step : CeremonyStep} {record : StepExecutionRecord}
      (matching : i.matchesDefinition d = true) (hstep : d.step stepId = some step)
      (hstate : step.stateId = i.currentState) (hrecord : i.stepRecords.get? stepId = some record)
      (executing : record.status = .inProgress) :
      Effect d i (.applyStepResult stepId result now) { i with
        stepRecords := i.stepRecords.insert stepId (record.withResult result)
        updatedAt := now }
  | approveGuard {guardName : GuardName} {approvedBy : RoleId} {approvedByKind : AuditActorKind}
      {now : OffsetDateTime} {guard : CeremonyGuard} {context : CeremonyContext}
      (active : Active d i) (hguard : d.guards.get? guardName = some guard)
      (human : guard.condition = .humanApproval) (declared : (d.role approvedBy).isSome = true)
      (hcontext : i.context.withGuardApproval guardName = .ok context) :
      Effect d i (.approveGuard guardName approvedBy approvedByKind now) { i with
        context := context
        guardApprovals := i.guardApprovals ++ [⟨guardName, approvedBy, approvedByKind, now⟩]
        updatedAt := now }
  | bindParticipant {roleId : RoleId} {specialty : Specialty} {now : OffsetDateTime}
      (active : Active d i) (declared : (d.role roleId).isSome = true) :
      Effect d i (.bindParticipant roleId specialty now) { i with
        participantBindings := i.participantBindings.insert roleId ⟨roleId, specialty, now⟩
        updatedAt := now }
  | deferGuard {guardName : GuardName} {content : CeremonyGuardDeferralContent}
      {deferredBy : RoleId} {deferredByKind : AuditActorKind} {now : OffsetDateTime}
      {guard : CeremonyGuard} (active : Active d i)
      (hguard : d.guards.get? guardName = some guard) (human : guard.condition = .humanApproval)
      (pending : i.context.isGuardApproved guardName = false)
      (required : ((d.availableTransitions i.currentState).any fun transition =>
        transition.requiredGuards.contains guardName) = true)
      (declared : (d.role deferredBy).isSome = true) :
      Effect d i (.deferGuard guardName content deferredBy deferredByKind now) { i with
        guardDeferrals := i.guardDeferrals ++ [⟨guardName, deferredBy, deferredByKind, content, now⟩]
        updatedAt := now }
  | requestIntervention {interventionId : CeremonyInterventionId} {roleId : RoleId}
      {kind : CeremonyInterventionKind} {target : CeremonyInterventionTarget}
      {content : CeremonyInterventionContent} {provenance : Option CeremonyInterventionProvenance}
      {now : OffsetDateTime} (active : Active d i)
      (allowed : d.roleAllows roleId .requestIntervention = true)
      (targeted : CeremonyInstance.requireInterventionTarget d target = .ok ())
      (sourced : ∀ p ∈ provenance, i.requireInterventionProvenance d roleId target p = .ok ())
      (fresh : ∀ item ∈ i.interventions, item.id ≠ interventionId) :
      Effect d i (.requestIntervention interventionId roleId kind target content provenance now)
        { i with
          interventions := i.interventions ++ [CeremonyIntervention.openWithProvenance
            interventionId kind roleId target content provenance now]
          updatedAt := now }
  | respond {interventionId : CeremonyInterventionId} {roleId : RoleId}
      {content : CeremonyInterventionContent} {now : OffsetDateTime}
      {before after : List CeremonyIntervention} {item : CeremonyIntervention} (active : Active d i)
      (allowed : d.roleAllows roleId .respondToIntervention = true)
      (hitem : i.interventions = before ++ item :: after) (hid : item.id = interventionId)
      (firstSuch : ∀ other ∈ before, other.id ≠ interventionId) (can : item.CanRespond roleId) :
      Effect d i (.respondToIntervention interventionId roleId content now)
        (answered interventionId now i before after { item with
          responses := item.responses ++ [⟨roleId, content, none, now⟩], updatedAt := now })
  | respondWithEvidence {interventionId : CeremonyInterventionId} {roleId : RoleId}
      {evidencePack : CeremonyEvidencePack} {content : CeremonyInterventionContent}
      {now : OffsetDateTime} {before after : List CeremonyIntervention}
      {item : CeremonyIntervention} (active : Active d i)
      (allowed : d.roleAllows roleId .respondToIntervention = true)
      (hitem : i.interventions = before ++ item :: after) (hid : item.id = interventionId)
      (firstSuch : ∀ other ∈ before, other.id ≠ interventionId) (can : item.CanRespond roleId) :
      Effect d i (.respondToInterventionWithEvidence interventionId roleId evidencePack now)
        (answered interventionId now i before after { item with
          responses := item.responses ++ [⟨roleId, content, some evidencePack, now⟩]
          updatedAt := now })
  | prepareEvidenceRequest {interventionId : CeremonyInterventionId} {roleId : RoleId}
      {sourceId : CeremonyEvidenceSourceId} {query : CeremonyInterventionContent}
      (active : Active d i) :
      Effect d i (.prepareEvidenceRequest interventionId roleId sourceId query) i
  | assertReason {roleId : RoleId} {fromRecord toRecord : CeremonyRecordRef}
      {kind : CeremonyReasonKind} {why : String} {confidence : MemoryConfidence}
      {now : OffsetDateTime} {reason : CeremonyReason} (matching : i.matchesDefinition d = true)
      (declared : (d.role roleId).isSome = true) (hfrom : i.requireRecord fromRecord = .ok ())
      (hto : i.requireRecord toRecord = .ok ())
      (entitled : i.requireAsserter roleId fromRecord kind = .ok ())
      (hreason : CeremonyReason.new fromRecord toRecord kind why confidence (some roleId) now =
        .ok reason) :
      Effect d i (.assertReason roleId fromRecord toRecord kind why confidence now) { i with
        reasons := i.reasons ++ [reason]
        updatedAt := now }
  | closeIntervention {interventionId : CeremonyInterventionId} {roleId : RoleId}
      {now : OffsetDateTime} {before after : List CeremonyIntervention}
      {item : CeremonyIntervention} (active : Active d i)
      (allowed : d.roleAllows roleId .requestIntervention = true)
      (hitem : i.interventions = before ++ item :: after) (hid : item.id = interventionId)
      (firstSuch : ∀ other ∈ before, other.id ≠ interventionId) (isOpen : item.status = .opened)
      (requester : roleId = item.requestedBy) :
      Effect d i (.closeIntervention interventionId roleId now) { i with
        interventions := before ++
          { item with status := .closed, updatedAt := now, closedAt := some now } :: after
        updatedAt := now }
  | applyTransition {roleId : Option RoleId} {trigger : TransitionTrigger} {now : OffsetDateTime}
      {transition : CeremonyTransition} (active : Active d i)
      (allowed : ∀ r ∈ roleId, d.roleAllows r (.transition trigger) = true)
      (htransition : d.transitionForTrigger i.currentState trigger = some transition)
      (guarded : d.guardsAreSatisfied transition i.stepRecords i.context = true) :
      Effect d i (.applyTransition roleId trigger now) { i with
        currentState := transition.toState
        transitions := i.transitions ++
          [⟨trigger, i.currentState, transition.toState, roleId, now⟩]
        updatedAt := now
        completedAt := if d.isTerminalState transition.toState then some now else i.completedAt }

theorem startStep_effect {roleId : Option RoleId} {stepId : StepId} {lease : StepLease}
    {now : OffsetDateTime} {attempt : StepAttempt}
    (allowed : ∀ r ∈ roleId, d.roleAllows r (.step stepId) = true)
    (h : Succeeds (CeremonyInstance.startStep d stepId lease now) i attempt i') :
    Effect d i (.startStep roleId stepId lease now) i' ∧
      ∃ record, i.stepRecords.get? stepId = some record ∧
        nextAttemptForStart record = .ok attempt := by
  simp only [CeremonyInstance.startStep, succeeds_bind, succeeds_check, succeeds_modify,
    succeeds_pure, requireActive_ok, okOr_eq_ok, require_eq_ok, decide_eq_true_eq,
    Bool.not_eq_true'] at h
  obtain ⟨_, _, ⟨active, rfl⟩, step, _, ⟨hstep, rfl⟩, _, _, ⟨hstate, rfl⟩, record, _,
    ⟨hrecord, rfl⟩, _, _, ⟨startable, rfl⟩, _, _, ⟨numbered, rfl⟩, _, _, ⟨hwithin, rfl⟩, _, _,
    ⟨fresh, rfl⟩, _, _, rfl, rfl, rfl⟩ := h
  exact ⟨.startStep active allowed hstep hstate hrecord startable numbered hwithin fresh,
    record, hrecord, numbered⟩

theorem startStepAs_effect {roleId : RoleId} {stepId : StepId} {lease : StepLease}
    {now : OffsetDateTime} {attempt : StepAttempt}
    (h : Succeeds (CeremonyInstance.startStepAs d roleId stepId lease now) i attempt i') :
    Effect d i (.startStep (some roleId) stepId lease now) i' ∧
      ∃ record, i.stepRecords.get? stepId = some record ∧
        nextAttemptForStart record = .ok attempt := by
  simp only [CeremonyInstance.startStepAs, succeeds_bind, succeeds_check, requireRole_ok] at h
  obtain ⟨_, _, ⟨⟨-, allowed⟩, rfl⟩, h⟩ := h
  refine startStep_effect ?_ h
  intro r hr
  cases hr
  exact allowed

theorem applyStepResult_effect {stepId : StepId} {result : StepResult} {now : OffsetDateTime}
    {u : Unit} (h : Succeeds (CeremonyInstance.applyStepResult d stepId result now) i u i') :
    Effect d i (.applyStepResult stepId result now) i' := by
  simp only [CeremonyInstance.applyStepResult, succeeds_bind, succeeds_check, succeeds_modify,
    requireDefinition_ok, okOr_eq_ok, require_eq_ok, decide_eq_true_eq] at h
  obtain ⟨_, _, ⟨matching, rfl⟩, step, _, ⟨hstep, rfl⟩, _, _, ⟨hstate, rfl⟩, record, _,
    ⟨hrecord, rfl⟩, _, _, ⟨executing, rfl⟩, rfl⟩ := h
  exact .applyStepResult matching hstep hstate hrecord executing

theorem approveGuard_effect {guardName : GuardName} {approvedBy : RoleId}
    {approvedByKind : AuditActorKind} {now : OffsetDateTime} {u : Unit}
    (h : Succeeds (CeremonyInstance.approveGuard d guardName approvedBy approvedByKind now) i u i') :
    Effect d i (.approveGuard guardName approvedBy approvedByKind now) i' := by
  simp only [CeremonyInstance.approveGuard, succeeds_bind, succeeds_check, succeeds_modify,
    requireActive_ok, requireHumanGuard_ok, requireDeclaredRole_ok] at h
  obtain ⟨_, _, ⟨active, rfl⟩, _, _, ⟨⟨guard, hguard, human⟩, rfl⟩, _, _, ⟨⟨-, declared⟩, rfl⟩,
    context, _, ⟨hcontext, rfl⟩, rfl⟩ := h
  exact .approveGuard active hguard human declared hcontext

theorem bindParticipant_effect {roleId : RoleId} {specialty : Specialty} {now : OffsetDateTime}
    {u : Unit} (h : Succeeds (CeremonyInstance.bindParticipant d roleId specialty now) i u i') :
    Effect d i (.bindParticipant roleId specialty now) i' := by
  simp only [CeremonyInstance.bindParticipant, succeeds_bind, succeeds_check, succeeds_modify,
    requireActive_ok, require_eq_ok] at h
  obtain ⟨_, _, ⟨active, rfl⟩, _, _, ⟨declared, rfl⟩, rfl⟩ := h
  exact .bindParticipant active declared

theorem deferGuard_effect {guardName : GuardName} {content : CeremonyGuardDeferralContent}
    {deferredBy : RoleId} {deferredByKind : AuditActorKind} {now : OffsetDateTime} {u : Unit}
    (h : Succeeds
      (CeremonyInstance.deferGuard d guardName content deferredBy deferredByKind now) i u i') :
    Effect d i (.deferGuard guardName content deferredBy deferredByKind now) i' := by
  simp only [CeremonyInstance.deferGuard, succeeds_bind, succeeds_check, succeeds_modify,
    requireActive_ok, requireHumanGuard_ok, requireDeclaredRole_ok, require_eq_ok,
    Bool.not_eq_true'] at h
  obtain ⟨_, _, ⟨active, rfl⟩, _, _, ⟨⟨guard, hguard, human⟩, rfl⟩, _, _, ⟨pending, rfl⟩, _, _,
    ⟨required, rfl⟩, _, _, ⟨⟨-, declared⟩, rfl⟩, rfl⟩ := h
  exact .deferGuard active hguard human pending required declared

theorem requestIntervention_effect {interventionId : CeremonyInterventionId} {roleId : RoleId}
    {kind : CeremonyInterventionKind} {target : CeremonyInterventionTarget}
    {content : CeremonyInterventionContent} {provenance : Option CeremonyInterventionProvenance}
    {now : OffsetDateTime} {u : Unit}
    (h : Succeeds (CeremonyInstance.requestInterventionWithProvenanceAs d interventionId roleId kind
      target content provenance now) i u i') :
    Effect d i (.requestIntervention interventionId roleId kind target content provenance now)
      i' := by
  simp only [CeremonyInstance.requestInterventionWithProvenanceAs, succeeds_bind, succeeds_check,
    succeeds_modify, requireActive_ok, requireRole_ok, require_eq_ok, Bool.not_eq_true',
    List.any_eq_false, decide_eq_true_eq] at h
  obtain ⟨_, _, ⟨active, rfl⟩, _, _, ⟨⟨-, allowed⟩, rfl⟩, _, _, ⟨targeted, rfl⟩, _, _,
    ⟨sourced, rfl⟩, _, _, ⟨fresh, rfl⟩, rfl⟩ := h
  refine .requestIntervention active allowed targeted ?_ fresh
  intro p hp
  cases hp
  exact sourced

theorem onIntervention_succeeds {interventionId : CeremonyInterventionId}
    {method : Update DomainError CeremonyIntervention Unit} {u : Unit}
    (h : Succeeds (CeremonyInstance.onIntervention interventionId method) i u i') :
    ∃ before item after item', i.interventions = before ++ item :: after ∧
      item.id = interventionId ∧ (∀ other ∈ before, other.id ≠ interventionId) ∧
      Succeeds method item u item' ∧ i' = { i with interventions := before ++ item' :: after } := by
  rw [CeremonyInstance.onIntervention, succeeds_within] at h
  obtain ⟨before, item, after, item', hitem, -, hfirst, hid, hm, rfl⟩ := h
  refine ⟨before, item, after, item', hitem, by simpa using hid, ?_, hm, rfl⟩
  intro other ho
  simpa using hfirst other ho

theorem respond_effect {interventionId : CeremonyInterventionId} {roleId : RoleId}
    {content : CeremonyInterventionContent} {now : OffsetDateTime} {u : Unit}
    (h : Succeeds
      (CeremonyInstance.respondToInterventionAs d interventionId roleId content now) i u i') :
    Effect d i (.respondToIntervention interventionId roleId content now) i' := by
  simp only [CeremonyInstance.respondToInterventionAs, succeeds_bind, succeeds_check,
    succeeds_modify, requireActive_ok, requireRole_ok] at h
  obtain ⟨_, _, ⟨active, rfl⟩, _, _, ⟨⟨-, allowed⟩, rfl⟩, _, _, hon, _, _, rfl, rfl⟩ := h
  obtain ⟨before, item, after, item', hitem, hid, hfirst, hm, rfl⟩ := onIntervention_succeeds hon
  obtain ⟨can, rfl⟩ := CeremonyIntervention.respond_succeeds hm
  exact .respond active allowed hitem hid hfirst can

theorem respondWithEvidence_effect {interventionId : CeremonyInterventionId} {roleId : RoleId}
    {evidencePack : CeremonyEvidencePack} {now : OffsetDateTime} {u : Unit}
    (h : Succeeds (CeremonyInstance.respondToInterventionWithEvidenceAs d interventionId roleId
      evidencePack now) i u i') :
    Effect d i (.respondToInterventionWithEvidence interventionId roleId evidencePack now) i' := by
  simp only [CeremonyInstance.respondToInterventionWithEvidenceAs, succeeds_bind, succeeds_check,
    succeeds_modify, requireActive_ok, requireRole_ok] at h
  obtain ⟨_, _, ⟨active, rfl⟩, _, _, ⟨⟨-, allowed⟩, rfl⟩, _, _, hon, _, _, rfl, rfl⟩ := h
  obtain ⟨before, item, after, item', hitem, hid, hfirst, hm, rfl⟩ := onIntervention_succeeds hon
  obtain ⟨content, can, rfl⟩ := CeremonyIntervention.respondWithEvidence_succeeds hm
  exact .respondWithEvidence active allowed hitem hid hfirst can

theorem assertReason_effect {roleId : RoleId} {fromRecord toRecord : CeremonyRecordRef}
    {kind : CeremonyReasonKind} {why : String} {confidence : MemoryConfidence}
    {now : OffsetDateTime} {u : Unit}
    (h : Succeeds (CeremonyInstance.assertReasonAs d roleId fromRecord toRecord kind why confidence
      now) i u i') :
    Effect d i (.assertReason roleId fromRecord toRecord kind why confidence now) i' := by
  simp only [CeremonyInstance.assertReasonAs, succeeds_bind, succeeds_check, succeeds_modify,
    requireDeclaredRole_ok] at h
  obtain ⟨_, _, ⟨⟨matching, declared⟩, rfl⟩, _, _, ⟨hfrom, rfl⟩, _, _, ⟨hto, rfl⟩, _, _,
    ⟨entitled, rfl⟩, reason, _, ⟨hreason, rfl⟩, rfl⟩ := h
  exact .assertReason matching declared hfrom hto entitled hreason

theorem closeIntervention_effect {interventionId : CeremonyInterventionId} {roleId : RoleId}
    {now : OffsetDateTime} {u : Unit}
    (h : Succeeds (CeremonyInstance.closeInterventionAs d interventionId roleId now) i u i') :
    Effect d i (.closeIntervention interventionId roleId now) i' := by
  simp only [CeremonyInstance.closeInterventionAs, succeeds_bind, succeeds_check, succeeds_modify,
    requireActive_ok, requireRole_ok] at h
  obtain ⟨_, _, ⟨active, rfl⟩, _, _, ⟨⟨-, allowed⟩, rfl⟩, _, _, hon, rfl⟩ := h
  obtain ⟨before, item, after, item', hitem, hid, hfirst, hm, rfl⟩ := onIntervention_succeeds hon
  obtain ⟨isOpen, requester, rfl⟩ := CeremonyIntervention.close_succeeds hm
  exact .closeIntervention active allowed hitem hid hfirst isOpen requester

theorem moveOn_effect {roleId : Option RoleId} {trigger : TransitionTrigger}
    {now : OffsetDateTime} {state : StateId}
    (allowed : ∀ r ∈ roleId, d.roleAllows r (.transition trigger) = true)
    (h : Succeeds (CeremonyInstance.moveOn d trigger roleId now) i state i') :
    Effect d i (.applyTransition roleId trigger now) i' ∧ state = i'.currentState := by
  simp only [CeremonyInstance.moveOn, succeeds_bind, succeeds_check, succeeds_modify,
    succeeds_pure, requireActive_ok, okOr_eq_ok, require_eq_ok] at h
  obtain ⟨_, _, ⟨active, rfl⟩, transition, _, ⟨htransition, rfl⟩, _, _, ⟨guarded, rfl⟩, _, _, rfl,
    rfl, rfl⟩ := h
  exact ⟨.applyTransition active allowed htransition guarded, rfl⟩

theorem applyTransitionAs_effect {roleId : RoleId} {trigger : TransitionTrigger}
    {now : OffsetDateTime} {state : StateId}
    (h : Succeeds (CeremonyInstance.applyTransitionAs d roleId trigger now) i state i') :
    Effect d i (.applyTransition (some roleId) trigger now) i' ∧ state = i'.currentState := by
  simp only [CeremonyInstance.applyTransitionAs, succeeds_bind, succeeds_check,
    requireRole_ok] at h
  obtain ⟨_, _, ⟨⟨-, allowed⟩, rfl⟩, h⟩ := h
  refine moveOn_effect ?_ h
  intro r hr
  cases hr
  exact allowed

theorem effect_of_succeeds {op : Operation} {u : Unit} (h : Succeeds (op.run d) i u i') :
    Effect d i op i' := by
  cases op with
  | startStep roleId stepId lease now =>
    cases roleId with
    | none =>
      simp only [Operation.run, succeeds_bind, succeeds_pure] at h
      obtain ⟨attempt, _, h, -, rfl⟩ := h
      exact (startStep_effect (by simp) h).1
    | some roleId =>
      simp only [Operation.run, succeeds_bind, succeeds_pure] at h
      obtain ⟨attempt, _, h, -, rfl⟩ := h
      exact (startStepAs_effect h).1
  | applyStepResult => exact applyStepResult_effect h
  | approveGuard => exact approveGuard_effect h
  | bindParticipant => exact bindParticipant_effect h
  | deferGuard => exact deferGuard_effect h
  | requestIntervention => exact requestIntervention_effect h
  | respondToIntervention => exact respond_effect h
  | respondToInterventionWithEvidence => exact respondWithEvidence_effect h
  | prepareEvidenceRequest interventionId roleId sourceId query =>
    simp only [Operation.run, succeeds_bind, succeeds_check, succeeds_pure,
      CeremonyInstance.prepareEvidenceRequestAs, except_bind_eq_ok, requireActive_ok] at h
    obtain ⟨_, _, ⟨⟨_, active, -⟩, rfl⟩, -, rfl⟩ := h
    exact .prepareEvidenceRequest active
  | assertReason => exact assertReason_effect h
  | closeIntervention => exact closeIntervention_effect h
  | applyTransition roleId trigger now =>
    cases roleId with
    | none =>
      simp only [Operation.run, CeremonyInstance.applyTransition, succeeds_bind,
        succeeds_pure] at h
      obtain ⟨state, _, h, -, rfl⟩ := h
      exact (moveOn_effect (by simp) h).1
    | some roleId =>
      simp only [Operation.run, succeeds_bind, succeeds_pure] at h
      obtain ⟨state, _, h, -, rfl⟩ := h
      exact (applyTransitionAs_effect h).1

theorem atomic_startStep (stepId : StepId) (lease : StepLease) (now : OffsetDateTime) :
    Atomic (CeremonyInstance.startStep d stepId lease now) := by
  unfold CeremonyInstance.startStep
  refine (readOnly_check _).bind fun _ => (readOnly_check _).bind fun _ =>
    (readOnly_check _).bind fun _ => (readOnly_check _).bind fun _ =>
    (readOnly_check _).bind fun _ => (readOnly_check _).bind fun _ =>
    (readOnly_check _).bind fun _ => (readOnly_check _).bind fun _ => ?_
  exact (Total.bind (total_modify _) fun _ => total_pure _).atomic

theorem atomic_onIntervention {interventionId : CeremonyInterventionId}
    {method : Update DomainError CeremonyIntervention Unit} (h : Atomic method) :
    Atomic (CeremonyInstance.onIntervention interventionId method) :=
  Atomic.within h fun _ => rfl

theorem atomic_moveOn (trigger : TransitionTrigger) (roleId : Option RoleId)
    (now : OffsetDateTime) : Atomic (CeremonyInstance.moveOn d trigger roleId now) := by
  unfold CeremonyInstance.moveOn
  refine (readOnly_check _).bind fun _ => (readOnly_check _).bind fun _ =>
    (readOnly_check _).bind fun _ => ?_
  exact (Total.bind (total_modify _) fun _ => total_pure _).atomic

theorem atomic_run (d : CeremonyDefinition) (op : Operation) : Atomic (op.run d) := by
  have answers (id : CeremonyInterventionId) (now : OffsetDateTime) :
      Total (do
        modify (CeremonyInstance.recordThatItAnswers id now)
        modify fun self => { self with updatedAt := now } :
          Update DomainError CeremonyInstance Unit) :=
    Total.bind (total_modify _) fun _ => total_modify _
  cases op with
  | startStep roleId stepId lease now =>
    cases roleId with
    | none => exact (atomic_startStep _ _ _).bind fun _ => total_pure _
    | some roleId =>
      refine Atomic.bind ?_ fun _ => total_pure _
      exact (readOnly_check _).bind fun _ => atomic_startStep _ _ _
  | applyStepResult =>
    exact (readOnly_check _).bind fun _ => (readOnly_check _).bind fun _ =>
      (readOnly_check _).bind fun _ => (readOnly_check _).bind fun _ =>
      (readOnly_check _).bind fun _ => (total_modify _).atomic
  | approveGuard =>
    exact (readOnly_check _).bind fun _ => (readOnly_check _).bind fun _ =>
      (readOnly_check _).bind fun _ => (readOnly_check _).bind fun _ => (total_modify _).atomic
  | bindParticipant =>
    exact (readOnly_check _).bind fun _ => (readOnly_check _).bind fun _ => (total_modify _).atomic
  | deferGuard =>
    exact (readOnly_check _).bind fun _ => (readOnly_check _).bind fun _ =>
      (readOnly_check _).bind fun _ => (readOnly_check _).bind fun _ =>
      (readOnly_check _).bind fun _ => (total_modify _).atomic
  | requestIntervention =>
    exact (readOnly_check _).bind fun _ => (readOnly_check _).bind fun _ =>
      (readOnly_check _).bind fun _ => (readOnly_check _).bind fun _ =>
      (readOnly_check _).bind fun _ => (total_modify _).atomic
  | respondToIntervention interventionId roleId content now =>
    exact (readOnly_check _).bind fun _ => (readOnly_check _).bind fun _ =>
      (atomic_onIntervention (CeremonyIntervention.atomic_respond _ _ _)).bind fun _ => answers _ _
  | respondToInterventionWithEvidence interventionId roleId evidencePack now =>
    exact (readOnly_check _).bind fun _ => (readOnly_check _).bind fun _ =>
      (atomic_onIntervention (CeremonyIntervention.atomic_respondWithEvidence _ _ _)).bind
        fun _ => answers _ _
  | prepareEvidenceRequest =>
    exact (readOnly_check _).bind fun _ => (total_pure _).atomic
  | assertReason =>
    exact (readOnly_check _).bind fun _ => (readOnly_check _).bind fun _ =>
      (readOnly_check _).bind fun _ => (readOnly_check _).bind fun _ =>
      (readOnly_check _).bind fun _ => (total_modify _).atomic
  | closeIntervention =>
    exact (readOnly_check _).bind fun _ => (readOnly_check _).bind fun _ =>
      (atomic_onIntervention (CeremonyIntervention.atomic_close _ _)).bind fun _ => total_modify _
  | applyTransition roleId trigger now =>
    cases roleId with
    | none => exact (atomic_moveOn _ _ _).bind fun _ => total_pure _
    | some roleId =>
      refine Atomic.bind ?_ fun _ => total_pure _
      exact (readOnly_check _).bind fun _ => atomic_moveOn _ _ _

theorem after_cases (d : CeremonyDefinition) (op : Operation) (i : CeremonyInstance) :
    (∃ e, op.answer d i = .error e ∧ op.after d i = i) ∨
      op.answer d i = .ok () ∧ Effect d i op (op.after d i) := by
  rcases (atomic_run d op).outcome i with ⟨e, he⟩ | ⟨u, hu⟩
  · exact .inl ⟨e, congrArg Prod.fst he, congrArg Prod.snd he⟩
  · exact .inr ⟨congrArg Prod.fst hu, effect_of_succeeds hu⟩

theorem runAll_keeps {P : CeremonyInstance → Prop}
    (step : ∀ i op i', P i → Effect d i op i' → P i') (ops : List Operation)
    (start : P i) : P (runAll d ops i) := by
  induction ops generalizing i with
  | nil => exact start
  | cons op ops ih =>
    apply ih
    change P (op.after d i)
    rcases after_cases d op i with ⟨_, -, he⟩ | ⟨-, he⟩
    · rwa [he]
    · exact step i op _ start he

theorem runAll_append (ops later : List Operation) (i : CeremonyInstance) :
    runAll d (ops ++ later) i = runAll d later (runAll d ops i) := by
  simp [runAll]

theorem runAll_concat (ops : List Operation) (op : Operation) (i : CeremonyInstance) :
    runAll d (ops ++ [op]) i = op.after d (runAll d ops i) := by
  simp [runAll]

theorem Effect.identity {op : Operation} (h : Effect d i op i') :
    i'.id = i.id ∧ i'.matchesDefinition d = i.matchesDefinition d ∧
      i'.createdAt = i.createdAt ∧ i'.boundDefinition = i.boundDefinition := by
  cases h <;> exact ⟨rfl, rfl, rfl, rfl⟩

def ident (i : CeremonyInstance) :
    CeremonyId × CeremonyName × CeremonyVersion × Option CeremonyDefinitionDigest :=
  (i.id, i.definitionName, i.definitionVersion, i.boundDefinition)

theorem Effect.ident {op : Operation} (h : Effect d i op i') : ident i' = ident i := by
  cases h <;> rfl

theorem Effect.matching {op : Operation} (h : Effect d i op i') : i.matchesDefinition d = true := by
  cases h with
  | applyStepResult matching => exact matching
  | assertReason matching => exact matching
  | startStep active | approveGuard active | bindParticipant active | deferGuard active
  | requestIntervention active | respond active | respondWithEvidence active
  | prepareEvidenceRequest active | closeIntervention active | applyTransition active =>
    exact active.matching

@[simp] theorem opened_matches (id : CeremonyId) (d : CeremonyDefinition)
    (context : CeremonyContext) (now : OffsetDateTime) (bound : Option CeremonyDefinitionDigest) :
    (CeremonyInstance.opened id d context now bound).matchesDefinition d = true := by
  simp [CeremonyInstance.opened, CeremonyInstance.matchesDefinition]

theorem Effect.moves {op : Operation} (h : Effect d i op i') :
    (i'.transitions = i.transitions ∧ i'.currentState = i.currentState ∧
        i'.completedAt = i.completedAt) ∨
      ∃ roleId trigger now, op = .applyTransition roleId trigger now := by
  cases h with
  | applyTransition => exact .inr ⟨_, _, _, rfl⟩
  | _ => exact .inl ⟨rfl, rfl, rfl⟩

theorem Effect.records {op : Operation} (h : Effect d i op i') :
    (i'.stepRecords = i.stepRecords ∧ i'.idempotencyKeys = i.idempotencyKeys) ∨
      (∃ roleId stepId lease now, op = .startStep roleId stepId lease now) ∨
      ∃ stepId result now, op = .applyStepResult stepId result now := by
  cases h with
  | startStep => exact .inr (.inl ⟨_, _, _, _, rfl⟩)
  | applyStepResult => exact .inr (.inr ⟨_, _, _, rfl⟩)
  | _ => exact .inl ⟨rfl, rfl⟩

end Choreographer.Operations
