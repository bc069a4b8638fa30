import Choreographer.Agenda
import Choreographer.Definition

namespace Choreographer.Instance

open Choreographer.Lib.SortedMaps Choreographer.Lib.Updates
open Choreographer.Texts Choreographer.Values Choreographer.Steps Choreographer.DefinitionParts
open Choreographer.Definition Choreographer.Agenda

abbrev CeremonyDefinitionDigest := Digest

structure CeremonyGuardApproval where
  guardName : GuardName
  approvedBy : RoleId
  approvedByKind : AuditActorKind
  approvedAt : OffsetDateTime
deriving DecidableEq

abbrev DeferralStatement := Text ⟨"ceremony_guard_deferral.statement", 4096, isProse, prose_fits⟩
abbrev DeferralReason := Text ⟨"ceremony_guard_deferral.reason", 4096, isProse, prose_fits⟩
abbrev ReconsiderationCondition :=
  Text ⟨"ceremony_guard_deferral.reconsider_when", 1024, isProse, by decide⟩

structure CeremonyGuardDeferralContent where
  statement : DeferralStatement
  reason : DeferralReason
  reconsiderWhen : List ReconsiderationCondition
  nonempty : reconsiderWhen ≠ []
deriving DecidableEq

structure CeremonyGuardDeferral where
  guardName : GuardName
  deferredBy : RoleId
  deferredByKind : AuditActorKind
  content : CeremonyGuardDeferralContent
  deferredAt : OffsetDateTime
deriving DecidableEq

structure CeremonyTransitionRecord where
  trigger : TransitionTrigger
  fromState : StateId
  toState : StateId
  appliedBy : Option RoleId
  appliedAt : OffsetDateTime
deriving DecidableEq

structure CeremonyParticipantBinding where
  roleId : RoleId
  specialty : Specialty
  boundAt : OffsetDateTime
deriving DecidableEq

structure CeremonyInstance where
  id : CeremonyId
  definitionName : CeremonyName
  definitionVersion : CeremonyVersion
  currentState : StateId
  stepRecords : OrdMap StepId StepExecutionRecord
  interventions : List CeremonyIntervention
  guardDeferrals : List CeremonyGuardDeferral
  guardApprovals : List CeremonyGuardApproval
  transitions : List CeremonyTransitionRecord
  reasons : List CeremonyReason
  participantBindings : OrdMap RoleId CeremonyParticipantBinding
  context : CeremonyContext
  idempotencyKeys : OrdSet IdempotencyKey
  createdAt : OffsetDateTime
  updatedAt : OffsetDateTime
  completedAt : Option OffsetDateTime
  boundDefinition : Option CeremonyDefinitionDigest

/-- A definition fixed to its content by a digest. -/
structure PublishedCeremonyDefinition where
  definition : CeremonyDefinition
  digest : CeremonyDefinitionDigest

namespace CeremonyInstance

def opened (id : CeremonyId) (definition : CeremonyDefinition) (context : CeremonyContext)
    (now : OffsetDateTime) (boundDefinition : Option CeremonyDefinitionDigest) :
    CeremonyInstance where
  id := id
  definitionName := definition.name
  definitionVersion := definition.version
  currentState := definition.initialStateId
  stepRecords := OrdMap.ofList
    (definition.steps.keys.map fun stepId => (stepId, StepExecutionRecord.pending))
  interventions := []
  guardDeferrals := []
  guardApprovals := []
  transitions := []
  reasons := []
  participantBindings := OrdMap.empty
  context := context
  idempotencyKeys := OrdMap.empty
  createdAt := now
  updatedAt := now
  completedAt := none
  boundDefinition := boundDefinition

def start (id : CeremonyId) (definition : CeremonyDefinition) (context : CeremonyContext)
    (now : OffsetDateTime) : CeremonyInstance := opened id definition context now none

def startBound (id : CeremonyId) (published : PublishedCeremonyDefinition)
    (context : CeremonyContext) (now : OffsetDateTime) : CeremonyInstance :=
  opened id published.definition context now (some published.digest)

def stepRecord (self : CeremonyInstance) (stepId : StepId) : Option StepExecutionRecord :=
  self.stepRecords.get? stepId

def intervention (self : CeremonyInstance) (interventionId : CeremonyInterventionId) :
    Option CeremonyIntervention :=
  self.interventions.find? fun intervention => intervention.id = interventionId

def boundSpecialty (self : CeremonyInstance) (roleId : RoleId) : Option Specialty :=
  (self.participantBindings.get? roleId).map CeremonyParticipantBinding.specialty

def matchesDefinition (self : CeremonyInstance) (definition : CeremonyDefinition) : Bool :=
  self.definitionName = definition.name && self.definitionVersion = definition.version

def isTerminal (self : CeremonyInstance) (definition : CeremonyDefinition) : Bool :=
  self.matchesDefinition definition && definition.isTerminalState self.currentState

def isCompleted (self : CeremonyInstance) (definition : CeremonyDefinition) : Bool :=
  self.isTerminal definition && self.completedAt.isSome

section Checks

variable (self : CeremonyInstance) (definition : CeremonyDefinition)

def requireDefinition : Except DomainError Unit :=
  require (self.matchesDefinition definition)
    (.invariantViolated "ceremony instance definition mismatch")

def requireActive (terminalReason : String) : Except DomainError Unit := do
  self.requireDefinition definition
  require (!self.isTerminal definition) (.invariantViolated terminalReason)

def requireDeclaredRole (roleId : RoleId) : Except DomainError Unit := do
  self.requireDefinition definition
  require (definition.role roleId).isSome (.notFound "ceremony_role")

def requireRole (roleId : RoleId) (action : RoleAction) : Except DomainError Unit := do
  self.requireDefinition definition
  require (definition.roleAllows roleId action)
    (.invariantViolated "ceremony role is not allowed to perform action")

/-- Every targeted role is declared and may respond; the first that is not decides. -/
def requireTargetRoles : List RoleId → Except DomainError Unit
  | [] => .ok ()
  | roleId :: rest => do
    require (definition.role roleId).isSome (.notFound "ceremony_intervention.target_role")
    require (definition.roleAllows roleId .respondToIntervention)
      (.invariantViolated "target role cannot respond to ceremony interventions")
    requireTargetRoles rest

def requireInterventionTarget (target : CeremonyInterventionTarget) : Except DomainError Unit :=
  match target.roleIds with
  | none => .ok ()
  | some roleIds => requireTargetRoles definition roleIds.keys

def requireInterventionProvenance (requestedBy : RoleId) (target : CeremonyInterventionTarget)
    (provenance : CeremonyInterventionProvenance) : Except DomainError Unit := do
  let source ← okOr (self.intervention provenance.sourceInterventionId)
    (.notFound "ceremony_intervention.provenance_source")
  require (source.requestedBy = requestedBy)
    (.invariantViolated "only the source requester can select an intervention response")
  require (source.responses.any fun response => response.roleId = provenance.sourceResponseRoleId)
    (.notFound "ceremony_intervention.provenance_response")
  require (definition.role provenance.selectedRoleId).isSome
    (.notFound "ceremony_intervention.provenance_selected_role")
  require (definition.roleAllows provenance.selectedRoleId .respondToIntervention)
    (.invariantViolated "selected intervention role cannot respond")
  require (target.accepts provenance.selectedRoleId)
    (.invariantViolated "intervention target does not include the selected role")

def authorOf : CeremonyRecordRef → Option RoleId
  | .step _ => none
  | .agendaItem agendaItem =>
    (self.intervention agendaItem).map CeremonyIntervention.requestedBy
  | .contribution agendaItem ordinal => do
    let item ← self.intervention agendaItem
    let response ← item.responses[ordinal.val]?
    pure response.roleId
  | .guardDecision guardName =>
    ((self.guardApprovals.find? fun approval => approval.guardName = guardName).map
      CeremonyGuardApproval.approvedBy).or
      ((self.guardDeferrals.find? fun deferral => deferral.guardName = guardName).map
        CeremonyGuardDeferral.deferredBy)
  | .transition ordinal => do
    let record ← self.transitions[ordinal.val - 1]?
    record.appliedBy

def requireRecord (record : CeremonyRecordRef) : Except DomainError Unit :=
  require
    (match record with
      | .step stepId => self.stepRecords.contains stepId
      | .agendaItem agendaItem => (self.intervention agendaItem).isSome
      | .contribution agendaItem ordinal =>
        (self.intervention agendaItem).any fun item => ordinal.val < item.responses.length
      | .guardDecision guardName =>
        (self.guardApprovals.any fun approval => approval.guardName = guardName) ||
          self.guardDeferrals.any fun deferral => deferral.guardName = guardName
      | .transition ordinal => 1 ≤ ordinal.val && ordinal.val ≤ self.transitions.length)
    (.notFound "ceremony_record")

def requireAsserter (roleId : RoleId) (fromRecord : CeremonyRecordRef) (kind : CeremonyReasonKind) :
    Except DomainError Unit :=
  match kind.asserter with
  | .theEngine => .error (.invariantViolated
      ("this kind of reason states the shape of the session, not a judgement, " ++
        "and only the engine may assert it"))
  | .itsAuthor => require (self.authorOf fromRecord = some roleId) (.invariantViolated
      "only whoever produced something may say why they decided it or how they did it")
  | .anySeat => .ok ()

def requireHumanGuard (guardName : GuardName) (refusal : String) : Except DomainError Unit := do
  let guard ← okOr (definition.guards.get? guardName) (.notFound "ceremony_guard")
  require (guard.condition = .humanApproval) (.invariantViolated refusal)

end Checks

section Operations

variable (definition : CeremonyDefinition)

def startStep (stepId : StepId) (lease : StepLease) (now : OffsetDateTime) :
    Update DomainError CeremonyInstance StepAttempt := do
  check fun self => self.requireActive definition "terminal ceremony instances cannot start steps"
  let step ← check fun _ => okOr (definition.step stepId) (.notFound "ceremony_instance.step")
  check fun self => require (step.stateId = self.currentState)
    (.invalidTransition "ceremony_instance.current_state" "ceremony_step.state")
  let record ← check fun self => okOr (self.stepRecords.get? stepId)
    (.notFound "ceremony_instance.step_record")
  check fun _ => require (record.canBeStartedAt now)
    (.invariantViolated "step lease is still active")
  let nextAttempt ← check fun _ => nextAttemptForStart record
  check fun _ => require (step.retryPolicy.allowsAttempt nextAttempt)
    (.invariantViolated "step retry policy exhausted")
  check fun self => require (!self.idempotencyKeys.contains lease.idempotencyKey)
    (.alreadyExists "ceremony_instance.idempotency_key")
  modify fun self => { self with
    idempotencyKeys := OrdSet.add lease.idempotencyKey self.idempotencyKeys
    stepRecords := self.stepRecords.insert stepId (record.withStarted lease nextAttempt)
    updatedAt := now }
  pure nextAttempt

def startStepAs (roleId : RoleId) (stepId : StepId) (lease : StepLease) (now : OffsetDateTime) :
    Update DomainError CeremonyInstance StepAttempt := do
  check fun self => self.requireRole definition roleId (.step stepId)
  startStep definition stepId lease now

def applyStepResult (stepId : StepId) (result : StepResult) (now : OffsetDateTime) :
    Update DomainError CeremonyInstance Unit := do
  check fun self => self.requireDefinition definition
  let step ← check fun _ => okOr (definition.step stepId) (.notFound "ceremony_instance.step")
  check fun self => require (step.stateId = self.currentState)
    (.invalidTransition "ceremony_instance.current_state" "ceremony_step.state")
  let record ← check fun self => okOr (self.stepRecords.get? stepId)
    (.notFound "ceremony_instance.step_record")
  check fun _ => require (record.status = .inProgress)
    (.invariantViolated "step result requires an in-progress step")
  modify fun self => { self with
    stepRecords := self.stepRecords.insert stepId (record.withResult result)
    updatedAt := now }

def approveGuard (guardName : GuardName) (approvedBy : RoleId) (approvedByKind : AuditActorKind)
    (now : OffsetDateTime) : Update DomainError CeremonyInstance Unit := do
  check fun self => self.requireActive definition
    "terminal ceremony instances cannot approve guards"
  check fun _ => requireHumanGuard definition guardName
    "only human approval guards can be approved"
  check fun self => self.requireDeclaredRole definition approvedBy
  let context ← check fun self => self.context.withGuardApproval guardName
  modify fun self => { self with
    context := context
    guardApprovals := self.guardApprovals ++ [⟨guardName, approvedBy, approvedByKind, now⟩]
    updatedAt := now }

def bindParticipant (roleId : RoleId) (specialty : Specialty) (now : OffsetDateTime) :
    Update DomainError CeremonyInstance Unit := do
  check fun self => self.requireActive definition "terminal ceremony instances cannot be re-seated"
  check fun _ => require (definition.role roleId).isSome (.notFound "ceremony_role")
  modify fun self => { self with
    participantBindings := self.participantBindings.insert roleId ⟨roleId, specialty, now⟩
    updatedAt := now }

def deferGuard (guardName : GuardName) (content : CeremonyGuardDeferralContent)
    (deferredBy : RoleId) (deferredByKind : AuditActorKind) (now : OffsetDateTime) :
    Update DomainError CeremonyInstance Unit := do
  check fun self => self.requireActive definition
    "terminal ceremony instances cannot defer guard decisions"
  check fun _ => requireHumanGuard definition guardName
    "only human approval guards can be deferred"
  check fun self => require (!self.context.isGuardApproved guardName)
    (.invariantViolated "approved human guards cannot be deferred")
  check fun self => require
    ((definition.availableTransitions self.currentState).any fun transition =>
      transition.requiredGuards.contains guardName)
    (.invariantViolated "human guard is not required from the current state")
  check fun self => self.requireDeclaredRole definition deferredBy
  modify fun self => { self with
    guardDeferrals := self.guardDeferrals ++ [⟨guardName, deferredBy, deferredByKind, content, now⟩]
    updatedAt := now }

def requestInterventionWithProvenanceAs (interventionId : CeremonyInterventionId)
    (roleId : RoleId) (kind : CeremonyInterventionKind) (target : CeremonyInterventionTarget)
    (content : CeremonyInterventionContent) (provenance : Option CeremonyInterventionProvenance)
    (now : OffsetDateTime) : Update DomainError CeremonyInstance Unit := do
  check fun self => self.requireActive definition
    "terminal ceremony instances cannot accept interventions"
  check fun self => self.requireRole definition roleId .requestIntervention
  check fun _ => requireInterventionTarget definition target
  check fun self =>
    match provenance with
    | none => .ok ()
    | some provenance => self.requireInterventionProvenance definition roleId target provenance
  check fun self => require
    (!self.interventions.any fun intervention => intervention.id = interventionId)
    (.alreadyExists "ceremony_intervention")
  modify fun self => { self with
    interventions := self.interventions ++ [CeremonyIntervention.openWithProvenance interventionId
      kind roleId target content provenance now]
    updatedAt := now }

def requestInterventionAs (interventionId : CeremonyInterventionId) (roleId : RoleId)
    (kind : CeremonyInterventionKind) (target : CeremonyInterventionTarget)
    (content : CeremonyInterventionContent) (now : OffsetDateTime) :
    Update DomainError CeremonyInstance Unit :=
  requestInterventionWithProvenanceAs definition interventionId roleId kind target content none now

/-- The ordinal of the last element, where there is one and it fits. -/
def lastOrdinal {α : Type} (l : List α) : Option U32 :=
  if h : l ≠ [] ∧ l.length - 1 < 2 ^ 32 then some ⟨l.length - 1, h.2⟩ else none

def onIntervention (interventionId : CeremonyInterventionId)
    (method : Update DomainError CeremonyIntervention Unit) :
    Update DomainError CeremonyInstance Unit :=
  within CeremonyInstance.interventions (fun items self => { self with interventions := items })
    (fun intervention => intervention.id = interventionId) (.notFound "ceremony_intervention") method

/-- The reason the engine can see on its own: a contribution is the reply to the
item it was made against. There is none when it cannot be stated. -/
def answersReason (self : CeremonyInstance) (agendaItem : CeremonyInterventionId)
    (now : OffsetDateTime) : Option CeremonyReason := do
  let item ← self.intervention agendaItem
  let ordinal ← lastOrdinal item.responses
  (CeremonyReason.new (.contribution agendaItem ordinal) (.agendaItem agendaItem) .answers
    "a contribution made against this agenda item" .high none now).toOption

def recordThatItAnswers (agendaItem : CeremonyInterventionId) (now : OffsetDateTime)
    (self : CeremonyInstance) : CeremonyInstance :=
  { self with reasons := self.reasons ++ (self.answersReason agendaItem now).toList }

def respondToInterventionAs (interventionId : CeremonyInterventionId) (roleId : RoleId)
    (content : CeremonyInterventionContent) (now : OffsetDateTime) :
    Update DomainError CeremonyInstance Unit := do
  check fun self => self.requireActive definition
    "terminal ceremony instances cannot receive intervention responses"
  check fun self => self.requireRole definition roleId .respondToIntervention
  onIntervention interventionId (CeremonyIntervention.respond roleId content now)
  modify (recordThatItAnswers interventionId now)
  modify fun self => { self with updatedAt := now }

def respondToInterventionWithEvidenceAs (interventionId : CeremonyInterventionId)
    (roleId : RoleId) (evidencePack : CeremonyEvidencePack) (now : OffsetDateTime) :
    Update DomainError CeremonyInstance Unit := do
  check fun self => self.requireActive definition
    "terminal ceremony instances cannot receive intervention evidence"
  check fun self => self.requireRole definition roleId .respondToIntervention
  onIntervention interventionId
    (CeremonyIntervention.respondWithEvidence roleId evidencePack now)
  modify (recordThatItAnswers interventionId now)
  modify fun self => { self with updatedAt := now }

structure CeremonyEvidenceRequest where
  instanceId : CeremonyId
  interventionId : CeremonyInterventionId
  roleId : RoleId
  sourceId : CeremonyEvidenceSourceId
  query : CeremonyInterventionContent
  context : CeremonyContext

def CeremonyEvidenceRequest.ensureMatches (self : CeremonyEvidenceRequest)
    (pack : CeremonyEvidencePack) : Except DomainError Unit :=
  require (pack.sourceId = self.sourceId)
    (.invariantViolated "ceremony evidence source returned a pack for another source")

def prepareEvidenceRequestAs (interventionId : CeremonyInterventionId) (roleId : RoleId)
    (sourceId : CeremonyEvidenceSourceId) (query : CeremonyInterventionContent)
    (self : CeremonyInstance) : Except DomainError CeremonyEvidenceRequest := do
  self.requireActive definition "terminal ceremony instances cannot collect intervention evidence"
  self.requireRole definition roleId .respondToIntervention
  let item ← okOr (self.intervention interventionId) (.notFound "ceremony_intervention")
  item.ensureCanRespond roleId
  pure ⟨self.id, interventionId, roleId, sourceId, query, self.context⟩

def assertReasonAs (roleId : RoleId) (fromRecord toRecord : CeremonyRecordRef)
    (kind : CeremonyReasonKind) (why : String) (confidence : MemoryConfidence)
    (now : OffsetDateTime) : Update DomainError CeremonyInstance Unit := do
  check fun self => self.requireDeclaredRole definition roleId
  check fun self => self.requireRecord fromRecord
  check fun self => self.requireRecord toRecord
  check fun self => self.requireAsserter roleId fromRecord kind
  let reason ← check fun _ =>
    CeremonyReason.new fromRecord toRecord kind why confidence (some roleId) now
  modify fun self => { self with
    reasons := self.reasons ++ [reason]
    updatedAt := now }

def closeInterventionAs (interventionId : CeremonyInterventionId) (roleId : RoleId)
    (now : OffsetDateTime) : Update DomainError CeremonyInstance Unit := do
  check fun self => self.requireActive definition
    "terminal ceremony instances cannot close interventions"
  check fun self => self.requireRole definition roleId .requestIntervention
  onIntervention interventionId (CeremonyIntervention.close roleId now)
  modify fun self => { self with updatedAt := now }

/-- The one place a session moves. -/
def moveOn (trigger : TransitionTrigger) (appliedBy : Option RoleId) (now : OffsetDateTime) :
    Update DomainError CeremonyInstance StateId := do
  check fun self => self.requireActive definition "terminal ceremony instances cannot transition"
  let transition ← check fun self =>
    okOr (definition.transitionForTrigger self.currentState trigger)
      (.invalidTransition "ceremony_instance.current_state" "transition_trigger")
  check fun self => require
    (definition.guardsAreSatisfied transition self.stepRecords self.context)
    (.invariantViolated "ceremony transition guards are not satisfied")
  modify fun self => { self with
    currentState := transition.toState
    transitions := self.transitions ++
      [⟨trigger, self.currentState, transition.toState, appliedBy, now⟩]
    updatedAt := now
    completedAt :=
      if definition.isTerminalState transition.toState then some now else self.completedAt }
  pure transition.toState

def applyTransitionAs (roleId : RoleId) (trigger : TransitionTrigger) (now : OffsetDateTime) :
    Update DomainError CeremonyInstance StateId := do
  check fun self => self.requireRole definition roleId (.transition trigger)
  moveOn definition trigger (some roleId) now

def applyTransition (trigger : TransitionTrigger) (now : OffsetDateTime) :
    Update DomainError CeremonyInstance StateId := moveOn definition trigger none now

end Operations

end CeremonyInstance

end Choreographer.Instance
