import Choreographer.SessionFacts
import Choreographer.SessionLog

namespace Choreographer.UseCases

open Choreographer.Lib.SortedMaps Choreographer.Lib.Updates Choreographer.Lib.Programs
open Choreographer.Texts Choreographer.Values Choreographer.Steps Choreographer.DefinitionParts
open Choreographer.Definition Choreographer.Agenda Choreographer.Instance Choreographer.Audit
open Choreographer.InMemory Choreographer.SessionJournal Choreographer.SessionFacts
open Choreographer.SessionLog

/-- What a use case did between reading a session and committing it. A result is
reported by whoever was granted the attempt, under the key of the grant, or by
somebody who was not. -/
inductive Act
  | opened
  | startedStep (stepId : StepId) (key : IdempotencyKey) (attempt : StepAttempt)
  | finishedStep (stepId : StepId) (attempt : StepAttempt) (status : StepStatus)
    (granted : Option IdempotencyKey)
  | moved
  | approvedGuard (guardName : GuardName)
  | deferredGuard (guardName : GuardName)
  | seated (seating : OrdMap RoleId Specialty)
  | requested (interventionId : CeremonyInterventionId)
  | responded (interventionId : CeremonyInterventionId) (roleId : RoleId)
  | collected (interventionId : CeremonyInterventionId) (roleId : RoleId)
    (sourceId : CeremonyEvidenceSourceId)
  | closed (interventionId : CeremonyInterventionId)
  | asserted

structure Deed where
  definition : CeremonyDefinition
  act : Act

abbrev UseCaseM := Session Deed

def checked {α : Type} (x : Except DomainError α) : UseCaseM α := ExceptT.mk (pure x)

def perhaps (c : Call Deed) {α : Type} (h : c.Answer = Except DomainError α) : UseCaseM α :=
  ExceptT.mk (h ▸ Prog.call (I := calls Deed) c)

def operate {α : Type} (method : Update DomainError CeremonyInstance α) (i : CeremonyInstance) :
    UseCaseM (α × CeremonyInstance) :=
  checked (match method.on i with
    | (.ok a, i') => .ok (a, i')
    | (.error e, _) => .error e)

/-- The definition a session runs: the published one it is bound to, checked
against the digest it recorded, or whatever the repository has. -/
def resolveCeremonyDefinition (session : CeremonyInstance) : UseCaseM CeremonyDefinition :=
  match session.boundDefinition with
  | none => perhaps (.definition session.definitionName session.definitionVersion) rfl
  | some digest => do
    let published ← ask (.published session.definitionName session.definitionVersion)
    let published ← checked (okOr published (.notFound "published_ceremony_definition"))
    checked (require (published.digest = digest) (.invariantViolated
      "the published definition no longer matches the digest this instance ran"))
    pure published.definition

def startCeremony (id : CeremonyId) (definitionName : CeremonyName)
    (definitionVersion : CeremonyVersion) (context : CeremonyContext) (actorId : String)
    (actorKind : AuditActorKind) : UseCaseM CeremonyInstance := do
  let definition ← perhaps (.definition definitionName definitionVersion) rfl
  let now ← ask .now
  let session := CeremonyInstance.start id definition context now
  let fact ← checked (ceremonyStarted session actorId actorKind now)
  let stored ← openSession session [fact] ⟨definition, .opened⟩
  pure stored.session

def startPublishedCeremony (id : CeremonyId) (definitionName : CeremonyName)
    (definitionVersion : CeremonyVersion) (context : CeremonyContext) (actorId : String)
    (actorKind : AuditActorKind) : UseCaseM CeremonyInstance := do
  let published ← ask (.published definitionName definitionVersion)
  let published ← checked (okOr published (.notFound "published_ceremony_definition"))
  let now ← ask .now
  let session := CeremonyInstance.startBound id published context now
  let fact ← checked (ceremonyStarted session actorId actorKind now)
  let stored ← openSession session [fact] ⟨published.definition, .opened⟩
  pure stored.session

def startCeremonyStep (instanceId : CeremonyId) (roleId : RoleId) (roleKind : AuditActorKind)
    (stepId : StepId) (leaseOwnerId : LeaseOwnerId) (idempotencyKey : IdempotencyKey)
    (leaseTtl : DurationMs) : UseCaseM StepAttempt := do
  let loaded ← load instanceId
  let definition ← resolveCeremonyDefinition loaded.session
  let now ← ask .now
  let lease ← checked (StepLease.acquire leaseOwnerId idempotencyKey now leaseTtl)
  let (attempt, session) ← operate
    (CeremonyInstance.startStepAs definition roleId stepId lease now) loaded.session
  let fact ← checked (stepStarted session stepId attempt roleId roleKind now)
  let _ ← commit ⟨session, loaded.expected⟩ [fact] loaded.session
    ⟨definition, .startedStep stepId lease.idempotencyKey attempt⟩
  pure attempt

def completeCeremonyStep (instanceId : CeremonyId) (stepId : StepId) (result : StepResult)
    (actorKind : AuditActorKind) : UseCaseM CeremonyInstance := do
  let loaded ← load instanceId
  let definition ← resolveCeremonyDefinition loaded.session
  let finishedBy ← checked (definition.roleIdForStep stepId)
  let now ← ask .now
  let (_, session) ← operate
    (CeremonyInstance.applyStepResult definition stepId result now) loaded.session
  let record ← checked (okOr (session.stepRecord stepId) (.notFound "ceremony_step"))
  let fact ← checked (stepFinished session stepId record.attempt result finishedBy actorKind now)
  let stored ← commit ⟨session, loaded.expected⟩ [fact] loaded.session
    ⟨definition, .finishedStep stepId record.attempt result.status none⟩
  pure stored.session

/-- A handler that fails has failed the step. -/
def executeHandler (request : CeremonyStepHandlerRequest) : UseCaseM StepResult := do
  let outcome ← ask (.execute request)
  match outcome with
  | .ok result => pure result
  | .error error => checked (do
      let message : StepErrorMessage ← Text.new error.toString
      StepResult.failed message)

def handlerRequest (session : CeremonyInstance) (step : CeremonyStep) (attempt : StepAttempt)
    (transcript : CeremonyTranscript) (interventions : List CeremonyIntervention)
    (roleId : RoleId) : CeremonyStepHandlerRequest where
  instanceId := session.id
  definitionName := session.definitionName
  definitionVersion := session.definitionVersion
  currentState := session.currentState
  stepId := step.id
  handlerKind := step.handlerKind
  handlerConfig := step.handlerConfig
  context := session.context
  attempt := attempt
  transcript := transcript
  interventions := interventions
  roleId := some roleId
  boundSpecialty := session.boundSpecialty roleId

/-- Commit what a handler came to, on the session as it is by then. -/
def finishStep (definition : CeremonyDefinition) (id : CeremonyId) (stepId : StepId)
    (attempt : StepAttempt) (key : IdempotencyKey) (result : StepResult) (roleId : RoleId)
    (roleKind : AuditActorKind) : UseCaseM LoadedSession := do
  let loaded ← load id
  let finishedAt ← ask .now
  let (_, session) ← operate
    (CeremonyInstance.applyStepResult definition stepId result finishedAt) loaded.session
  let finished ← checked (stepFinished session stepId attempt result roleId roleKind finishedAt)
  commit ⟨session, loaded.expected⟩ [finished] loaded.session
    ⟨definition, .finishedStep stepId attempt result.status (some key)⟩

def runCeremonyStep (instanceId : CeremonyId) (roleId : RoleId) (roleKind : AuditActorKind)
    (stepId : StepId) (leaseOwnerId : LeaseOwnerId) (idempotencyKey : IdempotencyKey)
    (leaseTtl : DurationMs) : UseCaseM (CeremonyInstance × StepAttempt × StepResult) := do
  let loaded ← load instanceId
  let definition ← resolveCeremonyDefinition loaded.session
  let step ← checked (okOr (definition.step stepId) (.notFound "ceremony_step"))
  let now ← ask .now
  let lease ← checked (StepLease.acquire leaseOwnerId idempotencyKey now leaseTtl)
  let (attempt, session) ← operate
    (CeremonyInstance.startStepAs definition roleId stepId lease now) loaded.session
  let started ← checked (stepStarted session stepId attempt roleId roleKind now)
  let claimed ← commit ⟨session, loaded.expected⟩ [started] loaded.session
    ⟨definition, .startedStep stepId lease.idempotencyKey attempt⟩
  let transcript ← perhaps (.transcript claimed.session.id) rfl
  let result ← executeHandler
    (handlerRequest claimed.session step attempt transcript claimed.session.interventions roleId)
  let refreshed ← finishStep definition claimed.session.id stepId attempt lease.idempotencyKey
    result roleId roleKind
  if result.status.isSuccess then
    perhaps (.contribute refreshed.session.id ⟨stepId, roleId, result.output⟩) rfl
  pure (refreshed.session, attempt, result)

structure CeremonyStepTrace where
  stateId : StateId
  stepId : StepId
  roleId : RoleId
  attempt : StepAttempt
  status : StepStatus
  output : StepOutput

structure RunCeremonyOutput where
  definition : CeremonyDefinition
  session : CeremonyInstance
  stepTraces : List CeremonyStepTrace

section RunCeremony

variable (definition : CeremonyDefinition) (leaseOwnerId : LeaseOwnerId) (leaseTtl : DurationMs)
  (actorKind : AuditActorKind)

def runStep (loaded : LoadedSession) (roleId : RoleId) (stepId : StepId) (traceIndex : Nat)
    (transcript : CeremonyTranscript) : UseCaseM (LoadedSession × StepAttempt × StepResult) := do
  let step ← checked (okOr (definition.step stepId) (.notFound "ceremony_step"))
  let now ← ask .now
  let key ← checked (Text.new (loaded.session.id.asStr ++ ":" ++ stepId.asStr ++ ":" ++
    (traceIndex + 1).repr))
  let lease ← checked (StepLease.acquire leaseOwnerId key now leaseTtl)
  let (attempt, session) ← operate
    (CeremonyInstance.startStepAs definition roleId stepId lease now) loaded.session
  let claim ← checked (stepStarted session stepId attempt roleId actorKind now)
  let claimed ← commit ⟨session, loaded.expected⟩ [claim] loaded.session
    ⟨definition, .startedStep stepId lease.idempotencyKey attempt⟩
  let result ← executeHandler (handlerRequest claimed.session step attempt transcript [] roleId)
  let finished ← finishStep definition claimed.session.id stepId attempt lease.idempotencyKey
    result roleId actorKind
  pure (finished, attempt, result)

/-- Run the steps of a state that have not succeeded yet, up to the first that does not. -/
def runSteps (id : CeremonyId) (stateId : StateId) : List StepId → LoadedSession →
    List CeremonyStepTrace → UseCaseM (LoadedSession × List CeremonyStepTrace)
  | [], loaded, traces => pure (loaded, traces)
  | stepId :: rest, loaded, traces =>
    if (loaded.session.stepRecord stepId).any fun record => record.status.isSuccess then
      runSteps id stateId rest loaded traces
    else do
      let roleId ← checked (definition.roleIdForStep stepId)
      let transcript ← perhaps (.transcript id) rfl
      let _ ← ask .lap
      let (loaded, attempt, result) ← runStep definition leaseOwnerId leaseTtl actorKind loaded
        roleId stepId traces.length transcript
      let _ ← ask .lap
      if result.status.isSuccess then
        perhaps (.contribute id ⟨stepId, roleId, result.output⟩) rfl
      let traces := traces ++ [⟨stateId, stepId, roleId, attempt, result.status, result.output⟩]
      checked (require result.status.isSuccess
        (.invariantViolated "ceremony step did not complete successfully"))
      runSteps id stateId rest loaded traces

def moveAlong (stateId : StateId) (loaded : LoadedSession) : UseCaseM LoadedSession := do
  let transition ← checked (okOr
    (definition.nextSatisfiedTransition stateId loaded.session.stepRecords loaded.session.context)
    (.invariantViolated "no satisfied ceremony transition is available"))
  let roleId ← checked (definition.roleIdForTransition transition.trigger)
  let movedAt ← ask .now
  let (_, session) ← operate
    (CeremonyInstance.applyTransitionAs definition roleId transition.trigger movedAt) loaded.session
  let moved ← checked (transitionApplied session definition roleId actorKind movedAt)
  commit ⟨session, loaded.expected⟩ moved loaded.session ⟨definition, .moved⟩

def drive (id : CeremonyId) : Nat → LoadedSession → List CeremonyStepTrace →
    UseCaseM RunCeremonyOutput
  | 0, _, _ => throw (.invariantViolated "ceremony execution exceeded transition safety limit")
  | n + 1, loaded, traces =>
    if loaded.session.isCompleted definition then do
      let _ ← ask .lap
      pure ⟨definition, loaded.session, traces⟩
    else do
      let stateId := loaded.session.currentState
      let (loaded, traces) ← runSteps definition leaseOwnerId leaseTtl actorKind id stateId
        ((definition.stepsForState stateId).map CeremonyStep.id) loaded traces
      if loaded.session.isCompleted definition then do
        let _ ← ask .lap
        pure ⟨definition, loaded.session, traces⟩
      else do
        let loaded ← moveAlong definition actorKind stateId loaded
        drive id n loaded traces

def runCeremony (id : CeremonyId) (context : CeremonyContext) (actorId : String) :
    UseCaseM RunCeremonyOutput := do
  let found ← ExceptT.lift (load id).run
  match found with
  | .error (.notFound _) =>
    let _ ← ask (.saveDefinition definition)
    let startedAt ← ask .now
    let opening := CeremonyInstance.start id definition context startedAt
    let started ← checked (ceremonyStarted opening actorId actorKind startedAt)
    let loaded ← openSession opening [started] ⟨definition, .opened⟩
    drive definition leaseOwnerId leaseTtl actorKind id
      (definition.states.size + definition.transitions.length + 1) loaded []
  | _ => throw (.alreadyExists "ceremony_instance")

end RunCeremony

def applyCeremonyTransition (instanceId : CeremonyId) (roleId : RoleId) (roleKind : AuditActorKind)
    (trigger : TransitionTrigger) : UseCaseM CeremonyInstance := do
  let loaded ← load instanceId
  let definition ← resolveCeremonyDefinition loaded.session
  let now ← ask .now
  let (_, session) ← operate
    (CeremonyInstance.applyTransitionAs definition roleId trigger now) loaded.session
  let facts ← checked (transitionApplied session definition roleId roleKind now)
  let stored ← commit ⟨session, loaded.expected⟩ facts loaded.session ⟨definition, .moved⟩
  pure stored.session

def approveCeremonyGuard (instanceId : CeremonyId) (guardName : GuardName) (roleId : RoleId)
    (roleKind : AuditActorKind) : UseCaseM CeremonyInstance := do
  let loaded ← load instanceId
  let definition ← resolveCeremonyDefinition loaded.session
  let now ← ask .now
  let (_, session) ← operate
    (CeremonyInstance.approveGuard definition guardName roleId roleKind now) loaded.session
  let fact ← checked (guardApproved session guardName roleId roleKind now)
  let stored ← commit ⟨session, loaded.expected⟩ [fact] loaded.session
    ⟨definition, .approvedGuard guardName⟩
  pure stored.session

def deferCeremonyGuard (instanceId : CeremonyId) (guardName : GuardName) (roleId : RoleId)
    (roleKind : AuditActorKind) (content : CeremonyGuardDeferralContent) :
    UseCaseM CeremonyInstance := do
  let loaded ← load instanceId
  let definition ← resolveCeremonyDefinition loaded.session
  let now ← ask .now
  let (_, session) ← operate
    (CeremonyInstance.deferGuard definition guardName content roleId roleKind now) loaded.session
  let fact ← checked (guardDeferred session guardName roleId roleKind now)
  let stored ← commit ⟨session, loaded.expected⟩ [fact] loaded.session
    ⟨definition, .deferredGuard guardName⟩
  pure stored.session

/-- Seat every role of a seating, in order; the first refusal stops it. -/
def bindAll (definition : CeremonyDefinition) (now : OffsetDateTime) :
    List (RoleId × Specialty) → Update DomainError CeremonyInstance Unit
  | [] => pure ()
  | (roleId, specialty) :: rest => do
    CeremonyInstance.bindParticipant definition roleId specialty now
    bindAll definition now rest

/-- A seating that seats somebody. -/
structure Seating where
  seats : OrdMap RoleId Specialty
  nonempty : seats.entries ≠ []

def bindCeremonyParticipants (instanceId : CeremonyId) (seating : Seating) (actorId : String)
    (actorKind : AuditActorKind) : UseCaseM CeremonyInstance := do
  let loaded ← load instanceId
  let definition ← resolveCeremonyDefinition loaded.session
  let now ← ask .now
  let (_, session) ← operate (bindAll definition now seating.seats.entries) loaded.session
  let fact ← checked (participantsBound session seating.seats actorId actorKind now)
  let stored ← commit ⟨session, loaded.expected⟩ [fact] loaded.session
    ⟨definition, .seated seating.seats⟩
  pure stored.session

def requestCeremonyIntervention (instanceId : CeremonyId)
    (interventionId : CeremonyInterventionId) (roleId : RoleId) (roleKind : AuditActorKind)
    (kind : CeremonyInterventionKind) (target : CeremonyInterventionTarget)
    (content : CeremonyInterventionContent) (provenance : Option CeremonyInterventionProvenance) :
    UseCaseM CeremonyInstance := do
  let loaded ← load instanceId
  let definition ← resolveCeremonyDefinition loaded.session
  let now ← ask .now
  let (_, session) ← operate (CeremonyInstance.requestInterventionWithProvenanceAs definition
    interventionId roleId kind target content provenance now) loaded.session
  let fact ← checked (interventionRequested session interventionId roleId roleKind now)
  let stored ← commit ⟨session, loaded.expected⟩ [fact] loaded.session
    ⟨definition, .requested interventionId⟩
  pure stored.session

def respondToCeremonyIntervention (instanceId : CeremonyId)
    (interventionId : CeremonyInterventionId) (roleId : RoleId) (roleKind : AuditActorKind)
    (content : CeremonyInterventionContent) : UseCaseM CeremonyInstance := do
  let loaded ← load instanceId
  let definition ← resolveCeremonyDefinition loaded.session
  let now ← ask .now
  let (_, session) ← operate (CeremonyInstance.respondToInterventionAs definition interventionId
    roleId content now) loaded.session
  let fact ← checked (interventionResponded session interventionId roleId roleKind now)
  let stored ← commit ⟨session, loaded.expected⟩ [fact] loaded.session
    ⟨definition, .responded interventionId roleId⟩
  pure stored.session

def closeCeremonyIntervention (instanceId : CeremonyId)
    (interventionId : CeremonyInterventionId) (roleId : RoleId) (roleKind : AuditActorKind) :
    UseCaseM CeremonyInstance := do
  let loaded ← load instanceId
  let definition ← resolveCeremonyDefinition loaded.session
  let now ← ask .now
  let (_, session) ← operate
    (CeremonyInstance.closeInterventionAs definition interventionId roleId now) loaded.session
  let fact ← checked (interventionClosed session interventionId roleId roleKind now)
  let stored ← commit ⟨session, loaded.expected⟩ [fact] loaded.session
    ⟨definition, .closed interventionId⟩
  pure stored.session

def collectCeremonyEvidence (instanceId : CeremonyId) (interventionId : CeremonyInterventionId)
    (roleId : RoleId) (roleKind : AuditActorKind) (sourceId : CeremonyEvidenceSourceId)
    (query : CeremonyInterventionContent) : UseCaseM CeremonyInstance := do
  let loaded ← load instanceId
  let definition ← resolveCeremonyDefinition loaded.session
  let request ← checked (CeremonyInstance.prepareEvidenceRequestAs definition interventionId roleId
    sourceId query loaded.session)
  let evidencePack ← perhaps (.collect request) rfl
  checked (request.ensureMatches evidencePack)
  let now ← ask .now
  let (_, session) ← operate (CeremonyInstance.respondToInterventionWithEvidenceAs definition
    request.interventionId request.roleId evidencePack now) loaded.session
  let facts ← checked (evidenceCollected session request.interventionId sourceId request.roleId
    roleKind now)
  let stored ← commit ⟨session, loaded.expected⟩ facts loaded.session
    ⟨definition, .collected request.interventionId request.roleId sourceId⟩
  pure stored.session

def assertCeremonyReason (instanceId : CeremonyId) (roleId : RoleId) (roleKind : AuditActorKind)
    (fromRecord toRecord : CeremonyRecordRef) (kind : CeremonyReasonKind) (why : String)
    (confidence : MemoryConfidence) : UseCaseM CeremonyInstance := do
  let loaded ← load instanceId
  let definition ← resolveCeremonyDefinition loaded.session
  let now ← ask .now
  let (_, session) ← operate (CeremonyInstance.assertReasonAs definition roleId fromRecord toRecord
    kind why confidence now) loaded.session
  let fact ← checked (reasonAsserted session roleId roleKind now)
  let stored ← commit ⟨session, loaded.expected⟩ [fact] loaded.session ⟨definition, .asserted⟩
  pure stored.session

end Choreographer.UseCases
