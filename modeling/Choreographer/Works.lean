import Choreographer.UseCases

namespace Choreographer.Works

open Choreographer.Lib.SortedMaps Choreographer.Lib.Updates Choreographer.Lib.Programs
open Choreographer.Texts Choreographer.Values Choreographer.Steps Choreographer.DefinitionParts
open Choreographer.Definition Choreographer.Agenda Choreographer.Instance Choreographer.Audit
open Choreographer.InMemory Choreographer.SessionJournal Choreographer.SessionFacts
open Choreographer.UseCases

/-- What a use case does to a session in hand before it commits it, and who does it. Of a
step that ended, the use case knows which attempt it was or asks the session. -/
inductive Work
  | startStep (roleId : RoleId) (roleKind : AuditActorKind) (stepId : StepId) (lease : StepLease)
  | finishStep (stepId : StepId) (result : StepResult) (granted : Option (StepAttempt × IdempotencyKey))
    (roleId : RoleId) (roleKind : AuditActorKind)
  | move (roleId : RoleId) (roleKind : AuditActorKind) (trigger : TransitionTrigger)
  | approve (guardName : GuardName) (roleId : RoleId) (roleKind : AuditActorKind)
  | deferral (guardName : GuardName) (roleId : RoleId) (roleKind : AuditActorKind)
    (content : CeremonyGuardDeferralContent)
  | seat (seating : Seating) (actorId : String) (actorKind : AuditActorKind)
  | request (interventionId : CeremonyInterventionId) (roleId : RoleId) (roleKind : AuditActorKind)
    (kind : CeremonyInterventionKind) (target : CeremonyInterventionTarget)
    (content : CeremonyInterventionContent) (provenance : Option CeremonyInterventionProvenance)
  | respond (interventionId : CeremonyInterventionId) (roleId : RoleId) (roleKind : AuditActorKind)
    (content : CeremonyInterventionContent)
  | collect (interventionId : CeremonyInterventionId) (roleId : RoleId) (roleKind : AuditActorKind)
    (sourceId : CeremonyEvidenceSourceId) (evidencePack : CeremonyEvidencePack)
  | close (interventionId : CeremonyInterventionId) (roleId : RoleId) (roleKind : AuditActorKind)
  | assertReason (roleId : RoleId) (roleKind : AuditActorKind)
    (fromRecord toRecord : CeremonyRecordRef) (kind : CeremonyReasonKind) (why : String)
    (confidence : MemoryConfidence)

namespace Work

def Answer : Work → Type
  | .startStep .. => StepAttempt
  | .move .. => StateId
  | _ => Unit

variable (definition : CeremonyDefinition) (now : OffsetDateTime)

def method : (work : Work) → Update DomainError CeremonyInstance work.Answer
  | .startStep roleId _ stepId lease =>
    CeremonyInstance.startStepAs definition roleId stepId lease now
  | .finishStep stepId result _ _ _ =>
    CeremonyInstance.applyStepResult definition stepId result now
  | .move roleId _ trigger => CeremonyInstance.applyTransitionAs definition roleId trigger now
  | .approve guardName roleId roleKind =>
    CeremonyInstance.approveGuard definition guardName roleId roleKind now
  | .deferral guardName roleId roleKind content =>
    CeremonyInstance.deferGuard definition guardName content roleId roleKind now
  | .seat seating _ _ => bindAll definition now seating.seats.entries
  | .request interventionId roleId _ kind target content provenance =>
    CeremonyInstance.requestInterventionWithProvenanceAs definition interventionId roleId kind
      target content provenance now
  | .respond interventionId roleId _ content =>
    CeremonyInstance.respondToInterventionAs definition interventionId roleId content now
  | .collect interventionId roleId _ _ evidencePack =>
    CeremonyInstance.respondToInterventionWithEvidenceAs definition interventionId roleId
      evidencePack now
  | .close interventionId roleId _ =>
    CeremonyInstance.closeInterventionAs definition interventionId roleId now
  | .assertReason roleId _ fromRecord toRecord kind why confidence =>
    CeremonyInstance.assertReasonAs definition roleId fromRecord toRecord kind why confidence now

def facts (session : CeremonyInstance) : (work : Work) → work.Answer →
    Except DomainError (List AuditFact)
  | .startStep roleId roleKind stepId _, attempt =>
    List.singleton <$> stepStarted session stepId attempt roleId roleKind now
  | .finishStep stepId result (some (attempt, _)) roleId roleKind, _ =>
    List.singleton <$> stepFinished session stepId attempt result roleId roleKind now
  | .finishStep stepId result none roleId roleKind, _ => do
    let record ← okOr (session.stepRecord stepId) (.notFound "ceremony_step")
    List.singleton <$> stepFinished session stepId record.attempt result roleId roleKind now
  | .move roleId roleKind _, _ => transitionApplied session definition roleId roleKind now
  | .approve guardName roleId roleKind, _ =>
    List.singleton <$> guardApproved session guardName roleId roleKind now
  | .deferral guardName roleId roleKind _, _ =>
    List.singleton <$> guardDeferred session guardName roleId roleKind now
  | .seat seating actorId actorKind, _ =>
    List.singleton <$> participantsBound session seating.seats actorId actorKind now
  | .request interventionId roleId roleKind _ _ _ _, _ =>
    List.singleton <$> interventionRequested session interventionId roleId roleKind now
  | .respond interventionId roleId roleKind _, _ =>
    List.singleton <$> interventionResponded session interventionId roleId roleKind now
  | .collect interventionId roleId roleKind sourceId _, _ =>
    evidenceCollected session interventionId sourceId roleId roleKind now
  | .close interventionId roleId roleKind, _ =>
    List.singleton <$> interventionClosed session interventionId roleId roleKind now
  | .assertReason roleId roleKind _ _ _ _ _, _ =>
    List.singleton <$> reasonAsserted session roleId roleKind now

def act (session : CeremonyInstance) : (work : Work) → work.Answer → Act
  | .startStep _ _ stepId lease, attempt => .startedStep stepId lease.idempotencyKey attempt
  | .finishStep stepId result granted _ _, _ =>
    .finishedStep stepId
      ((granted.map Prod.fst).getD
        (((session.stepRecord stepId).map StepExecutionRecord.attempt).getD StepAttempt.first))
      result.status (granted.map Prod.snd)
  | .move .., _ => .moved
  | .approve guardName _ _, _ => .approvedGuard guardName
  | .deferral guardName _ _ _, _ => .deferredGuard guardName
  | .seat seating _ _, _ => .seated seating.seats
  | .request interventionId .., _ => .requested interventionId
  | .respond interventionId roleId _ _, _ => .responded interventionId roleId
  | .collect interventionId roleId _ sourceId _, _ => .collected interventionId roleId sourceId
  | .close interventionId _ _, _ => .closed interventionId
  | .assertReason .., _ => .asserted

end Work

def recording {α : Type} (definition : CeremonyDefinition) (now : OffsetDateTime)
    (loaded : LoadedSession) (work : Work) (andThen : work.Answer → LoadedSession → UseCaseM α) :
    UseCaseM α := do
  let (answer, session) ← operate (work.method definition now) loaded.session
  let facts ← checked (work.facts definition now session answer)
  let stored ← commit ⟨session, loaded.expected⟩ facts loaded.session
    ⟨definition, work.act session answer⟩
  andThen answer stored

/-- The course of most use cases: read the session, find its definition, do the work, and
hand the session back. -/
def performing (instanceId : CeremonyId) (work : Work) : UseCaseM CeremonyInstance := do
  let loaded ← load instanceId
  let definition ← resolveCeremonyDefinition loaded.session
  let now ← ask .now
  recording definition now loaded work fun _ stored => pure stored.session

def opening {α : Type} (definition : CeremonyDefinition) (now : OffsetDateTime)
    (session : CeremonyInstance) (actorId : String) (actorKind : AuditActorKind)
    (andThen : LoadedSession → UseCaseM α) : UseCaseM α := do
  let fact ← checked (ceremonyStarted session actorId actorKind now)
  let stored ← openSession session [fact] ⟨definition, .opened⟩
  andThen stored

section UseCases

variable {α : Type} (definition : CeremonyDefinition) (now : OffsetDateTime)
  (loaded : LoadedSession)

theorem recording_single (work : Work)
    (f : CeremonyDefinition → OffsetDateTime → CeremonyInstance → work.Answer →
      Except DomainError AuditFact)
    (hf : ∀ definition now session answer,
      work.facts definition now session answer = List.singleton <$> f definition now session answer)
    (andThen : work.Answer → LoadedSession → UseCaseM α) :
    recording definition now loaded work andThen = (do
      let (answer, session) ← operate (work.method definition now) loaded.session
      let fact ← checked (f definition now session answer)
      let stored ← commit ⟨session, loaded.expected⟩ [fact] loaded.session
        ⟨definition, work.act session answer⟩
      andThen answer stored) := by
  refine congrArg (operate (work.method definition now) loaded.session >>= ·) (funext fun p => ?_)
  obtain ⟨answer, session⟩ := p
  dsimp only
  rw [hf]
  cases f definition now session answer with
  | error e => rfl
  | ok fact => rfl

theorem checked_ok {β : Type} (a : α) (k : α → UseCaseM β) : (checked (.ok a) >>= k) = k a := rfl

theorem commit_pure (loaded : LoadedSession) (facts : List AuditFact) (base : CeremonyInstance)
    (note : Deed) :
    (commit loaded facts base note >>= fun stored => pure stored) =
      commit loaded facts base note := by
  refine congrArg (Prog.ask (I := calls Deed) (.commit loaded facts base note))
    (funext fun answer => ?_)
  cases answer <;> rfl

theorem startCeremony_eq (id : CeremonyId) (definitionName : CeremonyName)
    (definitionVersion : CeremonyVersion) (context : CeremonyContext) (actorId : String)
    (actorKind : AuditActorKind) :
    startCeremony id definitionName definitionVersion context actorId actorKind = (do
      let definition ← perhaps (.definition definitionName definitionVersion) rfl
      let now ← ask .now
      opening definition now (CeremonyInstance.start id definition context now) actorId actorKind
        fun stored => pure stored.session) := rfl

theorem startPublishedCeremony_eq (id : CeremonyId) (definitionName : CeremonyName)
    (definitionVersion : CeremonyVersion) (context : CeremonyContext) (actorId : String)
    (actorKind : AuditActorKind) :
    startPublishedCeremony id definitionName definitionVersion context actorId actorKind = (do
      let published ← ask (.published definitionName definitionVersion)
      let published ← checked (okOr published (.notFound "published_ceremony_definition"))
      let now ← ask .now
      opening published.definition now (CeremonyInstance.startBound id published context now)
        actorId actorKind fun stored => pure stored.session) := rfl

theorem runCeremony_eq (leaseOwnerId : LeaseOwnerId) (leaseTtl : DurationMs)
    (actorKind : AuditActorKind) (id : CeremonyId) (context : CeremonyContext)
    (actorId : String) :
    runCeremony definition leaseOwnerId leaseTtl actorKind id context actorId = (do
      let found ← ExceptT.lift (load id).run
      match found with
      | .error (.notFound _) =>
        let _ ← ask (.saveDefinition definition)
        let startedAt ← ask .now
        opening definition startedAt (CeremonyInstance.start id definition context startedAt)
          actorId actorKind fun loaded => drive definition leaseOwnerId leaseTtl actorKind id
            (definition.states.size + definition.transitions.length + 1) loaded []
      | _ => throw (.alreadyExists "ceremony_instance")) := rfl

theorem startCeremonyStep_eq (instanceId : CeremonyId) (roleId : RoleId)
    (roleKind : AuditActorKind) (stepId : StepId) (leaseOwnerId : LeaseOwnerId)
    (idempotencyKey : IdempotencyKey) (leaseTtl : DurationMs) :
    startCeremonyStep instanceId roleId roleKind stepId leaseOwnerId idempotencyKey leaseTtl =
      (do
        let loaded ← load instanceId
        let definition ← resolveCeremonyDefinition loaded.session
        let now ← ask .now
        let lease ← checked (StepLease.acquire leaseOwnerId idempotencyKey now leaseTtl)
        recording definition now loaded (.startStep roleId roleKind stepId lease)
          fun attempt _ => pure attempt) :=
  bind_congr fun loaded => bind_congr fun definition => bind_congr fun now =>
    bind_congr fun lease =>
    (recording_single definition now loaded (.startStep roleId roleKind stepId lease)
      (fun _ now session attempt => stepStarted session stepId attempt roleId roleKind now)
      (fun _ _ _ _ => rfl) fun attempt _ => pure attempt).symm

theorem performing_single (instanceId : CeremonyId) (work : Work)
    (f : CeremonyDefinition → OffsetDateTime → CeremonyInstance → work.Answer →
      Except DomainError AuditFact)
    (hf : ∀ definition now session answer,
      work.facts definition now session answer =
        List.singleton <$> f definition now session answer) :
    (do
      let loaded ← load instanceId
      let definition ← resolveCeremonyDefinition loaded.session
      let now ← ask .now
      let (answer, session) ← operate (work.method definition now) loaded.session
      let fact ← checked (f definition now session answer)
      let stored ← commit ⟨session, loaded.expected⟩ [fact] loaded.session
        ⟨definition, work.act session answer⟩
      pure stored.session) = performing instanceId work :=
  bind_congr fun loaded => bind_congr fun definition => bind_congr fun now =>
    (recording_single definition now loaded work f hf fun _ stored => pure stored.session).symm

theorem approveCeremonyGuard_eq (instanceId : CeremonyId) (guardName : GuardName)
    (roleId : RoleId) (roleKind : AuditActorKind) :
    approveCeremonyGuard instanceId guardName roleId roleKind =
      performing instanceId (.approve guardName roleId roleKind) :=
  performing_single instanceId (.approve guardName roleId roleKind)
    (fun _ now session _ => guardApproved session guardName roleId roleKind now) fun _ _ _ _ => rfl

theorem deferCeremonyGuard_eq (instanceId : CeremonyId) (guardName : GuardName)
    (roleId : RoleId) (roleKind : AuditActorKind) (content : CeremonyGuardDeferralContent) :
    deferCeremonyGuard instanceId guardName roleId roleKind content =
      performing instanceId (.deferral guardName roleId roleKind content) :=
  performing_single instanceId (.deferral guardName roleId roleKind content)
    (fun _ now session _ => guardDeferred session guardName roleId roleKind now) fun _ _ _ _ => rfl

theorem bindCeremonyParticipants_eq (instanceId : CeremonyId) (seating : Seating)
    (actorId : String) (actorKind : AuditActorKind) :
    bindCeremonyParticipants instanceId seating actorId actorKind =
      performing instanceId (.seat seating actorId actorKind) :=
  performing_single instanceId (.seat seating actorId actorKind)
    (fun _ now session _ => participantsBound session seating.seats actorId actorKind now)
    fun _ _ _ _ => rfl

theorem requestCeremonyIntervention_eq (instanceId : CeremonyId)
    (interventionId : CeremonyInterventionId) (roleId : RoleId) (roleKind : AuditActorKind)
    (kind : CeremonyInterventionKind) (target : CeremonyInterventionTarget)
    (content : CeremonyInterventionContent) (provenance : Option CeremonyInterventionProvenance) :
    requestCeremonyIntervention instanceId interventionId roleId roleKind kind target content
        provenance =
      performing instanceId (.request interventionId roleId roleKind kind target content provenance) :=
  performing_single instanceId (.request interventionId roleId roleKind kind target content provenance)
    (fun _ now session _ => interventionRequested session interventionId roleId roleKind now)
    fun _ _ _ _ => rfl

theorem respondToCeremonyIntervention_eq (instanceId : CeremonyId)
    (interventionId : CeremonyInterventionId) (roleId : RoleId) (roleKind : AuditActorKind)
    (content : CeremonyInterventionContent) :
    respondToCeremonyIntervention instanceId interventionId roleId roleKind content =
      performing instanceId (.respond interventionId roleId roleKind content) :=
  performing_single instanceId (.respond interventionId roleId roleKind content)
    (fun _ now session _ => interventionResponded session interventionId roleId roleKind now)
    fun _ _ _ _ => rfl

theorem closeCeremonyIntervention_eq (instanceId : CeremonyId)
    (interventionId : CeremonyInterventionId) (roleId : RoleId) (roleKind : AuditActorKind) :
    closeCeremonyIntervention instanceId interventionId roleId roleKind =
      performing instanceId (.close interventionId roleId roleKind) :=
  performing_single instanceId (.close interventionId roleId roleKind)
    (fun _ now session _ => interventionClosed session interventionId roleId roleKind now)
    fun _ _ _ _ => rfl

theorem assertCeremonyReason_eq (instanceId : CeremonyId) (roleId : RoleId)
    (roleKind : AuditActorKind) (fromRecord toRecord : CeremonyRecordRef)
    (kind : CeremonyReasonKind) (why : String) (confidence : MemoryConfidence) :
    assertCeremonyReason instanceId roleId roleKind fromRecord toRecord kind why confidence =
      performing instanceId (.assertReason roleId roleKind fromRecord toRecord kind why confidence) :=
  performing_single instanceId (.assertReason roleId roleKind fromRecord toRecord kind why confidence)
    (fun _ now session _ => reasonAsserted session roleId roleKind now)
    fun _ _ _ _ => rfl

theorem applyCeremonyTransition_eq (instanceId : CeremonyId) (roleId : RoleId)
    (roleKind : AuditActorKind) (trigger : TransitionTrigger) :
    applyCeremonyTransition instanceId roleId roleKind trigger =
      performing instanceId (.move roleId roleKind trigger) := rfl

theorem collectCeremonyEvidence_eq (instanceId : CeremonyId)
    (interventionId : CeremonyInterventionId) (roleId : RoleId) (roleKind : AuditActorKind)
    (sourceId : CeremonyEvidenceSourceId) (query : CeremonyInterventionContent) :
    collectCeremonyEvidence instanceId interventionId roleId roleKind sourceId query = (do
      let loaded ← load instanceId
      let definition ← resolveCeremonyDefinition loaded.session
      let request ← checked (CeremonyInstance.prepareEvidenceRequestAs definition interventionId
        roleId sourceId query loaded.session)
      let evidencePack ← perhaps (.collect request) rfl
      checked (request.ensureMatches evidencePack)
      let now ← ask .now
      recording definition now loaded
        (.collect request.interventionId request.roleId roleKind sourceId evidencePack)
        fun _ stored => pure stored.session) := rfl

theorem completeCeremonyStep_eq (instanceId : CeremonyId) (stepId : StepId) (result : StepResult)
    (actorKind : AuditActorKind) :
    completeCeremonyStep instanceId stepId result actorKind = (do
      let loaded ← load instanceId
      let definition ← resolveCeremonyDefinition loaded.session
      let finishedBy ← checked (definition.roleIdForStep stepId)
      let now ← ask .now
      recording definition now loaded (.finishStep stepId result none finishedBy actorKind)
        fun _ stored => pure stored.session) := by
  refine bind_congr fun loaded => bind_congr fun definition => bind_congr fun finishedBy =>
    bind_congr fun now => ?_
  refine congrArg (operate (CeremonyInstance.applyStepResult definition stepId result now)
    loaded.session >>= ·) (funext fun p => ?_)
  obtain ⟨answer, session⟩ := p
  dsimp only [Work.facts, Work.act]
  cases session.stepRecord stepId with
  | none => rfl
  | some record =>
    have hfacts : (do
        let record ← okOr (some record) (.notFound "ceremony_step")
        List.singleton <$> stepFinished session stepId record.attempt result finishedBy actorKind
          now) = List.singleton <$> stepFinished session stepId record.attempt result finishedBy
            actorKind now := rfl
    rw [hfacts]
    have hread : checked (okOr (some record) (.notFound "ceremony_step")) =
        (checked (.ok record) : UseCaseM StepExecutionRecord) := rfl
    rw [hread, checked_ok]
    cases stepFinished session stepId record.attempt result finishedBy actorKind now <;> rfl

theorem finishStep_eq (definition : CeremonyDefinition) (id : CeremonyId) (stepId : StepId)
    (attempt : StepAttempt) (key : IdempotencyKey) (result : StepResult) (roleId : RoleId)
    (roleKind : AuditActorKind) :
    finishStep definition id stepId attempt key result roleId roleKind = (do
      let loaded ← load id
      let finishedAt ← ask .now
      recording definition finishedAt loaded
        (.finishStep stepId result (some (attempt, key)) roleId roleKind)
        fun _ stored => pure stored) := by
  refine bind_congr fun loaded => bind_congr fun finishedAt => ?_
  have h := recording_single definition finishedAt loaded
    (.finishStep stepId result (some (attempt, key)) roleId roleKind)
    (fun _ now session _ => stepFinished session stepId attempt result roleId roleKind now)
    (fun _ _ _ _ => rfl) fun _ stored => pure stored
  rw [h]
  refine congrArg (operate (CeremonyInstance.applyStepResult definition stepId result finishedAt)
    loaded.session >>= ·) (funext fun p => ?_)
  exact bind_congr fun finished => (commit_pure _ _ _ _).symm

theorem runCeremonyStep_eq (instanceId : CeremonyId) (roleId : RoleId) (roleKind : AuditActorKind)
    (stepId : StepId) (leaseOwnerId : LeaseOwnerId) (idempotencyKey : IdempotencyKey)
    (leaseTtl : DurationMs) :
    runCeremonyStep instanceId roleId roleKind stepId leaseOwnerId idempotencyKey leaseTtl = (do
      let loaded ← load instanceId
      let definition ← resolveCeremonyDefinition loaded.session
      let step ← checked (okOr (definition.step stepId) (.notFound "ceremony_step"))
      let now ← ask .now
      let lease ← checked (StepLease.acquire leaseOwnerId idempotencyKey now leaseTtl)
      recording definition now loaded (.startStep roleId roleKind stepId lease)
        fun attempt claimed => do
          let transcript ← perhaps (.transcript claimed.session.id) rfl
          let result ← executeHandler (handlerRequest claimed.session step attempt transcript
            claimed.session.interventions roleId)
          let refreshed ← finishStep definition claimed.session.id stepId attempt
            lease.idempotencyKey result roleId roleKind
          if result.status.isSuccess then
            perhaps (.contribute refreshed.session.id ⟨stepId, roleId, result.output⟩) rfl
          pure (refreshed.session, attempt, result)) := by
  refine bind_congr fun loaded => bind_congr fun definition => bind_congr fun step =>
    bind_congr fun now => bind_congr fun lease => ?_
  rw [recording_single definition now loaded (.startStep roleId roleKind stepId lease)
    (fun _ now session attempt => stepStarted session stepId attempt roleId roleKind now)
    (fun _ _ _ _ => rfl)]
  rfl

theorem runStep_eq (leaseOwnerId : LeaseOwnerId) (leaseTtl : DurationMs)
    (actorKind : AuditActorKind) (roleId : RoleId) (stepId : StepId) (traceIndex : Nat)
    (transcript : CeremonyTranscript) :
    runStep definition leaseOwnerId leaseTtl actorKind loaded roleId stepId traceIndex transcript =
      (do
        let step ← checked (okOr (definition.step stepId) (.notFound "ceremony_step"))
        let now ← ask .now
        let key ← checked (Text.new (loaded.session.id.asStr ++ ":" ++ stepId.asStr ++ ":" ++
          (traceIndex + 1).repr))
        let lease ← checked (StepLease.acquire leaseOwnerId key now leaseTtl)
        recording definition now loaded (.startStep roleId actorKind stepId lease)
          fun attempt claimed => do
            let result ← executeHandler
              (handlerRequest claimed.session step attempt transcript [] roleId)
            let finished ← finishStep definition claimed.session.id stepId attempt
              lease.idempotencyKey result roleId actorKind
            pure (finished, attempt, result)) := by
  refine bind_congr fun step => bind_congr fun now => bind_congr fun key =>
    bind_congr fun lease => ?_
  rw [recording_single definition now loaded (.startStep roleId actorKind stepId lease)
    (fun _ now session attempt => stepStarted session stepId attempt roleId actorKind now)
    (fun _ _ _ _ => rfl)]
  rfl

theorem moveAlong_eq (actorKind : AuditActorKind) (stateId : StateId) :
    moveAlong definition actorKind stateId loaded = (do
      let transition ← checked (okOr (definition.nextSatisfiedTransition stateId
        loaded.session.stepRecords loaded.session.context)
        (.invariantViolated "no satisfied ceremony transition is available"))
      let roleId ← checked (definition.roleIdForTransition transition.trigger)
      let movedAt ← ask .now
      recording definition movedAt loaded (.move roleId actorKind transition.trigger)
        fun _ stored => pure stored) := by
  refine bind_congr fun transition => bind_congr fun roleId => bind_congr fun movedAt => ?_
  refine congrArg (operate (CeremonyInstance.applyTransitionAs definition roleId transition.trigger
    movedAt) loaded.session >>= ·) (funext fun p => ?_)
  exact bind_congr fun moved => (commit_pure _ _ _ _).symm

end UseCases

end Choreographer.Works
