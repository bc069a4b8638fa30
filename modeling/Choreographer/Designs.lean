import Choreographer.Drafts

namespace Choreographer.Designs

open Choreographer.Lib.SortedMaps Choreographer.Lib.Updates
open Choreographer.Texts Choreographer.Values Choreographer.Steps Choreographer.DefinitionParts
open Choreographer.Definition Choreographer.Drafts

section Intent

inductive ParticipantCapability
  | requestIntervention
  | respondToIntervention
deriving DecidableEq, Repr

def ParticipantCapability.asAction : ParticipantCapability → String
  | .requestIntervention => "request_intervention"
  | .respondToIntervention => "respond_to_intervention"

structure ParticipantIntent where
  roleId : String
  capabilities : List ParticipantCapability := []

structure StageIntent where
  id : String
  ownerRoleId : String
  instructions : String
  handler : String := "host_callback"
  seePrior : Option Bool := none
  numAgents : U64 := 1
  reviewRounds : U64 := 0

structure FinalApprovalIntent where
  roleId : String
  guardName : String := "human_approved_outcome"
  trigger : String := "approve_outcome"

/-- What somebody who designs a ceremony says about it; the rest of the ceremony follows. -/
structure EmbeddedDesignCeremonyRequest where
  name : String
  version : String := "1.0"
  objective : String
  requiredInputs : List String := []
  optionalInputs : List String := []
  outputs : List String
  participants : List ParticipantIntent
  stages : List StageIntent
  finalApproval : Option FinalApprovalIntent := none
  stepTimeoutSeconds : U64 := 300
  maxAttempts : U32 := 2
  backoffSeconds : U64 := 1

end Intent

section Gate

def toAsciiUppercase (s : String) : String := String.ofList (s.toList.map Char.toUpper)

def toAsciiLowercase (s : String) : String := String.ofList (s.toList.map Char.toLower)

def eqIgnoreAsciiCase (s t : String) : Bool := toAsciiLowercase s = toAsciiLowercase t

def told {α : Type} (x : Except DomainError α) : Except String α := x.mapError DomainError.toString

def requireNonBlank (value field : String) : Except String Unit :=
  require (trim value ≠ "") ("field `" ++ field ++ "` must not be blank")

def rejectDuplicatesAfter (field : String) : OrdSet String → List String → Except String Unit
  | _, [] => .ok ()
  | seen, value :: rest =>
    if seen.contains value then
      .error ("field `" ++ field ++ "` contains duplicate `" ++ value ++ "`")
    else rejectDuplicatesAfter field (OrdSet.add value seen) rest

def rejectDuplicates (values : List String) (field : String) : Except String Unit :=
  rejectDuplicatesAfter field OrdMap.empty values

def validateNames {α : Type} (values : List String) (field : String)
    (constructor : String → Except DomainError α) : Except String Unit := do
  let _ ← told (values.mapM constructor)
  rejectDuplicates (values.map trim) field

def rejectOverlap (left right : List String) (leftName rightName : String) : Except String Unit :=
  match (right.map trim).find? fun value => value ∈ left.map trim with
  | none => .ok ()
  | some overlap =>
    .error ("`" ++ overlap ++ "` appears in both `" ++ leftName ++ "` and `" ++ rightName ++ "`")

def completion (stageId : String) : String := stageId ++ "_completed"

def isCapability (name : String) : Bool :=
  name = "request_intervention" || name = "respond_to_intervention"

def validateStage (participants : List String) (index : Nat) (stage : StageIntent) :
    Except String String := do
  let stepId ← told (Text.new stage.id : Except DomainError StepId)
  let _ ← told (Text.new stage.ownerRoleId : Except DomainError RoleId)
  require (participants.contains (trim stage.ownerRoleId))
    ("stage `" ++ stage.id ++ "` names unknown owner role `" ++ stage.ownerRoleId ++ "`")
  requireNonBlank stage.instructions ("stages[" ++ index.repr ++ "].instructions")
  let _ ← told (Text.new stage.handler : Except DomainError StepHandlerKind)
  require (stage.numAgents ≠ 0) ("stage `" ++ stage.id ++ "` must request at least one agent")
  require (!(0 < stage.reviewRounds && stage.numAgents < 2))
    ("stage `" ++ stage.id ++ "` requests review rounds with fewer than two agents")
  pure stepId.asStr

def validateStages (participants : List String) : Nat → List StageIntent →
    Except String (List String)
  | _, [] => .ok []
  | index, stage :: rest => do
    let stageId ← validateStage participants index stage
    let stageIds ← validateStages participants (index + 1) rest
    pure (stageId :: stageIds)

def collidingStage (stageIds : List String) : Option String :=
  stageIds.find? fun stageId => (stageIds.map completion).contains stageId || isCapability stageId

def validateCollisions (stageIds : List String) : Except String Unit :=
  match collidingStage stageIds with
  | none => .ok ()
  | some stageId =>
    .error ("stage id `" ++ stageId ++
      "` collides with a generated transition or role capability")

def validateApproval (participants stageIds : List String) (approval : FinalApprovalIntent) :
    Except String Unit := do
  let _ ← told (Text.new approval.roleId : Except DomainError RoleId)
  require (participants.contains (trim approval.roleId))
    ("final approval names unknown role `" ++ approval.roleId ++ "`")
  let _ ← told (Text.new approval.guardName : Except DomainError GuardName)
  let _ ← told (Text.new approval.trigger : Except DomainError TransitionTrigger)
  require (!(stageIds.map completion).contains (trim approval.guardName))
    ("final approval guard `" ++ approval.guardName ++
      "` collides with a generated completion guard")
  require (!((stageIds.map completion).contains (trim approval.trigger) ||
      stageIds.contains (trim approval.trigger) || isCapability (trim approval.trigger)))
    ("final approval trigger `" ++ approval.trigger ++
      "` collides with a stage, generated transition or role capability")

namespace EmbeddedDesignCeremonyRequest

variable (self : EmbeddedDesignCeremonyRequest)

def ownsStage (roleId : String) : Bool :=
  self.stages.any fun stage => trim stage.ownerRoleId = roleId

def ownsApproval (roleId : String) : Bool :=
  self.finalApproval.any fun approval => trim approval.roleId = roleId

def validateParticipant (participant : ParticipantIntent) : Except String Unit :=
  let roleId := trim participant.roleId
  require (!(participant.capabilities.isEmpty && !self.ownsStage roleId &&
      !self.ownsApproval roleId))
    ("participant role `" ++ roleId ++ "` has no stage, approval or intervention capability")

def validateIntent : Except String Unit := do
  let _ ← told (Text.new self.name : Except DomainError CeremonyName)
  let _ ← told (Text.new self.version : Except DomainError CeremonyVersion)
  let _ ← told (Text.new self.objective : Except DomainError CeremonyDescription)
  require (!self.outputs.isEmpty) "field `outputs` must contain at least one output"
  require (!self.participants.isEmpty)
    "field `participants` must contain at least one participant"
  require (!self.stages.isEmpty) "field `stages` must contain at least one stage"
  require (self.stepTimeoutSeconds ≠ 0) "field `step_timeout_seconds` must be greater than zero"
  require (self.maxAttempts ≠ 0) "field `max_attempts` must be greater than zero"
  validateNames self.requiredInputs "required_inputs" (Text.new : String → Except _ InputName)
  validateNames self.optionalInputs "optional_inputs" (Text.new : String → Except _ InputName)
  validateNames self.outputs "outputs" (Text.new : String → Except _ OutputName)
  rejectOverlap self.requiredInputs self.optionalInputs "required_inputs" "optional_inputs"
  let participantIds ← told ((self.participants.map ParticipantIntent.roleId).mapM
    (Text.new : String → Except _ RoleId))
  let participantIds := participantIds.map Text.asStr
  rejectDuplicates participantIds "participants.role_id"
  let stageIds ← validateStages participantIds 0 self.stages
  rejectDuplicates stageIds "stages.id"
  require (!stageIds.any fun stageId => eqIgnoreAsciiCase stageId "completed")
    "stage id `completed` is reserved for the terminal state"
  validateCollisions stageIds
  self.finalApproval.forM (validateApproval participantIds stageIds)
  self.participants.forM self.validateParticipant

end EmbeddedDesignCeremonyRequest

end Gate

section Documents

structure InputsDocument where
  required : List String
  optional : List String

structure StateDocument where
  id : String
  initial : Bool
  terminal : Bool

structure TransitionDocument where
  fromState : String
  toState : String
  trigger : String
  guards : List String

structure StepDocument where
  id : String
  state : String
  handler : String
  config : OrdMap String Value

structure GuardDocument where
  guardType : String
  check : String

structure RoleDocument where
  id : String
  allowedActions : List String

structure RetryPolicyDocument where
  maxAttempts : U32
  backoffSeconds : U64

/-- A ceremony as it is written down. -/
structure CeremonyDocument where
  version : String
  name : String
  description : String
  inputs : InputsDocument
  outputs : OrdMap String Value
  states : List StateDocument
  transitions : List TransitionDocument
  steps : List StepDocument
  guards : OrdMap String GuardDocument
  roles : List RoleDocument
  stepDefault : U64
  defaultPolicy : RetryPolicyDocument

/-- A ceremony as it is read, where some of it may have been left out. -/
structure CeremonyDefinitionDocument where
  version : String
  name : String
  description : Option String
  inputs : InputsDocument
  outputs : OrdMap String Value
  states : List StateDocument
  transitions : List TransitionDocument
  steps : List StepDocument
  guards : OrdMap String GuardDocument
  roles : List RoleDocument
  stepDefault : Option U64
  defaultPolicy : Option RetryPolicyDocument

/-- The document that says what was written. -/
def CeremonyDocument.reread (self : CeremonyDocument) : CeremonyDefinitionDocument where
  version := self.version
  name := self.name
  description := some self.description
  inputs := self.inputs
  outputs := self.outputs
  states := self.states
  transitions := self.transitions
  steps := self.steps
  guards := self.guards
  roles := self.roles
  stepDefault := some self.stepDefault
  defaultPolicy := some self.defaultPolicy

end Documents

section Writing

def stageStateId (stage : StageIntent) : String := toAsciiUppercase (trim stage.id)

def stageConfig (stage : StageIntent) (index : Nat) : OrdMap String Value :=
  let config := OrdMap.ofList
    [("num_agents", Value.number (.posInt stage.numAgents)),
      ("prompt", .string (trim stage.instructions)),
      ("see_prior", .bool (stage.seePrior.getD (0 < index)))]
  if 0 < stage.reviewRounds then config.insert "rounds" (.number (.posInt stage.reviewRounds))
  else config

def stepDocument (index : Nat) (stage : StageIntent) : StepDocument where
  id := trim stage.id
  state := stageStateId stage
  handler := trim stage.handler
  config := stageConfig stage index

abbrev Buckets := OrdMap String (OrdSet String)

def grant (roleId action : String) (actions : Buckets) : Option Buckets := do
  let bucket ← actions.get? roleId
  pure (actions.insert roleId (OrdSet.add action bucket))

/-- What the stages have come to so far. -/
structure Topology where
  guards : OrdMap String GuardDocument
  transitions : List TransitionDocument
  steps : List StepDocument
  actions : Buckets

def completionGuard (stageId : String) : GuardDocument :=
  ⟨"automated", "step_status:" ++ stageId ++ ":COMPLETED"⟩

def humanGuard : GuardDocument := ⟨"human", "manual_approval"⟩

namespace EmbeddedDesignCeremonyRequest

variable (self : EmbeddedDesignCeremonyRequest)

def capabilityBuckets : Buckets :=
  OrdMap.ofList (self.participants.map fun participant =>
    (trim participant.roleId,
      OrdSet.ofList (participant.capabilities.map ParticipantCapability.asAction)))

def stageStateIds : List String := self.stages.map stageStateId

/-- The approval that the move out of a stage waits for: only the last one may. -/
def approvalAfter (index : Nat) : Option FinalApprovalIntent :=
  if index + 1 = self.stages.length then self.finalApproval else none

def transitionTrigger (index : Nat) (stage : StageIntent) : String :=
  match self.approvalAfter index with
  | some approval => trim approval.trigger
  | none => completion (trim stage.id)

def transitionGuards (index : Nat) (stage : StageIntent) : List String :=
  match self.approvalAfter index with
  | some approval => [completion (trim stage.id), trim approval.guardName]
  | none => [completion (trim stage.id)]

def transitionOwner (index : Nat) (stage : StageIntent) : String :=
  match self.approvalAfter index with
  | some approval => trim approval.roleId
  | none => trim stage.ownerRoleId

def withStageGuards (index : Nat) (stage : StageIntent) (guards : OrdMap String GuardDocument) :
    OrdMap String GuardDocument :=
  let guards := guards.insert (completion (trim stage.id)) (completionGuard (trim stage.id))
  match self.approvalAfter index with
  | some approval => guards.insert (trim approval.guardName) humanGuard
  | none => guards

def transitionDocument (index : Nat) (stage : StageIntent) : TransitionDocument where
  fromState := stageStateId stage
  toState := self.stageStateIds[index + 1]?.getD "COMPLETED"
  trigger := self.transitionTrigger index stage
  guards := self.transitionGuards index stage

def writeStage (index : Nat) (stage : StageIntent) (topology : Topology) : Option Topology := do
  let actions ← grant (trim stage.ownerRoleId) (trim stage.id) topology.actions
  let actions ← grant (self.transitionOwner index stage) (self.transitionTrigger index stage)
    actions
  pure {
    guards := self.withStageGuards index stage topology.guards
    transitions := topology.transitions ++ [self.transitionDocument index stage]
    steps := topology.steps ++ [stepDocument index stage]
    actions }

def writeStages : Nat → List StageIntent → Topology → Option Topology
  | _, [], topology => some topology
  | index, stage :: rest, topology => do
    let topology ← self.writeStage index stage topology
    writeStages (index + 1) rest topology

def writeStates : List StateDocument :=
  self.stageStateIds.mapIdx (fun index id => ⟨id, index = 0, false⟩) ++
    [⟨"COMPLETED", false, true⟩]

end EmbeddedDesignCeremonyRequest

def writeRoles : List String → Buckets → Option (List RoleDocument)
  | [], _ => some []
  | roleId :: rest, actions => do
    let bucket ← actions.get? roleId
    let roles ← writeRoles rest (actions.erase roleId)
    pure (⟨roleId, bucket.keys⟩ :: roles)

/-- The document of a design, or nothing where a role that should be there is missing. -/
def EmbeddedDesignCeremonyRequest.intoDocument (self : EmbeddedDesignCeremonyRequest) :
    Option CeremonyDocument := do
  let topology ← self.writeStages 0 self.stages ⟨OrdMap.empty, [], [], self.capabilityBuckets⟩
  let roles ← writeRoles (self.participants.map fun participant => trim participant.roleId)
    topology.actions
  pure {
    version := trim self.version
    name := trim self.name
    description := trim self.objective
    inputs := ⟨self.requiredInputs.map trim, self.optionalInputs.map trim⟩
    outputs := OrdMap.ofList (self.outputs.map fun output =>
      (trim output, .object [("type", .string "object")]))
    states := self.writeStates
    transitions := topology.transitions
    steps := topology.steps
    guards := topology.guards
    roles
    stepDefault := self.stepTimeoutSeconds
    defaultPolicy := ⟨self.maxAttempts, self.backoffSeconds⟩ }

end Writing

section Reading

def saturatingMul (x : U64) (factor : Nat) : U64 := ⟨min (x.val * factor) (2 ^ 64 - 1), by omega⟩

def RetryPolicyDocument.intoDomain (self : RetryPolicyDocument) : Except DomainError RetryPolicy := do
  let maxAttempts ← StepAttempt.new self.maxAttempts
  pure ⟨maxAttempts, ⟨saturatingMul self.backoffSeconds 1000⟩⟩

def stepTimeout (duration : DurationMs) : Except DomainError StepTimeout :=
  if h : duration = DurationMs.zero then .error (.mustBeNonZero "step_timeout")
  else .ok ⟨duration, h⟩

def defaultStepTimeout (stepDefault : Option U64) : Except DomainError (Option StepTimeout) :=
  match stepDefault.filter fun seconds => 0 < seconds with
  | none => .ok none
  | some seconds => some <$> stepTimeout ⟨saturatingMul seconds 1000⟩

def InputsDocument.intoDomain (self : InputsDocument) :
    Except DomainError (List CeremonyInputDefinition) := do
  let required ← self.required.mapM fun name =>
    (Text.new name).map fun name => (⟨name, .required⟩ : CeremonyInputDefinition)
  let optional ← self.optional.mapM fun name =>
    (Text.new name).map fun name => (⟨name, .optional⟩ : CeremonyInputDefinition)
  pure (required ++ optional)

def StateDocument.intoDomain (self : StateDocument) : Except DomainError CeremonyState :=
  if self.initial && self.terminal then
    .error (.invariantViolated "ceremony state cannot be both initial and terminal")
  else do
    let id ← Text.new self.id
    pure ⟨id, if self.initial then .initial else if self.terminal then .terminal
      else .intermediate⟩

def TransitionDocument.intoDomain (self : TransitionDocument) :
    Except DomainError CeremonyTransition := do
  let fromState ← Text.new self.fromState
  let toState ← Text.new self.toState
  let trigger ← Text.new self.trigger
  let guards ← self.guards.mapM Text.new
  pure ⟨fromState, toState, trigger, OrdSet.ofList guards⟩

def StepDocument.intoDomain (retryPolicy : RetryPolicy) (timeout : Option StepTimeout)
    (self : StepDocument) : Except DomainError CeremonyStep := do
  let id ← Text.new self.id
  let state ← Text.new self.state
  let handler ← Text.new self.handler
  let config ← Attributes.new self.config
  pure ⟨id, state, handler, config, retryPolicy, timeout⟩

def readStatus (value : String) : Except DomainError StepStatus :=
  if value = "PENDING" then .ok .pending
  else if value = "IN_PROGRESS" then .ok .inProgress
  else if value = "COMPLETED" then .ok .completed
  else if value = "FAILED" then .ok .failed
  else if value = "WAITING_FOR_HUMAN" then .ok .waitingForHuman
  else if value = "CANCELLED" then .ok .cancelled
  else .error (.invariantViolated "unknown ceremony step status")

def parseStepStatusGuard (check : String) : Except DomainError GuardCondition :=
  match (check.toList.splitOn ':').map String.ofList with
  | [head, stepId, status] =>
    if head = "step_status" then do
      let stepId ← Text.new stepId
      let status ← readStatus status
      pure (.stepStatus stepId status)
    else .error (.invariantViolated "unsupported ceremony guard check")
  | _ => .error (.invariantViolated "unsupported ceremony guard check")

def GuardDocument.intoCondition (self : GuardDocument) : Except DomainError GuardCondition :=
  if self.guardType = "human" ∨ self.check = "manual_approval" then .ok .humanApproval
  else if self.check = "all_steps_completed" then .ok .allStepsCompleted
  else parseStepStatusGuard self.check

def GuardDocument.intoDomain (name : String) (self : GuardDocument) :
    Except DomainError CeremonyGuard := do
  let condition ← self.intoCondition
  let name ← Text.new name
  pure ⟨name, condition⟩

def fromCapabilityLabel (label : String) : Option RoleAction :=
  if label = "request_intervention" then some .requestIntervention
  else if label = "respond_to_intervention" then some .respondToIntervention
  else none

def speculativeRoleAction (raw : String) : Except DomainError RoleAction :=
  match (Text.new raw : Except DomainError StepId) with
  | .ok stepId => .ok (.step stepId)
  | .error _ => RoleAction.transition <$> Text.new raw

/-- What an action of a role means: it is only a text, and the names decide. -/
def toRoleAction (stepIds : OrdSet StepId) (triggers : OrdSet TransitionTrigger) (raw : String) :
    Except DomainError RoleAction :=
  let matchesStep := stepIds.keys.any fun stepId => stepId.asStr = raw
  let matchesTransition := triggers.keys.any fun trigger => trigger.asStr = raw
  match matchesStep, matchesTransition, fromCapabilityLabel raw with
  | true, false, none => RoleAction.step <$> Text.new raw
  | false, true, none => RoleAction.transition <$> Text.new raw
  | false, false, some capability => .ok capability
  | false, false, none => speculativeRoleAction raw
  | _, _, _ => .error (.invariantViolated "ceremony role action is ambiguous")

def RoleDocument.intoDomain (stepIds : OrdSet StepId) (triggers : OrdSet TransitionTrigger)
    (self : RoleDocument) : Except DomainError CeremonyRole := do
  let id ← Text.new self.id
  let actions ← self.allowedActions.mapM (toRoleAction stepIds triggers)
  CeremonyRole.new id actions

def CeremonyDefinitionDocument.intoDraft (self : CeremonyDefinitionDocument) :
    Except DomainError CeremonyDefinitionDraft := do
  let retryPolicy ← (self.defaultPolicy.map RetryPolicyDocument.intoDomain).getD
    (.ok RetryPolicy.singleAttempt)
  let timeout ← defaultStepTimeout self.stepDefault
  let steps ← self.steps.mapM (StepDocument.intoDomain retryPolicy timeout)
  let stepIds := OrdSet.ofList (steps.map CeremonyStep.id)
  let transitions ← self.transitions.mapM TransitionDocument.intoDomain
  let triggers := OrdSet.ofList (transitions.map CeremonyTransition.trigger)
  let guards ← self.guards.entries.mapM fun entry => GuardDocument.intoDomain entry.1 entry.2
  let roles ← self.roles.mapM (RoleDocument.intoDomain stepIds triggers)
  let name ← Text.new self.name
  let version ← Text.new self.version
  let description ← self.description.mapM Text.new
  let inputs ← self.inputs.intoDomain
  let outputs ← self.outputs.keys.mapM fun name => CeremonyOutputDefinition.mk <$> Text.new name
  let states ← self.states.mapM StateDocument.intoDomain
  pure { name, version, description, inputs, outputs, states, transitions, steps, guards, roles }

end Reading

section Designing

/-- The YAML library: how a document becomes a text and a text a document. -/
structure Yaml where
  Text : Type
  toString : CeremonyDocument → Except String Text
  fromStr : Text → Option CeremonyDefinitionDocument

/-- A document that is written can be read, and says the same. -/
def Yaml.Lossless (yaml : Yaml) : Prop :=
  ∀ document, ∃ text, yaml.toString document = .ok text ∧
    yaml.fromStr text = some document.reread

def parseDraftStr (yaml : Yaml) (raw : yaml.Text) : Except DomainError CeremonyDefinitionDraft := do
  let document ← okOr (yaml.fromStr raw) (.invariantViolated "invalid ceremony yaml")
  document.intoDraft

structure DesignedCeremonyDraft (yaml : Yaml) where
  definitionYaml : yaml.Text
  draft : CeremonyDefinitionDraft
  stageCount : Nat
  participantCount : Nat
  finalApprovalRequired : Bool

def EmbeddedDesignCeremonyRequest.render (self : EmbeddedDesignCeremonyRequest) (yaml : Yaml)
    (document : CeremonyDocument) : Except String (DesignedCeremonyDraft yaml) := do
  let definitionYaml ← (yaml.toString document).mapError
    fun error => "ceremony draft could not be rendered as YAML: " ++ error
  let draft ← (parseDraftStr yaml definitionYaml).mapError
    fun error => "designed ceremony draft could not be parsed: " ++ error.toString
  pure ⟨definitionYaml, draft, self.stages.length, self.participants.length,
    self.finalApproval.isSome⟩

/-- Design a ceremony: there is no answer at all where the code would panic. -/
def EmbeddedDesignCeremonyRequest.design (self : EmbeddedDesignCeremonyRequest) (yaml : Yaml) :
    Option (Except String (DesignedCeremonyDraft yaml)) :=
  match self.validateIntent with
  | .error e => some (.error e)
  | .ok () => self.intoDocument.map (self.render yaml)

end Designing

end Choreographer.Designs
