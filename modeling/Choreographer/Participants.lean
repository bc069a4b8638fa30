import Choreographer.Definition
import Choreographer.Deliberate
import Choreographer.StepConfig

namespace Choreographer.Participants

open Choreographer.Lib.SortedMaps Choreographer.Lib.Updates
open Choreographer.Texts Choreographer.Values Choreographer.DefinitionParts
open Choreographer.Definition Choreographer.StepConfig Choreographer.Deliberate

section Plan

/-- What an agent is created from. -/
structure AgentDescriptor where
  id : AgentId
  specialty : Specialty
  kind : AgentKind
  attributes : Attributes

variable (definition : CeremonyDefinition) (step : CeremonyStep)

def stepConfig : CeremonyStepConfig := ⟨step.handlerConfig, step.handlerKind⟩

/-- What a step declares about those who work on it. -/
structure Declaration where
  specialty : Specialty
  kind : AgentKind
  labels : List String
  count : Nat

def declaration : Except DomainError Declaration := do
  let specialty ← (stepConfig step).specialty
  let kind ← (stepConfig step).agentKind
  let labels ← (stepConfig step).participantLabels
  let count ← if labels.isEmpty then do
      let numAgents ← (stepConfig step).numAgents
      pure (match numAgents with
        | some num => num.get.val
        | none => 1)
    else pure labels.length
  pure { specialty, kind, labels, count }

theorem mod_u64_lt (n : Nat) : n % 2 ^ 64 < 2 ^ 64 := Nat.mod_lt n (by decide)

def toU64 (n : Nat) : U64 := ⟨n % 2 ^ 64, mod_u64_lt n⟩

def participantAttributes (index : Nat) (label : Option String) : OrdMap String Value :=
  let attributes := step.handlerConfig.entries
    |>.insert "ceremony.definition_name" (.string definition.name.asStr)
    |>.insert "ceremony.definition_version" (.string definition.version.asStr)
    |>.insert "ceremony.step_id" (.string step.id.asStr)
    |>.insert "ceremony.handler_kind" (.string step.handlerKind.asStr)
    |>.insert "ceremony.participant.index" (.number (.posInt (toU64 index)))
  match label with
  | some label => attributes.insert "ceremony.participant.label" (.string label)
  | none => attributes

def agentIdText (specialty : Specialty) (index : Nat) : String :=
  "agent-" ++ specialty.asStr ++ "-" ++ index.repr

def participant (declared : Declaration) (index : Nat) : Except DomainError AgentDescriptor := do
  let id ← Text.new (agentIdText declared.specialty index)
  let attributes ← Attributes.new
    (participantAttributes definition step index declared.labels[index]?)
  pure ⟨id, declared.specialty, declared.kind, attributes⟩

def participantsFromStep : Except DomainError (List AgentDescriptor) := do
  let declared ← declaration step
  (List.range declared.count).mapM (participant definition step declared)

/-- Whoever was planned first under an id stays. -/
def plan (participants : OrdMap AgentId AgentDescriptor) (descriptor : AgentDescriptor) :
    OrdMap AgentId AgentDescriptor :=
  if participants.contains descriptor.id then participants
  else participants.insert descriptor.id descriptor

def fromDefinition : Except DomainError (List AgentDescriptor) := do
  let descriptors ← definition.parts.steps.values.mapM (participantsFromStep definition)
  pure ((descriptors.flatten.foldl plan OrdMap.empty).values)

end Plan

section Prepare

/-- The agents and the councils in memory. An agent is known by what it was created from. -/
structure Registries where
  agents : OrdMap AgentId AgentDescriptor
  councils : OrdMap Specialty Council

def Registries.new : Registries := ⟨OrdMap.empty, OrdMap.empty⟩

abbrev Preparing := Update DomainError Registries

def registerAgent (agent : AgentDescriptor) : Preparing Unit := do
  check fun registries => require (!registries.agents.contains agent.id) (.alreadyExists "agent")
  modify fun registries => { registries with agents := registries.agents.insert agent.id agent }

def registerCouncil (council : Council) : Preparing Unit := do
  check fun registries =>
    require (!registries.councils.contains council.specialty) (.alreadyExists "council")
  modify fun registries =>
    { registries with councils := registries.councils.insert council.specialty council }

/-- What exists already is left as it is. -/
def unlessExists (x : Preparing Unit) : Preparing Unit :=
  ExceptT.mk fun registries =>
    match x.on registries with
    | (.error (.alreadyExists _), registries) => (.ok (), registries)
    | (.error e, registries) => (.error e, registries)
    | (.ok _, registries) => (.ok (), registries)

def newCouncil (specialty : Specialty) (agents : OrdSet AgentId) : Except DomainError Council := do
  let id ← Text.new ("ceremony-" ++ specialty.asStr)
  require (!agents.entries.isEmpty) (.emptyCollection "council.agents")
  pure ⟨id, specialty, agents⟩

abbrev Groups := OrdMap Specialty (OrdSet AgentId)

def Groups.add (groups : Groups) (agent : AgentDescriptor) : Groups :=
  groups.insert agent.specialty
    (OrdSet.add agent.id ((groups.get? agent.specialty).getD OrdMap.empty))

/-- A definition is prepared while a factory answers for each agent that is to be created. -/
structure Preparation where
  definition : CeremonyDefinition
  create : AgentDescriptor → Except DomainError Unit

variable (create : AgentDescriptor → Except DomainError Unit)

def enlist : List AgentDescriptor → Groups → Preparing Groups
  | [], groups => pure groups
  | agent :: rest, groups => do
    check fun _ => create agent
    unlessExists (registerAgent agent)
    enlist rest (Groups.add groups agent)

def convene : List (Specialty × OrdSet AgentId) → Preparing Unit
  | [] => pure ()
  | (specialty, agents) :: rest => do
    let council ← check fun _ => newCouncil specialty agents
    unlessExists (registerCouncil council)
    convene rest

def execute (participants : List AgentDescriptor) : Preparing Unit := do
  let groups ← enlist create participants OrdMap.empty
  convene groups.entries

def prepare (preparation : Preparation) : Preparing Unit := do
  let participants ← check fun _ => fromDefinition preparation.definition
  execute preparation.create participants

def after (preparation : Preparation) (registries : Registries) : Registries :=
  ((prepare preparation).on registries).2

end Prepare

section Deliberating

def resolve (registries : Registries) (id : AgentId) : Except DomainError AgentDescriptor :=
  okOr (registries.agents.get? id) (.notFound "agent")

def resolveAll (registries : Registries) (ids : List AgentId) :
    Except DomainError (List AgentDescriptor) := ids.mapM (resolve registries)

def picks (council : Council) (numAgents : Option U32) : List AgentId :=
  match numAgents with
  | some n => council.agents.keys.take n.val
  | none => council.agents.keys

theorem resolveAgents_eq (council : Council) (constraints : Contracts.TaskConstraints) :
    resolveAgents council constraints =
      ExceptT.mk (Lib.Programs.Prog.call (I := calls)
        (.resolveAll (picks council constraints.numAgents))) := rfl

end Deliberating

end Choreographer.Participants
