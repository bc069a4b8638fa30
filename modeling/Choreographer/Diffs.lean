import Choreographer.Definition

namespace Choreographer.Diffs

open Choreographer.Lib.SortedMaps Choreographer.Lib.Updates
open Choreographer.Texts Choreographer.Values Choreographer.Steps Choreographer.DefinitionParts
open Choreographer.Definition

section Equality

def negZero : Nat := 0x8000000000000000

/-- A JSON number is finite, so that two doubles are equal if their bits are or if both
are zeros. -/
def floatEq (a b : U64) : Bool :=
  a = b || ((a.val = 0 || a.val = negZero) && (b.val = 0 || b.val = negZero))

def numberEq : Number → Number → Bool
  | .posInt m, .posInt n => m = n
  | .negInt m, .negInt n => m = n
  | .float a, .float b => floatEq a b
  | _, _ => false

mutual
def valueEq : Value → Value → Bool
  | .null, .null => true
  | .bool a, .bool b => a = b
  | .number m, .number n => numberEq m n
  | .string s, .string t => s = t
  | .array items, .array others => itemsEq items others
  | .object entries, .object others => entriesEq entries others
  | _, _ => false
termination_by structural x => x

def itemsEq : List Value → List Value → Bool
  | [], [] => true
  | item :: items, other :: others => valueEq item other && itemsEq items others
  | _, _ => false
termination_by structural x => x

def entryEq : String × Value → String × Value → Bool
  | (key, value), (key', value') => key = key' && valueEq value value'
termination_by structural x => x

def entriesEq : List (String × Value) → List (String × Value) → Bool
  | [], [] => true
  | entry :: entries, other :: others => entryEq entry other && entriesEq entries others
  | _, _ => false
termination_by structural x => x
end

def attributesEq (a b : Attributes) : Bool := entriesEq a.entries.entries b.entries.entries

end Equality

inductive CeremonyChangeKind
  | added
  | removed
  | altered
deriving DecidableEq

/-- Whether a session that runs the earlier definition could go on with the later one. -/
inductive CeremonyChangeImpact
  | carries
  | strands
deriving DecidableEq

structure CeremonyDefinitionChange where
  kind : CeremonyChangeKind
  locus : CeremonyValidationLocus
  impact : CeremonyChangeImpact
  detail : String
deriving DecidableEq

def isRequired (input : CeremonyInputDefinition) : Bool := input.requirement = .required

section Comparison

variable (before after : CeremonyDefinition)

def diffState (id : StateId) (state : CeremonyState) : List CeremonyDefinitionChange :=
  match after.states.get? id with
  | none => [⟨.removed, .state id, .strands, "a session in this state would have nowhere to be"⟩]
  | some now =>
    if now.kind ≠ state.kind then
      [⟨.altered, .state id, .strands, "whether the session may start or finish here"⟩]
    else []

def diffStates : List CeremonyDefinitionChange :=
  (before.states.entries.flatMap fun entry => diffState after entry.1 entry.2) ++
  ((after.states.keys.filter fun id => !before.states.contains id).map fun id =>
    ⟨.added, .state id, .carries, "a state no running session is in yet"⟩)

def transitionKey (transition : CeremonyTransition) : String × String :=
  (transition.fromState.asStr, transition.trigger.asStr)

theorem transitionKey_eq {t u : CeremonyTransition} :
    transitionKey t = transitionKey u ↔ t.fromState = u.fromState ∧ t.trigger = u.trigger := by
  simp [transitionKey, Text.ext_iff]

theorem counterpart_of_find {transitions : List CeremonyTransition} {old now : CeremonyTransition}
    (h : (transitions.find? fun candidate => transitionKey candidate = transitionKey old)
      = some now) :
    now ∈ transitions ∧ now.fromState = old.fromState ∧ now.trigger = old.trigger := by
  have hkey := List.find?_some h
  simp only [decide_eq_true_eq] at hkey
  exact ⟨List.mem_of_find?_eq_some h, transitionKey_eq.mp hkey⟩

def isSuperset (guards others : OrdSet GuardName) : Bool :=
  others.keys.all fun guardName => guards.contains guardName

def diffTransition (old : CeremonyTransition) : List CeremonyDefinitionChange :=
  let locus := .transition old.fromState old.trigger
  match after.transitions.find? fun candidate => transitionKey candidate = transitionKey old with
  | none => [⟨.removed, locus, .strands, "a way out of the state it leaves"⟩]
  | some now =>
    if now.toState ≠ old.toState then [⟨.altered, locus, .strands, "where it leads"⟩]
    else if now.requiredGuards ≠ old.requiredGuards then
      let impact := if isSuperset now.requiredGuards old.requiredGuards then .strands else .carries
      [⟨.altered, locus, impact, "what has to hold before it can fire"⟩]
    else []

def diffTransitions : List CeremonyDefinitionChange :=
  before.transitions.flatMap (diffTransition after) ++
  ((after.transitions.filter fun now =>
      !before.transitions.any fun candidate => transitionKey candidate = transitionKey now).map
    fun now => ⟨.added, .transition now.fromState now.trigger, .carries,
      "another way out of a state"⟩)

def diffStep (id : StepId) (old : CeremonyStep) : List CeremonyDefinitionChange :=
  match after.steps.get? id with
  | none => [⟨.removed, .step id, .strands, "work a session may not have done yet"⟩]
  | some now =>
    (if now.stateId ≠ old.stateId then
      [⟨.altered, .step id, .strands, "the state it belongs to"⟩] else []) ++
    (if now.handlerKind ≠ old.handlerKind then
      [⟨.altered, .step id, .carries, "who does the work"⟩] else []) ++
    (if !attributesEq now.handlerConfig old.handlerConfig then
      [⟨.altered, .step id, .carries, "how the work is asked for"⟩] else []) ++
    (if now.retryPolicy ≠ old.retryPolicy ∨ now.timeout ≠ old.timeout then
      [⟨.altered, .step id, .carries, "how long it may take and how often it may be retried"⟩]
      else [])

def diffSteps : List CeremonyDefinitionChange :=
  (before.steps.entries.flatMap fun entry => diffStep after entry.1 entry.2) ++
  ((after.steps.keys.filter fun id => !before.steps.contains id).map fun id =>
    ⟨.added, .step id, .strands, "work a session may already have moved past"⟩)

def diffGuard (name : GuardName) (old : CeremonyGuard) : List CeremonyDefinitionChange :=
  match after.guards.get? name with
  | none => [⟨.removed, .guard name, .carries, "a condition no longer asked for"⟩]
  | some now =>
    if now.condition ≠ old.condition then
      [⟨.altered, .guard name, .strands, "what satisfies it"⟩]
    else []

def diffGuards : List CeremonyDefinitionChange :=
  (before.guards.entries.flatMap fun entry => diffGuard after entry.1 entry.2) ++
  ((after.guards.keys.filter fun name => !before.guards.contains name).map fun name =>
    ⟨.added, .guard name, .carries,
      "a condition that only matters where a transition asks for it"⟩)

def diffRole (id : RoleId) (old : CeremonyRole) : List CeremonyDefinitionChange :=
  match after.roles.get? id with
  | none =>
    [⟨.removed, .role id, .strands, "whoever was acting as this role can no longer act"⟩]
  | some now =>
    if now.allowedActions ≠ old.allowedActions then
      let impact := if old.allowedActions.keys.all now.allows then .carries else .strands
      [⟨.altered, .role id, impact, "what this role is allowed to do"⟩]
    else []

def diffRoles : List CeremonyDefinitionChange :=
  (before.roles.entries.flatMap fun entry => diffRole after entry.1 entry.2) ++
  ((after.roles.keys.filter fun id => !before.roles.contains id).map fun id =>
    ⟨.added, .role id, .carries, "another role at the table"⟩)

def impactOf (input : CeremonyInputDefinition) : CeremonyChangeImpact :=
  if isRequired input then .strands else .carries

def diffInput (name : InputName) (now : CeremonyInputDefinition) : List CeremonyDefinitionChange :=
  match before.inputs.get? name with
  | none => [⟨.added, .input name, impactOf now, "an input the ceremony now asks for"⟩]
  | some was =>
    if isRequired was ≠ isRequired now then
      [⟨.altered, .input name, impactOf now, "whether it has to be supplied"⟩]
    else []

def diffShape : List CeremonyDefinitionChange :=
  ((before.inputs.keys.filter fun name => !after.inputs.contains name).map fun name =>
    ⟨.removed, .input name, .carries, "an input no longer asked for"⟩) ++
  (after.inputs.entries.flatMap fun entry => diffInput before entry.1 entry.2) ++
  ((before.outputs.keys.filter fun name => !after.outputs.contains name).map fun name =>
    ⟨.removed, .output name, .carries, "an output no longer produced"⟩) ++
  ((after.outputs.keys.filter fun name => !before.outputs.contains name).map fun name =>
    ⟨.added, .output name, .carries, "an output not produced before"⟩) ++
  (if before.description ≠ after.description then
    [⟨.altered, .definition, .carries, "what the ceremony says it is for"⟩] else [])

end Comparison

structure CeremonyDefinitionDiff where
  changes : List CeremonyDefinitionChange

namespace CeremonyDefinitionDiff

def between (before after : CeremonyDefinition) : CeremonyDefinitionDiff where
  changes := diffStates before after ++ diffTransitions before after ++ diffSteps before after ++
    diffGuards before after ++ diffRoles before after ++ diffShape before after

def isIdentical (self : CeremonyDefinitionDiff) : Bool := self.changes.isEmpty

def strandsRunningSessions (self : CeremonyDefinitionDiff) : Bool :=
  self.changes.any fun change => change.impact = .strands

end CeremonyDefinitionDiff

end Choreographer.Diffs
