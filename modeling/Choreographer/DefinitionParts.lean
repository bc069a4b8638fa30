import Mathlib.Data.Prod.Lex
import Choreographer.Steps

namespace Choreographer.DefinitionParts

open Choreographer.Lib.ByteStrings Choreographer.Lib.SortedMaps Choreographer.Lib.Updates
open Choreographer.Texts Choreographer.Values Choreographer.Steps

inductive CeremonyStateKind
  | initial
  | intermediate
  | terminal
deriving DecidableEq, Repr

structure CeremonyState where
  id : StateId
  kind : CeremonyStateKind
deriving DecidableEq

def CeremonyState.isInitial (self : CeremonyState) : Bool := self.kind = .initial

def CeremonyState.isTerminal (self : CeremonyState) : Bool := self.kind = .terminal

structure CeremonyTransition where
  fromState : StateId
  toState : StateId
  trigger : TransitionTrigger
  requiredGuards : OrdSet GuardName

inductive GuardCondition
  | always
  | allStepsCompleted
  | stepStatus (stepId : StepId) (status : StepStatus)
  | humanApproval
deriving DecidableEq

def GuardCondition.referencedStepId : GuardCondition → Option StepId
  | .stepStatus stepId _ => some stepId
  | _ => none

structure CeremonyGuard where
  name : GuardName
  condition : GuardCondition
deriving DecidableEq

def CeremonyGuard.isSatisfied (self : CeremonyGuard) (records : OrdMap StepId StepExecutionRecord)
    (context : CeremonyContext) : Bool :=
  match self.condition with
  | .always => true
  | .allStepsCompleted =>
    !records.entries.isEmpty && records.values.all fun record => record.status.isSuccess
  | .stepStatus stepId status =>
    (records.get? stepId).any fun record => record.status == status
  | .humanApproval => context.isGuardApproved self.name

structure CeremonyStep where
  id : StepId
  stateId : StateId
  handlerKind : StepHandlerKind
  handlerConfig : Attributes
  retryPolicy : RetryPolicy
  timeout : Option StepTimeout

inductive RoleAction
  | step (stepId : StepId)
  | transition (trigger : TransitionTrigger)
  | requestIntervention
  | respondToIntervention
deriving DecidableEq

namespace RoleAction

def rank : RoleAction → Lex (Nat × List Byte)
  | .step stepId => toLex (0, utf8 stepId.asStr)
  | .transition trigger => toLex (1, utf8 trigger.asStr)
  | .requestIntervention => toLex (2, [])
  | .respondToIntervention => toLex (3, [])

theorem rank_injective : Function.Injective rank := by
  intro a b h
  cases a <;> cases b <;> simp_all [rank, Text.ext_iff, utf8_injective.eq_iff]

instance : LinearOrder RoleAction := LinearOrder.lift' rank rank_injective

def stepId : RoleAction → Option StepId
  | .step stepId => some stepId
  | _ => none

def transitionTrigger : RoleAction → Option TransitionTrigger
  | .transition trigger => some trigger
  | _ => none

end RoleAction

structure CeremonyRole where
  id : RoleId
  allowedActions : OrdSet RoleAction
  nonempty : allowedActions.entries ≠ []

def CeremonyRole.new (id : RoleId) (allowedActions : List RoleAction) :
    Except DomainError CeremonyRole :=
  if h : (OrdSet.ofList allowedActions).entries = [] then
    .error (.emptyCollection "ceremony_role.allowed_actions")
  else .ok ⟨id, OrdSet.ofList allowedActions, h⟩

def CeremonyRole.allows (self : CeremonyRole) (action : RoleAction) : Bool :=
  self.allowedActions.contains action

inductive InputRequirement
  | required
  | optional
deriving DecidableEq, Repr

structure CeremonyInputDefinition where
  name : InputName
  requirement : InputRequirement
deriving DecidableEq

structure CeremonyOutputDefinition where
  name : OutputName
deriving DecidableEq

inductive CeremonyValidationSeverity
  | error
  | warning
deriving DecidableEq, Repr

inductive CeremonyValidationLocus
  | definition
  | input (input : InputName)
  | output (output : OutputName)
  | state (state : StateId)
  | transition (fromState : StateId) (trigger : TransitionTrigger)
  | step (step : StepId)
  | guard (guard : GuardName)
  | role (role : RoleId)
deriving DecidableEq

structure CeremonyValidationFinding where
  severity : CeremonyValidationSeverity
  locus : CeremonyValidationLocus
  defect : DomainError
deriving DecidableEq

def CeremonyValidationFinding.error (locus : CeremonyValidationLocus) (defect : DomainError) :
    CeremonyValidationFinding := ⟨.error, locus, defect⟩

def CeremonyValidationFinding.warning (locus : CeremonyValidationLocus) (defect : DomainError) :
    CeremonyValidationFinding := ⟨.warning, locus, defect⟩

def CeremonyValidationFinding.isBlocking (self : CeremonyValidationFinding) : Bool :=
  self.severity = .error

/-- The assembled parts of a ceremony state machine. -/
structure CeremonyDefinitionParts where
  states : OrdMap StateId CeremonyState
  transitions : List CeremonyTransition
  steps : OrdMap StepId CeremonyStep
  guards : OrdMap GuardName CeremonyGuard
  roles : OrdMap RoleId CeremonyRole

namespace CeremonyDefinitionParts

def initialStateFindings (self : CeremonyDefinitionParts) : List CeremonyValidationFinding :=
  if self.states.entries.isEmpty then
    [.error .definition (.emptyCollection "ceremony_definition.states")]
  else if (self.states.values.filter fun state => state.isInitial).length ≠ 1 then
    [.error .definition
      (.invariantViolated "ceremony definition must have exactly one initial state")]
  else []

/-- What is wrong with one transition, given the pairs of state and trigger
taken by the transitions before it, and whether it takes its own. -/
def transitionFindings (self : CeremonyDefinitionParts) (taken : List (StateId × TransitionTrigger))
    (transition : CeremonyTransition) : List CeremonyValidationFinding × Bool :=
  let locus := .transition transition.fromState transition.trigger
  match self.states.get? transition.fromState with
  | none => ([.error locus (.notFound "ceremony_transition.from_state")], false)
  | some state =>
    if !self.states.contains transition.toState then
      ([.error locus (.notFound "ceremony_transition.to_state")], false)
    else if state.isTerminal then
      ([.error locus
        (.invariantViolated "terminal ceremony states cannot have outgoing transitions")], false)
    else if (transition.fromState, transition.trigger) ∈ taken then
      ([.error locus (.alreadyExists "ceremony_transition.state_trigger")], false)
    else
      ((transition.requiredGuards.keys.filter fun guardName => !self.guards.contains guardName).map
        fun _ => .error locus (.notFound "ceremony_transition.guard"), true)

def transitionGraphFindings (self : CeremonyDefinitionParts) :
    List (StateId × TransitionTrigger) → List CeremonyTransition → List CeremonyValidationFinding
  | _, [] => []
  | taken, transition :: rest =>
    let (findings, takes) := self.transitionFindings taken transition
    findings ++ self.transitionGraphFindings
      (if takes then (transition.fromState, transition.trigger) :: taken else taken) rest

def stepFindings (self : CeremonyDefinitionParts) (stepId : StepId) (step : CeremonyStep) :
    List CeremonyValidationFinding :=
  match self.states.get? step.stateId with
  | none => [.error (.step stepId) (.notFound "ceremony_step.state")]
  | some state =>
    if state.isTerminal then
      [.error (.step stepId)
        (.invariantViolated "terminal ceremony states cannot own executable steps")]
    else []

def guardFindings (self : CeremonyDefinitionParts) (guardName : GuardName) (guard : CeremonyGuard) :
    List CeremonyValidationFinding :=
  match guard.condition.referencedStepId with
  | none => []
  | some stepId =>
    if self.steps.contains stepId then []
    else [.error (.guard guardName) (.notFound "ceremony_guard.step")]

def roleActionFindings (self : CeremonyDefinitionParts) (roleId : RoleId) (action : RoleAction) :
    List CeremonyValidationFinding :=
  (match action.stepId with
    | none => []
    | some stepId =>
      if self.steps.contains stepId then []
      else [.error (.role roleId) (.notFound "ceremony_role.step_action")]) ++
  (match action.transitionTrigger with
    | none => []
    | some trigger =>
      if self.transitions.any fun transition => transition.trigger = trigger then []
      else [.error (.role roleId) (.notFound "ceremony_role.transition_action")])

def soleInitialStateId (self : CeremonyDefinitionParts) : Option StateId :=
  match self.states.entries.filter fun entry => entry.2.isInitial with
  | [entry] => some entry.1
  | _ => none

def transitionEndpointsResolve (self : CeremonyDefinitionParts) : Bool :=
  self.transitions.all fun transition =>
    self.states.contains transition.fromState && self.states.contains transition.toState

/-- Walk the transitions from the states still pending. Every state is expanded
once, so the walk ends after at most one turn for each transition and one more. -/
def walk (transitions : List CeremonyTransition) :
    Nat → List StateId → OrdSet StateId → OrdSet StateId
  | 0, _, reached => reached
  | _, [], reached => reached
  | fuel + 1, current :: pending, reached =>
    if reached.contains current then walk transitions fuel pending reached
    else
      let targets := (transitions.filter fun transition => transition.fromState = current).map
        CeremonyTransition.toState
      walk transitions fuel (targets.reverse ++ pending) (OrdSet.add current reached)

def statesReachableFrom (self : CeremonyDefinitionParts) (initial : StateId) : OrdSet StateId :=
  walk self.transitions (self.transitions.length + 1) [initial] OrdMap.empty

/-- One pass over the transitions: a state with a way into a state that can
finish can finish. -/
def finishPass (transitions : List CeremonyTransition) (canFinish : OrdSet StateId) :
    OrdSet StateId × Bool :=
  transitions.foldl (fun acc transition =>
    if acc.1.contains transition.toState && !acc.1.contains transition.fromState then
      (OrdSet.add transition.fromState acc.1, true)
    else acc) (canFinish, false)

def finishPasses (transitions : List CeremonyTransition) : Nat → OrdSet StateId → OrdSet StateId
  | 0, canFinish => canFinish
  | fuel + 1, canFinish =>
    match finishPass transitions canFinish with
    | (grown, true) => finishPasses transitions fuel grown
    | (grown, false) => grown

def statesThatReachATerminal (self : CeremonyDefinitionParts) : OrdSet StateId :=
  finishPasses self.transitions (self.transitions.length + 1)
    (OrdSet.ofList ((self.states.entries.filter fun entry => entry.2.isTerminal).map Prod.fst))

def reachabilityFindings (self : CeremonyDefinitionParts) : List CeremonyValidationFinding :=
  match self.soleInitialStateId with
  | none => []
  | some initial =>
    if !self.transitionEndpointsResolve then []
    else if !self.states.values.any fun state => state.isTerminal then
      [.warning .definition (.invariantViolated "ceremony definition has no terminal state")]
    else
      let reachable := self.statesReachableFrom initial
      let canFinish := self.statesThatReachATerminal
      self.states.keys.flatMap fun stateId =>
        if !reachable.contains stateId then
          [.warning (.state stateId)
            (.invariantViolated "ceremony state is unreachable from the initial state")]
        else if !canFinish.contains stateId then
          [.warning (.state stateId)
            (.invariantViolated "no terminal state is reachable from this ceremony state")]
        else []

def collectFindings (self : CeremonyDefinitionParts) : List CeremonyValidationFinding :=
  self.initialStateFindings ++
  self.transitionGraphFindings [] self.transitions ++
  (self.steps.entries.flatMap fun entry => self.stepFindings entry.1 entry.2) ++
  (self.guards.entries.flatMap fun entry => self.guardFindings entry.1 entry.2) ++
  (self.roles.entries.flatMap fun entry =>
    entry.2.allowedActions.keys.flatMap fun action => self.roleActionFindings entry.1 action) ++
  self.reachabilityFindings

def firstError (findings : List CeremonyValidationFinding) : Option CeremonyValidationFinding :=
  findings.find? fun finding => finding.isBlocking

def validate (self : CeremonyDefinitionParts) : Except DomainError Unit :=
  match firstError self.collectFindings with
  | some finding => .error finding.defect
  | none => .ok ()

def Clean (findings : List CeremonyValidationFinding) : Prop :=
  ∀ finding ∈ findings, finding.isBlocking = false

@[simp] theorem clean_append {xs ys : List CeremonyValidationFinding} :
    Clean (xs ++ ys) ↔ Clean xs ∧ Clean ys := by
  simp [Clean, or_imp, forall_and]

theorem not_clean_error_cons {locus : CeremonyValidationLocus} {defect : DomainError}
    {findings : List CeremonyValidationFinding} :
    ¬ Clean (CeremonyValidationFinding.error locus defect :: findings) := by
  intro h
  have := h _ (List.mem_cons_self ..)
  simp [CeremonyValidationFinding.error, CeremonyValidationFinding.isBlocking] at this

theorem validate_ok {self : CeremonyDefinitionParts} (h : self.validate = .ok ()) :
    Clean self.collectFindings := by
  unfold validate at h
  split at h
  · simp at h
  · next hn =>
    intro finding hf
    simpa using List.find?_eq_none.mp hn finding hf

/-- A transition the analysis has nothing against. -/
structure WellPlaced (parts : CeremonyDefinitionParts) (transition : CeremonyTransition) : Prop where
  leaves : ∃ state, parts.states.get? transition.fromState = some state ∧ state.isTerminal = false
  enters : parts.states.contains transition.toState = true
  guarded : ∀ guardName, transition.requiredGuards.contains guardName = true →
    parts.guards.contains guardName = true

theorem transitionFindings_clean {self : CeremonyDefinitionParts}
    {taken : List (StateId × TransitionTrigger)} {transition : CeremonyTransition}
    (h : Clean (self.transitionFindings taken transition).1) :
    self.WellPlaced transition ∧ (transition.fromState, transition.trigger) ∉ taken ∧
      (self.transitionFindings taken transition).2 = true := by
  unfold transitionFindings at h ⊢
  simp only at h ⊢
  split at h
  · exact absurd h not_clean_error_cons
  · next state hs =>
    split_ifs at h ⊢ with hto hterm htaken
    · exact absurd h not_clean_error_cons
    · exact absurd h not_clean_error_cons
    · exact absurd h not_clean_error_cons
    · refine ⟨⟨⟨state, hs, by simpa using hterm⟩, by simpa using hto, fun guardName hg => ?_⟩,
        htaken, rfl⟩
      by_contra hn
      have hmem : guardName ∈ transition.requiredGuards.keys.filter
          fun guardName => !self.guards.contains guardName := by
        simpa using ⟨OrdMap.mem_keys.mpr hg, Bool.not_eq_true _ ▸ hn⟩
      have := h _ (List.mem_map_of_mem hmem)
      simp [CeremonyValidationFinding.error, CeremonyValidationFinding.isBlocking] at this

theorem transitionGraphFindings_clean {self : CeremonyDefinitionParts}
    {taken : List (StateId × TransitionTrigger)} {transitions : List CeremonyTransition}
    (h : Clean (self.transitionGraphFindings taken transitions)) :
    (∀ t ∈ transitions, self.WellPlaced t ∧ (t.fromState, t.trigger) ∉ taken) ∧
      transitions.Pairwise fun t u => (t.fromState, t.trigger) ≠ (u.fromState, u.trigger) := by
  induction transitions generalizing taken with
  | nil => simp
  | cons t rest ih =>
    simp only [transitionGraphFindings, clean_append] at h
    obtain ⟨hplaced, hfree, htakes⟩ := transitionFindings_clean h.1
    rw [htakes, if_pos rfl] at h
    obtain ⟨hrest, hpair⟩ := ih h.2
    refine ⟨?_, List.pairwise_cons.mpr ⟨fun u hu he => ?_, hpair⟩⟩
    · intro u hu
      rcases List.mem_cons.mp hu with rfl | hu
      · exact ⟨hplaced, hfree⟩
      · exact ⟨(hrest u hu).1, fun hm => (hrest u hu).2 (List.mem_cons_of_mem _ hm)⟩
    · exact (hrest u hu).2 (he ▸ List.mem_cons_self ..)

theorem stepFindings_clean {self : CeremonyDefinitionParts} {stepId : StepId} {step : CeremonyStep}
    (h : Clean (self.stepFindings stepId step)) :
    ∃ state, self.states.get? step.stateId = some state ∧ state.isTerminal = false := by
  unfold stepFindings at h
  split at h
  · exact absurd h not_clean_error_cons
  · next state hs =>
    split_ifs at h with hterm
    · exact absurd h not_clean_error_cons
    · exact ⟨state, hs, by simpa using hterm⟩

theorem initialStateFindings_clean {self : CeremonyDefinitionParts}
    (h : Clean self.initialStateFindings) :
    (self.states.values.filter fun state => state.isInitial).length = 1 := by
  unfold initialStateFindings at h
  split_ifs at h with he hl
  · exact absurd h not_clean_error_cons
  · exact absurd h not_clean_error_cons
  · exact not_not.mp hl

end CeremonyDefinitionParts

end Choreographer.DefinitionParts
