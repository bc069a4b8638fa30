import Choreographer.DefinitionParts

namespace Choreographer.Definition

open Choreographer.Lib.SortedMaps Choreographer.Lib.Updates
open Choreographer.Texts Choreographer.Values Choreographer.Steps Choreographer.DefinitionParts

/-- File items under their keys, refusing a key met twice. -/
def collect {κ ν : Type} [LinearOrder κ] (key : ν → κ) (what : String) :
    List ν → OrdMap κ ν → Except DomainError (OrdMap κ ν)
  | [], map => .ok map
  | item :: rest, map =>
    if map.contains (key item) then .error (.alreadyExists what)
    else collect key what rest (map.insert (key item) item)

/-- Every value is filed under its own key. -/
def KeyedBy {κ ν : Type} [LinearOrder κ] (key : ν → κ) (map : OrdMap κ ν) : Prop :=
  ∀ k v, map.get? k = some v → key v = k

theorem collect_ok {κ ν : Type} [LinearOrder κ] {key : ν → κ} {what : String} {items : List ν}
    {start map : OrdMap κ ν} (hs : KeyedBy key start) (h : collect key what items start = .ok map) :
    KeyedBy key map ∧ ∀ k, map.contains k = (start.contains k || decide (k ∈ items.map key)) := by
  induction items generalizing start with
  | nil =>
    cases h
    exact ⟨hs, by simp⟩
  | cons item rest ih =>
    unfold collect at h
    split at h
    · simp at h
    · have hk : KeyedBy key (start.insert (key item) item) := by
        intro k v hv
        rw [OrdMap.get?_insert] at hv
        split at hv
        · next he =>
          cases hv
          exact he.symm
        · exact hs k v hv
      obtain ⟨hkey, hcon⟩ := ih hk h
      refine ⟨hkey, fun k => ?_⟩
      rw [hcon, OrdMap.contains_insert]
      by_cases he : k = key item
      · simp [he]
      · simp [he]

/-- A ceremony definition that passed its own validation. -/
structure CeremonyDefinition where
  name : CeremonyName
  version : CeremonyVersion
  description : Option CeremonyDescription
  inputs : OrdMap InputName CeremonyInputDefinition
  outputs : OrdMap OutputName CeremonyOutputDefinition
  parts : CeremonyDefinitionParts
  stepOrder : List StepId
  inputsKeyed : KeyedBy CeremonyInputDefinition.name inputs
  outputsKeyed : KeyedBy CeremonyOutputDefinition.name outputs
  statesKeyed : KeyedBy CeremonyState.id parts.states
  stepsKeyed : KeyedBy CeremonyStep.id parts.steps
  guardsKeyed : KeyedBy CeremonyGuard.name parts.guards
  rolesKeyed : KeyedBy CeremonyRole.id parts.roles
  ordered : ∀ stepId, stepId ∈ stepOrder ↔ parts.steps.contains stepId = true
  sound : parts.validate = .ok ()

namespace CeremonyDefinition

def new (name : CeremonyName) (version : CeremonyVersion)
    (description : Option CeremonyDescription) (inputs : List CeremonyInputDefinition)
    (outputs : List CeremonyOutputDefinition) (states : List CeremonyState)
    (transitions : List CeremonyTransition) (steps : List CeremonyStep)
    (guards : List CeremonyGuard) (roles : List CeremonyRole) :
    Except DomainError CeremonyDefinition :=
  match hi : collect CeremonyInputDefinition.name "ceremony_input" inputs OrdMap.empty with
  | .error e => .error e
  | .ok inputs =>
  match ho : collect CeremonyOutputDefinition.name "ceremony_output" outputs OrdMap.empty with
  | .error e => .error e
  | .ok outputs =>
  match hst : collect CeremonyState.id "ceremony_state" states OrdMap.empty with
  | .error e => .error e
  | .ok states =>
  match hsp : collect CeremonyStep.id "ceremony_step" steps OrdMap.empty with
  | .error e => .error e
  | .ok indexed =>
  match hg : collect CeremonyGuard.name "ceremony_guard" guards OrdMap.empty with
  | .error e => .error e
  | .ok guards =>
  match hr : collect CeremonyRole.id "ceremony_role" roles OrdMap.empty with
  | .error e => .error e
  | .ok roles =>
  match hv : CeremonyDefinitionParts.validate ⟨states, transitions, indexed, guards, roles⟩ with
  | .error e => .error e
  | .ok () => .ok
    { name, version, description, inputs, outputs
      parts := ⟨states, transitions, indexed, guards, roles⟩
      stepOrder := steps.map CeremonyStep.id
      inputsKeyed := (collect_ok (by simp [KeyedBy]) hi).1
      outputsKeyed := (collect_ok (by simp [KeyedBy]) ho).1
      statesKeyed := (collect_ok (by simp [KeyedBy]) hst).1
      stepsKeyed := (collect_ok (by simp [KeyedBy]) hsp).1
      guardsKeyed := (collect_ok (by simp [KeyedBy]) hg).1
      rolesKeyed := (collect_ok (by simp [KeyedBy]) hr).1
      ordered := fun stepId => by
        rw [(collect_ok (by simp [KeyedBy]) hsp).2 stepId]
        simp [OrdMap.contains]
      sound := hv }

variable (self : CeremonyDefinition)

def states : OrdMap StateId CeremonyState := self.parts.states
def transitions : List CeremonyTransition := self.parts.transitions
def steps : OrdMap StepId CeremonyStep := self.parts.steps
def guards : OrdMap GuardName CeremonyGuard := self.parts.guards
def roles : OrdMap RoleId CeremonyRole := self.parts.roles

def step (stepId : StepId) : Option CeremonyStep := self.steps.get? stepId

def role (roleId : RoleId) : Option CeremonyRole := self.roles.get? roleId

/-- The order the steps were declared in; every one of them is indexed. -/
def stepsInDeclarationOrder : List CeremonyStep := self.stepOrder.filterMap self.step

def stepsForState (stateId : StateId) : List CeremonyStep :=
  self.stepsInDeclarationOrder.filter fun step => step.stateId = stateId

def isTerminalState (stateId : StateId) : Bool :=
  (self.states.get? stateId).any CeremonyState.isTerminal

def transitionForTrigger (stateId : StateId) (trigger : TransitionTrigger) :
    Option CeremonyTransition :=
  self.transitions.find? fun transition =>
    transition.fromState = stateId && transition.trigger = trigger

def availableTransitions (stateId : StateId) : List CeremonyTransition :=
  self.transitions.filter fun transition => transition.fromState = stateId

def roleAllows (roleId : RoleId) (action : RoleAction) : Bool :=
  (self.role roleId).any fun role => role.allows action

def guardsAreSatisfied (transition : CeremonyTransition)
    (records : OrdMap StepId StepExecutionRecord) (context : CeremonyContext) : Bool :=
  transition.requiredGuards.keys.all fun guardName =>
    (self.guards.get? guardName).any fun guard => guard.isSatisfied records context

def roleForAction (action : RoleAction) : Option CeremonyRole :=
  self.roles.values.find? fun role => role.allows action

def roleIdForStep (stepId : StepId) : Except DomainError RoleId :=
  okOr ((self.roleForAction (.step stepId)).map CeremonyRole.id)
    (.invariantViolated "no ceremony role can execute step")

def roleIdForTransition (trigger : TransitionTrigger) : Except DomainError RoleId :=
  okOr ((self.roleForAction (.transition trigger)).map CeremonyRole.id)
    (.invariantViolated "no ceremony role can apply transition")

def nextSatisfiedTransition (stateId : StateId) (records : OrdMap StepId StepExecutionRecord)
    (context : CeremonyContext) : Option CeremonyTransition :=
  (self.availableTransitions stateId).find? fun transition =>
    self.guardsAreSatisfied transition records context

variable {self}

theorem findings_clean : CeremonyDefinitionParts.Clean self.parts.collectFindings :=
  CeremonyDefinitionParts.validate_ok self.sound

theorem transitions_sound :
    (∀ t ∈ self.transitions, self.parts.WellPlaced t) ∧
      self.transitions.Pairwise
        fun t u => (t.fromState, t.trigger) ≠ (u.fromState, u.trigger) := by
  have h := self.findings_clean
  simp only [CeremonyDefinitionParts.collectFindings, CeremonyDefinitionParts.clean_append] at h
  obtain ⟨hp, hd⟩ := CeremonyDefinitionParts.transitionGraphFindings_clean h.1.1.1.1.2
  exact ⟨fun t ht => (hp t ht).1, hd⟩

theorem exists_initial : ∃ state, self.states.values.find? CeremonyState.isInitial = some state := by
  have h := self.findings_clean
  simp only [CeremonyDefinitionParts.collectFindings, CeremonyDefinitionParts.clean_append] at h
  have hl := CeremonyDefinitionParts.initialStateFindings_clean h.1.1.1.1.1
  rw [← Option.isSome_iff_exists, List.find?_isSome]
  obtain ⟨state, hs⟩ := List.exists_mem_of_length_pos (by rw [hl]; exact Nat.one_pos)
  exact ⟨state, List.mem_filter.mp hs⟩

variable (self)

def initialStateId : StateId :=
  ((self.states.values.find? CeremonyState.isInitial).get
    (Option.isSome_iff_exists.mpr self.exists_initial)).id

variable {self}

theorem isTerminalState_of_get {stateId : StateId} {state : CeremonyState}
    (h : self.states.get? stateId = some state) : self.isTerminalState stateId = state.isTerminal := by
  simp [isTerminalState, h]

theorem initialStateId_not_terminal : self.isTerminalState self.initialStateId = false := by
  obtain ⟨state, hs⟩ := self.exists_initial
  have hid : self.initialStateId = state.id := by simp [initialStateId, hs]
  obtain ⟨k, hk⟩ := OrdMap.mem_values.mp (List.mem_of_find?_eq_some hs)
  have hkey : state.id = k := self.statesKeyed k state hk
  have hi : state.isInitial = true := List.find?_some hs
  rw [hid, hkey, isTerminalState_of_get hk]
  simp_all [CeremonyState.isInitial, CeremonyState.isTerminal]

theorem stepState_not_terminal {stepId : StepId} {step : CeremonyStep}
    (h : self.step stepId = some step) : self.isTerminalState step.stateId = false := by
  have hc := self.findings_clean
  simp only [CeremonyDefinitionParts.collectFindings, CeremonyDefinitionParts.clean_append] at hc
  have hmem : (stepId, step) ∈ self.parts.steps.entries := OrdMap.mem_entries.mpr h
  obtain ⟨state, hs, ht⟩ := CeremonyDefinitionParts.stepFindings_clean
    (fun finding hf => hc.1.1.1.2 finding (List.mem_flatMap.mpr ⟨_, hmem, hf⟩))
  exact (isTerminalState_of_get hs).trans ht

theorem transition_unique {t u : CeremonyTransition} (ht : t ∈ self.transitions)
    (hu : u ∈ self.transitions) (hs : t.fromState = u.fromState) (hg : t.trigger = u.trigger) :
    t = u := by
  by_contra hne
  have hp := self.transitions_sound.2
  have hsymm : Std.Symm fun t u : CeremonyTransition =>
      (t.fromState, t.trigger) ≠ (u.fromState, u.trigger) := ⟨fun _ _ h => h.symm⟩
  exact hp.forall ht hu hne (by rw [hs, hg])

theorem transitionForTrigger_eq_some {stateId : StateId} {trigger : TransitionTrigger}
    {t : CeremonyTransition} : self.transitionForTrigger stateId trigger = some t ↔
      t ∈ self.transitions ∧ t.fromState = stateId ∧ t.trigger = trigger := by
  constructor
  · intro h
    have hp := List.find?_some h
    simp only [Bool.and_eq_true, decide_eq_true_eq] at hp
    exact ⟨List.mem_of_find?_eq_some h, hp.1, hp.2⟩
  · rintro ⟨hm, rfl, rfl⟩
    cases hf : self.transitionForTrigger t.fromState t.trigger with
    | none =>
      have := List.find?_eq_none.mp hf t hm
      simp at this
    | some u =>
      have hp := List.find?_some hf
      simp only [Bool.and_eq_true, decide_eq_true_eq] at hp
      rw [transition_unique (List.mem_of_find?_eq_some hf) hm hp.1 hp.2]

end CeremonyDefinition

end Choreographer.Definition
