import Choreographer.HumanGuards
import Choreographer.Lifecycle

namespace Choreographer.HumanWaits

open Choreographer.Lib.SortedMaps Choreographer.Lib.Updates
open Choreographer.Texts Choreographer.Values Choreographer.Steps Choreographer.DefinitionParts
open Choreographer.Definition Choreographer.Agenda Choreographer.Instance Choreographer.Operations
open Choreographer.HumanGuards Choreographer.Lifecycle

/-- A declared step paired with what has happened to it. -/
structure CeremonyStepView where
  step : CeremonyStep
  record : StepExecutionRecord

/-- A guard on a transition, and whether it holds right now. -/
structure CeremonyGuardView where
  name : GuardName
  human : Bool
  satisfied : Bool

structure CeremonyTransitionView where
  transition : CeremonyTransition
  enabled : Bool
  guards : List CeremonyGuardView

/-- Everything a machine can settle is settled. -/
def CeremonyTransitionView.waitsOnlyOnPeople (self : CeremonyTransitionView) : Bool :=
  (self.guards.filter fun guard => !guard.human).all CeremonyGuardView.satisfied

/-- What a caller needs to know of a session. -/
structure CeremonyInstanceView where
  session : CeremonyInstance
  definition : CeremonyDefinition
  steps : List CeremonyStepView
  transitions : List CeremonyTransitionView
  waitingForHuman : List GuardName
  nextStepId : Option StepId
  completed : Bool

section Projection

variable (session : CeremonyInstance) (definition : CeremonyDefinition)

def projectStep (step : CeremonyStep) : Except DomainError CeremonyStepView :=
  okOr ((session.stepRecord step.id).map fun record => ⟨step, record⟩)
    (.notFound "ceremony_step_record")

def projectGuard (name : GuardName) : Except DomainError CeremonyGuardView := do
  let guard ← okOr (definition.guards.get? name) (.notFound "ceremony_transition.guard")
  pure ⟨name, guard.condition = .humanApproval, guard.isSatisfied session.stepRecords session.context⟩

def projectTransition (transition : CeremonyTransition) :
    Except DomainError CeremonyTransitionView := do
  let guards ← transition.requiredGuards.keys.mapM (projectGuard session definition)
  pure ⟨transition, definition.guardsAreSatisfied transition session.stepRecords session.context,
    guards⟩

def CeremonyInstanceView.project : Except DomainError CeremonyInstanceView := do
  let steps ← definition.stepsInDeclarationOrder.mapM (projectStep session)
  let transitions ← (definition.availableTransitions session.currentState).mapM
    (projectTransition session definition)
  let waitingForHuman := (((transitions.filter CeremonyTransitionView.waitsOnlyOnPeople).flatMap
    CeremonyTransitionView.guards).filter fun guard => guard.human && !guard.satisfied).map
      CeremonyGuardView.name
  let nextStepId := ((definition.stepsForState session.currentState).find? fun step =>
    (session.stepRecord step.id).any fun record => !record.status.isSuccess).map CeremonyStep.id
  pure ⟨session, definition, steps, transitions, waitingForHuman, nextStepId,
    session.isCompleted definition⟩

end Projection

section Views

variable {d : CeremonyDefinition} {i : CeremonyInstance}

/-- What no approval can change: the guard is the machine's to settle, and it is not. -/
def Unsettled (d : CeremonyDefinition) (i : CeremonyInstance) (name : GuardName) : Prop :=
  ∃ guard, d.guards.get? name = some guard ∧ guard.condition ≠ .humanApproval ∧
    guard.isSatisfied i.stepRecords i.context = false

def Required (transition : CeremonyTransition) (name : GuardName) : Prop :=
  transition.requiredGuards.contains name = true

/-- A person is waited for at this guard: it is theirs to open, it is closed, and some
transition that requires it waits for nothing else. -/
def WaitsFor (d : CeremonyDefinition) (i : CeremonyInstance) (name : GuardName) : Prop :=
  ∃ t ∈ d.availableTransitions i.currentState, Required t name ∧ IsHumanGuard d name ∧
    i.context.isGuardApproved name = false ∧ ∀ other, Required t other → ¬ Unsettled d i other

theorem guard_declared {t : CeremonyTransition} {name : GuardName} (ht : t ∈ d.transitions)
    (h : Required t name) : ∃ guard, d.guards.get? name = some guard := by
  obtain ⟨hplaced, _⟩ := d.transitions_sound
  exact OrdMap.contains_iff.mp ((hplaced t ht).guarded name h)

theorem available_declared {t : CeremonyTransition} {stateId : StateId}
    (ht : t ∈ d.availableTransitions stateId) : t ∈ d.transitions ∧ t.fromState = stateId := by
  simpa [CeremonyDefinition.availableTransitions] using ht

def guardView (d : CeremonyDefinition) (i : CeremonyInstance) (name : GuardName) :
    CeremonyGuardView :=
  ⟨name, (d.guards.get? name).any fun guard => guard.condition = .humanApproval,
    (d.guards.get? name).any fun guard => guard.isSatisfied i.stepRecords i.context⟩

def transitionView (d : CeremonyDefinition) (i : CeremonyInstance) (t : CeremonyTransition) :
    CeremonyTransitionView :=
  ⟨t, d.guardsAreSatisfied t i.stepRecords i.context, t.requiredGuards.keys.map (guardView d i)⟩

theorem projectTransition_ok {t : CeremonyTransition} (ht : t ∈ d.transitions) :
    projectTransition i d t = .ok (transitionView d i t) := by
  have hguards : t.requiredGuards.keys.mapM (projectGuard i d) =
      .ok (t.requiredGuards.keys.map (guardView d i)) := by
    refine mapM_eq_ok_map fun name hname => ?_
    obtain ⟨guard, hget⟩ := guard_declared ht (OrdMap.mem_keys.mp hname)
    simp only [projectGuard, guardView, hget, okOr, Option.any_some]
    rfl
  rw [projectTransition, hguards]
  rfl

theorem human_guardView {name : GuardName} :
    (guardView d i name).human = true ↔ IsHumanGuard d name := by
  simp only [guardView, Option.any_eq_true, decide_eq_true_eq, IsHumanGuard]

theorem satisfied_of_human {name : GuardName} (h : IsHumanGuard d name) :
    (guardView d i name).satisfied = i.context.isGuardApproved name := by
  obtain ⟨guard, hget, hhuman⟩ := h
  simp only [guardView, hget, Option.any_some]
  exact satisfied_iff_approved hget hhuman

theorem waitsOnlyOnPeople_iff {t : CeremonyTransition} (ht : t ∈ d.transitions) :
    (transitionView d i t).waitsOnlyOnPeople = true ↔
      ∀ name, Required t name → ¬ Unsettled d i name := by
  simp only [CeremonyTransitionView.waitsOnlyOnPeople, transitionView, List.all_eq_true,
    List.mem_filter, List.mem_map, Bool.not_eq_true']
  constructor
  · rintro h name hreq ⟨guard, hget, hcond, hsat⟩
    have hview := h (guardView d i name) ⟨⟨name, OrdMap.mem_keys.mpr hreq, rfl⟩, by
      simp [guardView, hget, hcond]⟩
    simp [guardView, hget, hsat] at hview
  · rintro h _ ⟨⟨name, hname, rfl⟩, hmachine⟩
    have hreq := OrdMap.mem_keys.mp hname
    obtain ⟨guard, hget⟩ := guard_declared ht hreq
    by_contra hsat
    refine h name hreq ⟨guard, hget, ?_, ?_⟩
    · simpa [guardView, hget] using hmachine
    · simpa [guardView, hget] using hsat

/-- The view of a running session exists, and lists as awaited exactly the guards people
are waited for at. -/
theorem project_ok (hrecords : ∀ stepId, i.stepRecords.contains stepId = d.steps.contains stepId) :
    ∃ view, CeremonyInstanceView.project i d = .ok view ∧
      view.transitions = (d.availableTransitions i.currentState).map (transitionView d i) ∧
      ∀ name, name ∈ view.waitingForHuman ↔ WaitsFor d i name := by
  obtain ⟨steps, hsteps⟩ : ∃ steps, d.stepsInDeclarationOrder.mapM (projectStep i) = .ok steps := by
    have hrecord : ∀ step ∈ d.stepsInDeclarationOrder, ∃ record,
        i.stepRecord step.id = some record := by
      intro step hstep
      obtain ⟨stepId, _, hget⟩ := List.mem_filterMap.mp hstep
      have hid : step.id = stepId := d.stepsKeyed stepId step hget
      refine OrdMap.contains_iff.mp ?_
      rw [hrecords, hid]
      exact OrdMap.contains_iff.mpr ⟨step, hget⟩
    refine ⟨_, mapM_eq_ok_map (g := fun step =>
      ⟨step, (i.stepRecord step.id).getD StepExecutionRecord.pending⟩) fun step hstep => ?_⟩
    obtain ⟨record, hget⟩ := hrecord step hstep
    simp [projectStep, hget, okOr]
  have htransitions : (d.availableTransitions i.currentState).mapM (projectTransition i d) =
      .ok ((d.availableTransitions i.currentState).map (transitionView d i)) :=
    mapM_eq_ok_map fun t ht => projectTransition_ok (available_declared ht).1
  refine ⟨_, by rw [CeremonyInstanceView.project, hsteps, htransitions]; rfl, rfl, fun name => ?_⟩
  simp only [List.mem_map, List.mem_filter, List.mem_flatMap, Bool.and_eq_true, Bool.not_eq_true']
  constructor
  · rintro ⟨_, ⟨⟨_, ⟨⟨t, ht, rfl⟩, hwaits⟩, hguard⟩, hhuman, hclosed⟩, rfl⟩
    obtain ⟨name, hname, rfl⟩ := List.mem_map.mp hguard
    have hhuman := human_guardView.mp hhuman
    rw [satisfied_of_human hhuman] at hclosed
    exact ⟨t, ht, OrdMap.mem_keys.mp hname, hhuman, hclosed,
      (waitsOnlyOnPeople_iff (available_declared ht).1).mp hwaits⟩
  · rintro ⟨t, ht, hreq, hhuman, hclosed, hsettled⟩
    refine ⟨guardView d i name, ⟨⟨transitionView d i t, ⟨⟨t, ht, rfl⟩, ?_⟩, ?_⟩, ?_, ?_⟩, rfl⟩
    · exact (waitsOnlyOnPeople_iff (available_declared ht).1).mpr hsettled
    · exact List.mem_map_of_mem (OrdMap.mem_keys.mpr hreq)
    · exact human_guardView.mpr hhuman
    · rw [satisfied_of_human hhuman, hclosed]

end Views

/-- Somebody approves a guard. -/
structure Approval where
  guardName : GuardName
  approvedBy : RoleId
  approvedByKind : AuditActorKind
  now : OffsetDateTime

def Approval.operation (self : Approval) : Operation :=
  .approveGuard self.guardName self.approvedBy self.approvedByKind self.now

def approved (d : CeremonyDefinition) (approvals : List Approval) (i : CeremonyInstance) :
    CeremonyInstance := runAll d (approvals.map Approval.operation) i

def stamped (names : List GuardName) (entries : OrdMap String Value) : OrdMap String Value :=
  names.foldl (fun m name => m.insert name.asStr (.bool true)) entries

/-- The context has room for the approval of all of these guards. -/
def Room (context : CeremonyContext) (names : List GuardName) : Prop :=
  (stamped names context.attributes.entries).size ≤ maxAttributesKeys

section Contexts

theorem contains_stamped (names : List GuardName) (entries : OrdMap String Value) (key : String) :
    (stamped names entries).contains key = true ↔
      entries.contains key = true ∨ ∃ name ∈ names, name.asStr = key := by
  induction names generalizing entries with
  | nil => simp [stamped]
  | cons name rest ih =>
    refine (ih (entries.insert name.asStr (.bool true))).trans ?_
    rw [OrdMap.contains_insert_iff, List.exists_mem_cons_iff, eq_comm, or_assoc, or_left_comm]

theorem keys_nonblank (a : Attributes) (key : String) (h : a.entries.contains key = true) :
    trim key ≠ "" := by
  have hvalid := a.valid
  unfold checkAttributes at hvalid
  split_ifs at hvalid with hsize hblank
  intro hkey
  exact hblank (List.any_eq_true.mpr ⟨key, OrdMap.mem_keys.mpr h, by simpa using hkey⟩)

theorem withGuardApproval_ok {context : CeremonyContext} {name : GuardName}
    (h : (context.attributes.entries.insert name.asStr (.bool true)).size ≤ maxAttributesKeys) :
    ∃ context', context.withGuardApproval name = .ok context' ∧
      context'.attributes.entries = context.attributes.entries.insert name.asStr (.bool true) := by
  have hcheck : checkAttributes (context.attributes.entries.insert name.asStr (.bool true)) =
      .ok () := by
    rw [checkAttributes, if_neg (by omega), if_neg]
    intro hblank
    obtain ⟨key, hkey, htrim⟩ := List.any_eq_true.mp hblank
    rw [OrdMap.mem_keys, OrdMap.contains_insert_iff] at hkey
    rcases hkey with rfl | hkey
    · exact name.asStr_ne_empty (name.trim_asStr ▸ by simpa using htrim)
    · exact keys_nonblank _ key hkey (by simpa using htrim)
  have hnew : ∃ a, Attributes.new (context.attributes.entries.insert name.asStr (.bool true)) =
      .ok a := by
    unfold Attributes.new
    split
    · exact ⟨_, rfl⟩
    · next e he => simp [hcheck] at he
  obtain ⟨a, ha⟩ := hnew
  refine ⟨⟨a⟩, ?_, Attributes.new_eq_ok ha⟩
  simp only [CeremonyContext.withGuardApproval, ha]
  rfl

end Contexts

section Approving

variable {d : CeremonyDefinition} {i : CeremonyInstance}

theorem after_approval (a : Approval) (i : CeremonyInstance) :
    (a.operation.after d i).currentState = i.currentState ∧
      (a.operation.after d i).stepRecords = i.stepRecords ∧
      ∀ name, ¬ IsHumanGuard d name → (a.operation.after d i).context.isGuardApproved name =
        i.context.isGuardApproved name := by
  rcases after_cases d a.operation i with ⟨_, -, he⟩ | ⟨-, he⟩
  · rw [he]
    exact ⟨rfl, rfl, fun _ _ => rfl⟩
  · revert he
    generalize a.operation.after d i = i'
    intro he
    cases he with
    | approveGuard active hguard human declared hcontext =>
      refine ⟨rfl, rfl, fun name hname => ?_⟩
      rw [CeremonyContext.isGuardApproved_withGuardApproval hcontext]
      have hne : name ≠ a.guardName := by
        rintro rfl
        exact hname ⟨_, hguard, human⟩
      simp [hne]

theorem approved_frame (approvals : List Approval) (i : CeremonyInstance) :
    (approved d approvals i).currentState = i.currentState ∧
      (approved d approvals i).stepRecords = i.stepRecords := by
  induction approvals generalizing i with
  | nil => exact ⟨rfl, rfl⟩
  | cons a rest ih =>
    obtain ⟨hstate, hrecords, _⟩ := after_approval (d := d) a i
    obtain ⟨hstate', hrecords'⟩ := ih (a.operation.after d i)
    exact ⟨hstate'.trans hstate, hrecords'.trans hrecords⟩

theorem isSatisfied_machine {guard : CeremonyGuard} (h : guard.condition ≠ .humanApproval)
    (records : OrdMap StepId StepExecutionRecord) (c c' : CeremonyContext) :
    guard.isSatisfied records c = guard.isSatisfied records c' := by
  unfold CeremonyGuard.isSatisfied
  cases hc : guard.condition with
  | humanApproval => exact absurd hc h
  | always | allStepsCompleted | stepStatus => rfl

theorem unsettled_approved (approvals : List Approval) {name : GuardName}
    (h : Unsettled d i name) : Unsettled d (approved d approvals i) name := by
  obtain ⟨guard, hget, hmachine, hsat⟩ := h
  refine ⟨guard, hget, hmachine, ?_⟩
  rw [(approved_frame approvals i).2, isSatisfied_machine hmachine _ _ i.context, hsat]

theorem guardsAreSatisfied_iff {t : CeremonyTransition} (ht : t ∈ d.transitions) :
    d.guardsAreSatisfied t i.stepRecords i.context = true ↔
      (∀ name, Required t name → ¬ Unsettled d i name) ∧
      ∀ name, Required t name → IsHumanGuard d name → i.context.isGuardApproved name = true := by
  simp only [CeremonyDefinition.guardsAreSatisfied, List.all_eq_true, OrdMap.mem_keys,
    Option.any_eq_true]
  constructor
  · intro h
    refine ⟨?_, ?_⟩
    · rintro name hreq ⟨guard, hget, _, hsat⟩
      obtain ⟨guard', hget', hsat'⟩ := h name hreq
      obtain rfl := Option.some.inj (hget.symm.trans hget')
      simp [hsat] at hsat'
    · rintro name hreq ⟨guard, hget, hhuman⟩
      obtain ⟨guard', hget', hsat'⟩ := h name hreq
      obtain rfl := Option.some.inj (hget.symm.trans hget')
      rwa [satisfied_iff_approved hget hhuman] at hsat'
  · rintro ⟨hsettled, happroved⟩ name hreq
    obtain ⟨guard, hget⟩ := guard_declared ht hreq
    refine ⟨guard, hget, ?_⟩
    by_cases hhuman : guard.condition = .humanApproval
    · rw [satisfied_iff_approved hget hhuman]
      exact happroved name hreq ⟨guard, hget, hhuman⟩
    · by_contra hsat
      exact hsettled name hreq ⟨guard, hget, hhuman, by simpa using hsat⟩

theorem approval_succeeds {a : Approval} (hactive : Active d i) (hhuman : IsHumanGuard d a.guardName)
    (hrole : (d.role a.approvedBy).isSome = true)
    (hsize : (i.context.attributes.entries.insert a.guardName.asStr (.bool true)).size ≤
      maxAttributesKeys) :
    ∃ context, i.context.withGuardApproval a.guardName = .ok context ∧
      context.attributes.entries =
        i.context.attributes.entries.insert a.guardName.asStr (.bool true) ∧
      Succeeds (a.operation.run d) i () { i with
        context := context
        guardApprovals := i.guardApprovals ++
          [⟨a.guardName, a.approvedBy, a.approvedByKind, a.now⟩]
        updatedAt := a.now } := by
  obtain ⟨context, hcontext, hinsert⟩ := withGuardApproval_ok hsize
  refine ⟨context, hcontext, hinsert, ?_⟩
  simp only [Approval.operation, Operation.run, CeremonyInstance.approveGuard, succeeds_bind,
    succeeds_check, succeeds_modify, requireActive_ok, requireHumanGuard_ok, requireDeclaredRole_ok]
  exact ⟨(), i, ⟨hactive, rfl⟩, (), i, ⟨hhuman, rfl⟩, (), i, ⟨⟨hactive.matching, hrole⟩, rfl⟩,
    context, i, ⟨hcontext, rfl⟩, rfl⟩

/-- Where the context has room, approvals of human guards by declared roles are accepted one
after another, and the context then holds all of them. -/
structure Opened (d : CeremonyDefinition) (i : CeremonyInstance) (approvals : List Approval) :
    Prop where
  active : Active d (approved d approvals i)
  entries : (approved d approvals i).context.attributes.entries =
    stamped (approvals.map Approval.guardName) i.context.attributes.entries
  guards : ∀ name, (approved d approvals i).context.isGuardApproved name = true ↔
    i.context.isGuardApproved name = true ∨ ∃ a ∈ approvals, a.guardName = name
  accepted : ∀ before a after, approvals = before ++ a :: after →
    a.operation.answer d (approved d before i) = .ok ()

theorem opened_concat {approvals : List Approval} {a : Approval} (h : Opened d i approvals)
    (hhuman : IsHumanGuard d a.guardName) (hrole : (d.role a.approvedBy).isSome = true)
    (hsize : ((approved d approvals i).context.attributes.entries.insert a.guardName.asStr
      (.bool true)).size ≤ maxAttributesKeys) : Opened d i (approvals ++ [a]) := by
  obtain ⟨context, hcontext, hinsert, hrun⟩ := approval_succeeds h.active hhuman hrole hsize
  have hafter : approved d (approvals ++ [a]) i = { approved d approvals i with
      context := context
      guardApprovals := (approved d approvals i).guardApprovals ++
        [⟨a.guardName, a.approvedBy, a.approvedByKind, a.now⟩]
      updatedAt := a.now } := by
    rw [approved, List.map_append, List.map_singleton, runAll_concat]
    exact congrArg Prod.snd hrun
  refine ⟨?_, ?_, fun name => ?_, ?_⟩
  · rw [hafter]
    exact ⟨h.active.matching, h.active.running⟩
  · rw [hafter]
    show context.attributes.entries = _
    rw [hinsert, h.entries, List.map_append, stamped, stamped, List.foldl_append]
    rfl
  · rw [hafter]
    show context.isGuardApproved name = true ↔ _
    rw [CeremonyContext.isGuardApproved_withGuardApproval hcontext, Bool.or_eq_true, h.guards,
      decide_eq_true_eq]
    simp only [List.mem_append, List.mem_singleton, or_and_right, exists_or, exists_eq_left]
    rw [or_comm, or_assoc, @eq_comm GuardName name]
  · intro before b after hsplit
    rcases List.eq_nil_or_concat after with rfl | ⟨after', c, rfl⟩
    · obtain ⟨rfl, hlast⟩ := List.append_inj' hsplit rfl
      obtain rfl : a = b := by simpa using hlast
      exact congrArg Prod.fst hrun
    · have hinit : approvals ++ [a] = (before ++ b :: after') ++ [c] := by simpa using hsplit
      exact h.accepted before b after' (List.append_inj' hinit rfl).1

theorem opened_approvals (hactive : Active d i) {names : List GuardName}
    (hnames : ∀ name ∈ names, IsHumanGuard d name) (hroom : Room i.context names)
    (approvals : List Approval) (hall : ∀ a ∈ approvals, a.guardName ∈ names ∧
      (d.role a.approvedBy).isSome = true) : Opened d i approvals := by
  induction approvals using List.reverseRecOn with
  | nil => exact ⟨hactive, rfl, by simp [approved, runAll], by simp⟩
  | append_singleton approvals a ih =>
    have h := ih fun b hb => hall b (List.mem_append_left [a] hb)
    obtain ⟨hmem, hrole⟩ := hall a (by simp)
    -- Whatever was approved by now is among the names there is room for.
    refine opened_concat h (hnames _ hmem) hrole
      (Nat.le_trans (OrdMap.size_le_of_contains fun key hkey => ?_) hroom)
    rw [OrdMap.contains_insert_iff, h.entries, contains_stamped] at hkey
    rw [contains_stamped]
    rcases hkey with rfl | hkey | ⟨name, hname, rfl⟩
    · exact .inr ⟨a.guardName, hmem, rfl⟩
    · exact .inl hkey
    · obtain ⟨b, hb, rfl⟩ := List.mem_map.mp hname
      exact .inr ⟨b.guardName, (hall b (List.mem_append_left [a] hb)).1, rfl⟩

theorem applyTransition_ok {t : CeremonyTransition} (hactive : Active d i)
    (ht : t ∈ d.availableTransitions i.currentState)
    (hguards : d.guardsAreSatisfied t i.stepRecords i.context = true) (roleId : Option RoleId)
    (hrole : ∀ r ∈ roleId, d.roleAllows r (.transition t.trigger) = true) (now : OffsetDateTime) :
    (Operation.applyTransition roleId t.trigger now).answer d i = .ok () := by
  obtain ⟨hmem, hfrom⟩ := available_declared ht
  have hfind : d.transitionForTrigger i.currentState t.trigger = some t := by
    have hpair := d.transitions_sound.2
    unfold CeremonyDefinition.transitionForTrigger
    obtain ⟨before, after, hsplit⟩ := List.append_of_mem hmem
    rw [hsplit] at hpair ⊢
    rw [List.find?_append, List.find?_eq_none.mpr, Option.none_or, List.find?_cons_of_pos]
    · simp [hfrom]
    · intro u hu
      have hne := (List.pairwise_append.mp hpair).2.2 u hu t List.mem_cons_self
      rw [ne_eq, Prod.mk.injEq, hfrom] at hne
      simpa using hne
  have hmove : ∃ u j, Succeeds (CeremonyInstance.moveOn d t.trigger roleId now) i u j := by
    simp only [CeremonyInstance.moveOn, succeeds_bind, succeeds_check, succeeds_modify,
      succeeds_pure, requireActive_ok, okOr_eq_ok, require_eq_ok]
    exact ⟨_, _, (), i, ⟨hactive, rfl⟩, t, i, ⟨hfind, rfl⟩, (), i, ⟨hguards, rfl⟩, (), _, rfl, rfl, rfl⟩
  obtain ⟨u, j, hmove⟩ := hmove
  cases roleId with
  | none =>
    have hrun : Succeeds (Operation.run d (.applyTransition none t.trigger now)) i () j := by
      simp only [Operation.run, succeeds_bind, succeeds_pure]
      exact ⟨u, j, hmove, trivial, rfl⟩
    exact congrArg Prod.fst hrun
  | some roleId =>
    have hrun : Succeeds (Operation.run d (.applyTransition (some roleId) t.trigger now)) i () j := by
      simp only [Operation.run, CeremonyInstance.applyTransitionAs, succeeds_bind, succeeds_pure,
        succeeds_check, requireRole_ok]
      exact ⟨u, j, ⟨(), i, ⟨⟨hactive.matching, hrole roleId rfl⟩, rfl⟩, hmove⟩, trivial, rfl⟩
    exact congrArg Prod.fst hrun

end Approving

/-- The guards a view lists as waiting for people are exactly what people can unblock: when
all of them are approved, whoever does it and in whatever order, the session can move on;
and when there are none and it cannot move, no approval will make it. -/
theorem waiting_for_human_exact (d : CeremonyDefinition) (id : CeremonyId)
    (context : CeremonyContext) (opened : OffsetDateTime) (bound : Option CeremonyDefinitionDigest)
    (ops : List Operation) (i : CeremonyInstance)
    (hreached : i = runAll d ops (CeremonyInstance.opened id d context opened bound))
    (hrunning : d.isTerminalState i.currentState = false) :
    ∃ view, CeremonyInstanceView.project i d = .ok view ∧
      (view.waitingForHuman ≠ [] → Room i.context view.waitingForHuman →
        ∀ approvals : List Approval,
        (∀ a ∈ approvals, a.guardName ∈ view.waitingForHuman ∧ (d.role a.approvedBy).isSome = true) →
        (∀ name ∈ view.waitingForHuman, ∃ a ∈ approvals, a.guardName = name) →
        (∀ before a after, approvals = before ++ a :: after →
          a.operation.answer d (approved d before i) = .ok ()) ∧
        ∃ t ∈ d.availableTransitions i.currentState,
          d.guardsAreSatisfied t (approved d approvals i).stepRecords
            (approved d approvals i).context = true ∧
          ∀ (roleId : Option RoleId) (now : OffsetDateTime),
            (∀ r ∈ roleId, d.roleAllows r (.transition t.trigger) = true) →
            (Operation.applyTransition roleId t.trigger now).answer d (approved d approvals i) =
              .ok ()) ∧
      (view.waitingForHuman = [] → (∀ t ∈ view.transitions, t.enabled = false) →
        ∀ (approvals : List Approval) (t : CeremonyTransition),
          t ∈ d.availableTransitions i.currentState →
          d.guardsAreSatisfied t (approved d approvals i).stepRecords
            (approved d approvals i).context = false) := by
  have hmatches : i.matchesDefinition d = true := by
    rw [hreached]
    exact runAll_keeps (fun j op j' hj he => he.identity.2.1.trans hj) ops (opened_matches ..)
  have horderly : Orderly d i := hreached ▸ orderly_run (orderly_opened id context opened bound) ops
  have hactive : Active d i := ⟨hmatches, hrunning⟩
  obtain ⟨view, hview, htransitions, hwaits⟩ := project_ok horderly.steps
  refine ⟨view, hview, fun hsome hroom approvals hall hcover => ?_,
    fun hnone hblocked approvals t ht => ?_⟩
  · have hnames : ∀ name ∈ view.waitingForHuman, IsHumanGuard d name := by
      intro name hname
      obtain ⟨_, _, _, hhuman, _⟩ := (hwaits name).mp hname
      exact hhuman
    have hopened := opened_approvals hactive hnames hroom approvals hall
    obtain ⟨first, hfirst⟩ := List.exists_mem_of_ne_nil _ hsome
    obtain ⟨t, ht, _, _, _, hsettled⟩ := (hwaits first).mp hfirst
    have hdeclared := (available_declared ht).1
    have hguards : d.guardsAreSatisfied t (approved d approvals i).stepRecords
        (approved d approvals i).context = true := by
      rw [guardsAreSatisfied_iff hdeclared]
      refine ⟨fun name hreq hunsettled => ?_, fun name hreq hhuman => ?_⟩
      · obtain ⟨guard, hget, hmachine, hsat⟩ := hunsettled
        refine hsettled name hreq ⟨guard, hget, hmachine, ?_⟩
        rw [← hsat, (approved_frame approvals i).2]
        exact isSatisfied_machine hmachine _ _ _
      · rw [hopened.guards]
        by_cases hopen : i.context.isGuardApproved name = true
        · exact .inl hopen
        · refine .inr (hcover name ((hwaits name).mpr ⟨t, ht, hreq, hhuman, ?_, hsettled⟩))
          simpa using hopen
    refine ⟨hopened.accepted, t, ht, hguards, fun roleId now hrole => ?_⟩
    refine applyTransition_ok hopened.active ?_ hguards roleId hrole now
    rwa [(approved_frame approvals i).1]
  · have hdeclared := (available_declared ht).1
    have hclosed : d.guardsAreSatisfied t i.stepRecords i.context = false :=
      hblocked (transitionView d i t) (htransitions ▸ List.mem_map_of_mem ht)
    by_contra hopen
    rw [Bool.not_eq_false, guardsAreSatisfied_iff hdeclared] at hopen
    have hsettled : ∀ name, Required t name → ¬ Unsettled d i name :=
      fun name hreq hunsettled => hopen.1 name hreq (unsettled_approved approvals hunsettled)
    -- Nothing but people can be missing, so one of their guards is on the list.
    refine absurd ((guardsAreSatisfied_iff hdeclared).mpr ⟨hsettled, fun name hreq hhuman => ?_⟩)
      (by simp [hclosed])
    by_contra happroved
    have hlisted := (hwaits name).mpr ⟨t, ht, hreq, hhuman, by simpa using happroved, hsettled⟩
    rw [hnone] at hlisted
    exact List.not_mem_nil hlisted

section Release

def unsigned : CeremonyInstance :=
  CeremonyInstance.opened ⟨"r5", by decide⟩ release CeremonyContext.empty ⟨0, 0⟩ none

def signature : Approval := ⟨signOff, lead, .human, ⟨1, 0⟩⟩

theorem unsigned_waits {view : CeremonyInstanceView}
    (h : CeremonyInstanceView.project unsigned release = .ok view) :
    view.waitingForHuman = [signOff] := by
  have hlist : (CeremonyInstanceView.project unsigned release).toOption.map
      CeremonyInstanceView.waitingForHuman = some [signOff] := by decide
  rw [h] at hlist
  exact Option.some.inj hlist

theorem waiting_for_human_exact_unsigned :
    ∃ t ∈ release.availableTransitions draft,
      (Operation.applyTransition none t.trigger ⟨2, 0⟩).answer release
        (approved release [signature] unsigned) = .ok () := by
  obtain ⟨view, hview, hopens, _⟩ := waiting_for_human_exact release ⟨"r5", by decide⟩
    CeremonyContext.empty ⟨0, 0⟩ none [] unsigned rfl (by decide)
  have hlist := unsigned_waits hview
  rw [hlist] at hopens
  obtain ⟨_, t, ht, _, happly⟩ := hopens (by simp)
    (show (stamped _ _).size ≤ maxAttributesKeys by decide) [signature]
    (by
      intro a ha
      obtain rfl := List.mem_singleton.mp ha
      exact ⟨List.mem_cons_self, by decide⟩)
    (by
      intro name hname
      obtain rfl := List.mem_singleton.mp hname
      exact ⟨signature, List.mem_cons_self, rfl⟩)
  exact ⟨t, ht, happly none ⟨2, 0⟩ (by simp)⟩

end Release

end Choreographer.HumanWaits
