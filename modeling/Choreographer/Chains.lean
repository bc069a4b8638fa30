import Choreographer.Lifecycle
import Choreographer.Reachability

namespace Choreographer.Chains

open Choreographer.Lib.SortedMaps Choreographer.Lib.Updates
open Choreographer.Texts Choreographer.Values Choreographer.Steps Choreographer.DefinitionParts
open Choreographer.Definition Choreographer.Instance Choreographer.Operations
open Choreographer.Lifecycle Choreographer.Reachability

/-- A ceremony that goes through its steps one by one, a state for each, and on the way out of
the last one waits for a human guard if it has one. -/
structure Chain (d : CeremonyDefinition) (steps : List CeremonyStep) (finish : StateId)
    (gate : Option GuardName) : Prop where
  nonempty : 0 < steps.length
  ordered : d.stepsInDeclarationOrder = steps
  known : ∀ step ∈ steps, d.step step.id = some step
  distinct : (steps.map CeremonyStep.stateId ++ [finish]).Nodup
  states : ∀ stateId, d.states.contains stateId = true ↔
    stateId ∈ steps.map CeremonyStep.stateId ++ [finish]
  starts : (steps.map CeremonyStep.stateId)[0]? = some d.initialStateId
  ends : ∀ stateId, d.isTerminalState stateId = true ↔ stateId = finish
  leaves : d.transitions.map CeremonyTransition.fromState = steps.map CeremonyStep.stateId
  arrives : ∀ (k : Nat) (t : CeremonyTransition), d.transitions[k]? = some t →
    (steps.map CeremonyStep.stateId ++ [finish])[k + 1]? = some t.toState
  guarded : ∀ (k : Nat) (step : CeremonyStep) (t : CeremonyTransition), steps[k]? = some step →
    d.transitions[k]? = some t → ∀ records context, d.guardsAreSatisfied t records context = true ↔
      ((records.get? step.id).any fun record => record.status == .completed) = true ∧
      (k + 1 = steps.length → ∀ guardName ∈ gate, context.isGuardApproved guardName = true)
  staffed : ∀ step ∈ steps, ∃ role ∈ d.roles.values, role.allows (.step step.id) = true
  steered : ∀ t ∈ d.transitions, ∃ role ∈ d.roles.values,
    role.allows (.transition t.trigger) = true

section Graph

variable {d : CeremonyDefinition} {steps : List CeremonyStep} {finish : StateId}
  {gate : Option GuardName} {k : Nat} {step : CeremonyStep} {t : CeremonyTransition}

theorem filter_eq_singleton {α β : Type} [DecidableEq β] {f : α → β} {l : List α}
    (h : (l.map f).Nodup) {a : α} (ha : a ∈ l) : (l.filter fun b => f b = f a) = [a] := by
  induction l with
  | nil => simp at ha
  | cons b rest ih =>
    rw [List.map_cons, List.nodup_cons] at h
    rcases List.mem_cons.mp ha with rfl | ha
    · have hnone : (rest.filter fun b => f b = f a) = [] := by
        rw [List.filter_eq_nil_iff]
        intro c hc he
        exact h.1 (List.mem_map.mpr ⟨c, hc, by simpa using he⟩)
      simp [hnone]
    · have hne : f b ≠ f a := fun he => h.1 (List.mem_map.mpr ⟨a, ha, he.symm⟩)
      simp [hne, ih h.2 ha]

variable (h : Chain d steps finish gate)

include h

theorem Chain.fronts_nodup : (steps.map CeremonyStep.stateId).Nodup :=
  (List.nodup_append'.mp h.distinct).1

theorem Chain.not_terminal (hstep : step ∈ steps) : d.isTerminalState step.stateId = false := by
  rw [← Bool.not_eq_true, h.ends]
  intro hfinish
  have hdisjoint := (List.nodup_append'.mp h.distinct).2.2
  exact hdisjoint (List.mem_map_of_mem hstep) (by simp [hfinish])

theorem Chain.stepsForState (hstep : step ∈ steps) : d.stepsForState step.stateId = [step] := by
  rw [CeremonyDefinition.stepsForState, h.ordered]
  exact filter_eq_singleton h.fronts_nodup hstep

theorem Chain.transition (hstep : steps[k]? = some step) :
    ∃ t, d.transitions[k]? = some t ∧ t.fromState = step.stateId := by
  have hfront : (d.transitions.map CeremonyTransition.fromState)[k]? = some step.stateId := by
    rw [h.leaves, List.getElem?_map, hstep]
    rfl
  rw [List.getElem?_map] at hfront
  exact Option.map_eq_some_iff.mp hfront

theorem Chain.availableTransitions (ht : t ∈ d.transitions) :
    d.availableTransitions t.fromState = [t] := by
  have hnodup := h.fronts_nodup
  rw [← h.leaves] at hnodup
  exact filter_eq_singleton hnodup ht

theorem Chain.nextSatisfiedTransition (ht : t ∈ d.transitions)
    (records : OrdMap StepId StepExecutionRecord) (context : CeremonyContext) :
    d.nextSatisfiedTransition t.fromState records context =
      if d.guardsAreSatisfied t records context then some t else none := by
  rw [CeremonyDefinition.nextSatisfiedTransition, h.availableTransitions ht, List.find?_singleton]

theorem Chain.leads {a b : StateId} (ha : (steps.map CeremonyStep.stateId ++ [finish])[k]? = some a)
    (hb : (steps.map CeremonyStep.stateId ++ [finish])[k + 1]? = some b) :
    Leads d.transitions a b := by
  obtain ⟨hlt, -⟩ := List.getElem?_eq_some_iff.mp hb
  rw [List.length_append, List.length_map, List.length_singleton] at hlt
  have hk : k < steps.length := by omega
  have hstep := List.getElem?_eq_getElem hk
  obtain ⟨t, ht, hfrom⟩ := h.transition hstep
  rw [List.getElem?_append_left (by rwa [List.length_map]), List.getElem?_map, hstep] at ha
  refine ⟨t, List.mem_of_getElem? ht, hfrom.trans (Option.some.inj ha), ?_⟩
  exact Option.some.inj ((h.arrives k t ht).symm.trans hb)

theorem Chain.reaches {a b : StateId} (n : Nat)
    (ha : (steps.map CeremonyStep.stateId ++ [finish])[k]? = some a)
    (hb : (steps.map CeremonyStep.stateId ++ [finish])[k + n]? = some b) :
    Reaches d.parts a b := by
  induction n generalizing b with
  | zero =>
    obtain rfl := Option.some.inj (ha.symm.trans hb)
    exact Relation.ReflTransGen.refl
  | succ n ih =>
    obtain ⟨hlt, -⟩ := List.getElem?_eq_some_iff.mp hb
    have hmiddle := List.getElem?_eq_getElem (Nat.lt_of_succ_lt hlt)
    exact (ih hmiddle).tail (h.leads hmiddle hb)

theorem Chain.isTerminal_finish : IsTerminal d.parts finish := by
  have hterminal := (h.ends finish).mpr rfl
  rw [CeremonyDefinition.isTerminalState, Option.any_eq_true] at hterminal
  exact hterminal

omit h in
theorem get?_initialStateId (d : CeremonyDefinition) :
    ∃ state, d.states.get? d.initialStateId = some state ∧ state.isInitial = true := by
  obtain ⟨state, hs⟩ := d.exists_initial
  obtain ⟨stateId, hget⟩ := OrdMap.mem_values.mp (List.mem_of_find?_eq_some hs)
  have hid : d.initialStateId = stateId := by
    rw [← d.statesKeyed stateId state hget]
    simp [CeremonyDefinition.initialStateId, hs]
  exact ⟨state, by rw [hid]; exact hget, List.find?_some hs⟩

theorem Chain.reachabilityFindings : d.parts.reachabilityFindings = [] := by
  unfold CeremonyDefinitionParts.reachabilityFindings
  split
  · rfl
  · next initial hsole =>
    obtain ⟨-, -, -, hunique⟩ := soleInitialStateId_iff.mp hsole
    obtain ⟨state, hget, hinitial⟩ := get?_initialStateId d
    obtain rfl := hunique _ state hget hinitial
    obtain ⟨last, hlast, hterminal⟩ := h.isTerminal_finish
    have hends : (d.parts.states.values.any fun state => state.isTerminal) = true :=
      List.any_eq_true.mpr ⟨last, OrdMap.mem_values.mpr ⟨finish, hlast⟩, hterminal⟩
    have hstart : (steps.map CeremonyStep.stateId ++ [finish])[0]? = some d.initialStateId := by
      rw [List.getElem?_append_left (by rw [List.length_map]; exact h.nonempty), h.starts]
    have hfinish : (steps.map CeremonyStep.stateId ++ [finish])[steps.length]? = some finish := by
      simp
    rw [hends]
    split
    · rfl
    · simp only [Bool.not_true, Bool.false_eq_true, if_false]
      rw [List.flatMap_eq_nil_iff]
      intro stateId hkey
      obtain ⟨k, hk⟩ := List.mem_iff_getElem?.mp ((h.states stateId).mp (OrdMap.mem_keys.mp hkey))
      obtain ⟨hlt, -⟩ := List.getElem?_eq_some_iff.mp hk
      rw [List.length_append, List.length_map, List.length_singleton] at hlt
      have hreached : (d.parts.statesReachableFrom d.initialStateId).contains stateId = true := by
        rw [(statesReachableFrom_spec d.parts _).2]
        exact h.reaches k hstart (by rwa [Nat.zero_add])
      have hfinishes : d.parts.statesThatReachATerminal.contains stateId = true := by
        rw [(statesThatReachATerminal_spec d.parts).2]
        refine ⟨finish, h.isTerminal_finish, h.reaches (steps.length - k) hk ?_⟩
        rwa [Nat.add_sub_cancel' (by omega)]
      simp [hreached, hfinishes]

theorem Chain.findings : d.parts.collectFindings = [] := by
  rw [List.eq_nil_iff_forall_not_mem]
  rintro ⟨severity, locus, defect⟩ hmem
  cases severity with
  | error =>
    have hclean := d.findings_clean _ hmem
    simp [CeremonyValidationFinding.isBlocking] at hclean
  | warning =>
    have hwarned := (mem_collectFindings_warning d.parts).mp hmem
    rw [h.reachabilityFindings] at hwarned
    simp at hwarned

end Graph

section Performing

/-- Those who carry a ceremony out: a handler that completes every step, and for each step a
lease under a key of its own. -/
structure Crew where
  handle : CeremonyInstance → StepId → StepResult
  completes : ∀ i stepId, (handle i stepId).status = .completed
  lease : CeremonyInstance → StepId → StepLease
  keyed : ∀ i j stepId other,
    (lease i stepId).idempotencyKey = (lease j other).idempotencyKey → stepId = other
  clock : CeremonyInstance → OffsetDateTime

/-- A session, and the steps the handler was called for. -/
structure Performance where
  session : CeremonyInstance
  performed : List StepId

def carriedOut {α : Type} (x : Update DomainError CeremonyInstance α) (i : CeremonyInstance) :
    Except DomainError CeremonyInstance := (x.on i).1.map fun _ => (x.on i).2

variable (crew : Crew) (d : CeremonyDefinition)

def performSteps : List StepId → Performance → Except DomainError Performance
  | [], p => .ok p
  | stepId :: rest, p =>
    if (p.session.stepRecord stepId).any fun record => record.status.isSuccess then
      performSteps rest p
    else do
      let roleId ← d.roleIdForStep stepId
      let started ← carriedOut (CeremonyInstance.startStepAs d roleId stepId
        (crew.lease p.session stepId) (crew.clock p.session)) p.session
      let finished ← carriedOut (CeremonyInstance.applyStepResult d stepId
        (crew.handle started stepId) (crew.clock started)) started
      performSteps rest ⟨finished, p.performed ++ [stepId]⟩

/-- The steps of the state the session is in, then the first transition that is open, again and
again, until the session is completed or there is none. -/
def conduct : Nat → Performance → Except DomainError Performance
  | 0, p => .ok p
  | n + 1, p =>
    if p.session.isCompleted d then .ok p
    else do
      let p ← performSteps crew d
        ((d.stepsForState p.session.currentState).map CeremonyStep.id) p
      match d.nextSatisfiedTransition p.session.currentState p.session.stepRecords
        p.session.context with
      | none => pure p
      | some transition => do
        let roleId ← d.roleIdForTransition transition.trigger
        let moved ← carriedOut (CeremonyInstance.applyTransitionAs d roleId transition.trigger
          (crew.clock p.session)) p.session
        conduct n ⟨moved, p.performed⟩

end Performing

section Methods

variable {d : CeremonyDefinition} {i : CeremonyInstance} {roleId : RoleId} {now : OffsetDateTime}

theorem carriedOut_of_succeeds {α : Type} {x : Update DomainError CeremonyInstance α}
    {i i' : CeremonyInstance} {a : α} (h : Succeeds x i a i') : carriedOut x i = .ok i' := by
  unfold carriedOut
  rw [show x.on i = (.ok a, i') from h]
  rfl

theorem startStepAs_succeeds {stepId : StepId} {step : CeremonyStep} {lease : StepLease}
    (hactive : Active d i) (hallowed : d.roleAllows roleId (.step stepId) = true)
    (hstep : d.step stepId = some step) (hstate : step.stateId = i.currentState)
    (hrecord : i.stepRecords.get? stepId = some StepExecutionRecord.pending)
    (hfresh : i.idempotencyKeys.contains lease.idempotencyKey = false) :
    Succeeds (CeremonyInstance.startStepAs d roleId stepId lease now) i StepAttempt.first { i with
      idempotencyKeys := OrdSet.add lease.idempotencyKey i.idempotencyKeys
      stepRecords := i.stepRecords.insert stepId
        (StepExecutionRecord.pending.withStarted lease StepAttempt.first)
      updatedAt := now } := by
  have hwithin : step.retryPolicy.allowsAttempt StepAttempt.first = true :=
    decide_eq_true (first_le _)
  simp only [CeremonyInstance.startStepAs, CeremonyInstance.startStep, succeeds_bind,
    succeeds_check, succeeds_modify, succeeds_pure, requireRole_ok, requireActive_ok, okOr_eq_ok,
    require_eq_ok, decide_eq_true_eq, Bool.not_eq_true']
  exact ⟨(), i, ⟨⟨hactive.matching, hallowed⟩, rfl⟩, (), i, ⟨hactive, rfl⟩, step, i, ⟨hstep, rfl⟩,
    (), i, ⟨hstate, rfl⟩, _, i, ⟨hrecord, rfl⟩, (), i, ⟨rfl, rfl⟩, _, i, ⟨rfl, rfl⟩, (), i,
    ⟨hwithin, rfl⟩, (), i, ⟨hfresh, rfl⟩, (), _, rfl, rfl, rfl⟩

theorem applyStepResult_succeeds {stepId : StepId} {step : CeremonyStep} {result : StepResult}
    {record : StepExecutionRecord} (hmatching : i.matchesDefinition d = true)
    (hstep : d.step stepId = some step) (hstate : step.stateId = i.currentState)
    (hrecord : i.stepRecords.get? stepId = some record) (hstatus : record.status = .inProgress) :
    Succeeds (CeremonyInstance.applyStepResult d stepId result now) i () { i with
      stepRecords := i.stepRecords.insert stepId (record.withResult result)
      updatedAt := now } := by
  simp only [CeremonyInstance.applyStepResult, succeeds_bind, succeeds_check, succeeds_modify,
    requireDefinition_ok, okOr_eq_ok, require_eq_ok, decide_eq_true_eq]
  exact ⟨(), i, ⟨hmatching, rfl⟩, step, i, ⟨hstep, rfl⟩, (), i, ⟨hstate, rfl⟩, record, i,
    ⟨hrecord, rfl⟩, (), i, ⟨hstatus, rfl⟩, rfl⟩

theorem applyTransitionAs_succeeds {t : CeremonyTransition} (hactive : Active d i)
    (hallowed : d.roleAllows roleId (.transition t.trigger) = true) (ht : t ∈ d.transitions)
    (hstate : t.fromState = i.currentState)
    (hguards : d.guardsAreSatisfied t i.stepRecords i.context = true) :
    Succeeds (CeremonyInstance.applyTransitionAs d roleId t.trigger now) i t.toState { i with
      currentState := t.toState
      transitions := i.transitions ++ [⟨t.trigger, i.currentState, t.toState, some roleId, now⟩]
      updatedAt := now
      completedAt := if d.isTerminalState t.toState then some now else i.completedAt } := by
  have hfound : d.transitionForTrigger i.currentState t.trigger = some t :=
    CeremonyDefinition.transitionForTrigger_eq_some.mpr ⟨ht, hstate, rfl⟩
  simp only [CeremonyInstance.applyTransitionAs, CeremonyInstance.moveOn, succeeds_bind,
    succeeds_check, succeeds_modify, succeeds_pure, requireRole_ok, requireActive_ok, okOr_eq_ok,
    require_eq_ok]
  exact ⟨(), i, ⟨⟨hactive.matching, hallowed⟩, rfl⟩, (), i, ⟨hactive, rfl⟩, t, i, ⟨hfound, rfl⟩,
    (), i, ⟨hguards, rfl⟩, (), _, rfl, rfl, rfl⟩

theorem roleForAction_of_allows {action : RoleAction} {role : CeremonyRole}
    (hrole : role ∈ d.roles.values) (hallows : role.allows action = true) :
    ∃ first, d.roleForAction action = some first ∧ d.roleAllows first.id action = true := by
  have hsome : (d.roleForAction action).isSome = true :=
    List.find?_isSome.mpr ⟨role, hrole, hallows⟩
  obtain ⟨first, hfirst⟩ := Option.isSome_iff_exists.mp hsome
  obtain ⟨roleId, hget⟩ := OrdMap.mem_values.mp (List.mem_of_find?_eq_some hfirst)
  have hallowed := List.find?_some (p := fun role : CeremonyRole => role.allows action) hfirst
  refine ⟨first, hfirst, ?_⟩
  rw [CeremonyDefinition.roleAllows, CeremonyDefinition.role, d.rolesKeyed roleId first hget, hget]
  exact hallowed

end Methods

section Runs

variable {crew : Crew} {d : CeremonyDefinition} {steps : List CeremonyStep} {finish : StateId}
  {gate : Option GuardName} {context : CeremonyContext} {k : Nat} {step : CeremonyStep}
  {p : Performance}

/-- A performance in the state of one step, with so many steps done. -/
structure Stands (crew : Crew) (d : CeremonyDefinition) (steps : List CeremonyStep)
    (context : CeremonyContext) (done k : Nat) (p : Performance) : Prop where
  matching : p.session.matchesDefinition d = true
  here : (steps.map CeremonyStep.stateId)[k]? = some p.session.currentState
  completed : ∀ (n : Nat) (step : CeremonyStep), steps[n]? = some step → n < done →
    ∃ record, p.session.stepRecords.get? step.id = some record ∧ record.status = .completed
  pending : ∀ (n : Nat) (step : CeremonyStep), steps[n]? = some step → done ≤ n →
    p.session.stepRecords.get? step.id = some StepExecutionRecord.pending
  performed : p.performed = (steps.take done).map CeremonyStep.id
  keys : ∀ key, p.session.idempotencyKeys.contains key = true →
    ∃ (n : Nat) (step : CeremonyStep) (i : CeremonyInstance), n < done ∧ steps[n]? = some step ∧
      key = (crew.lease i step.id).idempotencyKey
  context : p.session.context = context

theorem Chain.index_eq (h : Chain d steps finish gate) {n : Nat} {other : CeremonyStep}
    (hstep : steps[k]? = some step) (hother : steps[n]? = some other) (hid : other.id = step.id) :
    n = k := by
  have hknown := h.known other (List.mem_of_getElem? hother)
  rw [hid, h.known step (List.mem_of_getElem? hstep)] at hknown
  obtain rfl := Option.some.inj hknown
  obtain ⟨hlt, -⟩ := List.getElem?_eq_some_iff.mp hother
  have hsame : (steps.map CeremonyStep.stateId)[n]? = (steps.map CeremonyStep.stateId)[k]? := by
    rw [List.getElem?_map, List.getElem?_map, hstep, hother]
  exact (List.getElem?_inj (by rwa [List.length_map]) h.fronts_nodup).mp hsame

theorem Stands.state {done : Nat} (hs : Stands crew d steps context done k p)
    (hstep : steps[k]? = some step) : step.stateId = p.session.currentState := by
  have hhere := hs.here
  rw [List.getElem?_map, hstep] at hhere
  exact Option.some.inj hhere

theorem Stands.active {done : Nat} (h : Chain d steps finish gate)
    (hs : Stands crew d steps context done k p) (hstep : steps[k]? = some step) :
    Active d p.session := by
  refine ⟨hs.matching, ?_⟩
  rw [← hs.state hstep]
  exact h.not_terminal (List.mem_of_getElem? hstep)

theorem Stands.fresh (h : Chain d steps finish gate) (hs : Stands crew d steps context k k p)
    (hstep : steps[k]? = some step) (i : CeremonyInstance) :
    p.session.idempotencyKeys.contains (crew.lease i step.id).idempotencyKey = false := by
  by_contra hused
  obtain ⟨n, other, j, hn, hother, hkey⟩ := hs.keys _ (Bool.eq_true_of_not_eq_false hused)
  have hid := crew.keyed i j step.id other.id hkey
  exact absurd (h.index_eq hstep hother hid.symm) (by omega)

theorem Stands.one_more (h : Chain d steps finish gate) (hs : Stands crew d steps context k k p)
    (hstep : steps[k]? = some step) {record : StepExecutionRecord}
    (hrecord : record.status = .completed) {session : CeremonyInstance}
    (hsession : session = { p.session with
      stepRecords := session.stepRecords, idempotencyKeys := session.idempotencyKeys,
      updatedAt := session.updatedAt })
    (hrecords : ∀ stepId, session.stepRecords.get? stepId =
      if stepId = step.id then some record else p.session.stepRecords.get? stepId)
    (hkeys : session.idempotencyKeys =
      OrdSet.add (crew.lease p.session step.id).idempotencyKey p.session.idempotencyKeys) :
    Stands crew d steps context (k + 1) k ⟨session, p.performed ++ [step.id]⟩ := by
  constructor
  · rw [hsession]
    exact hs.matching
  · rw [hsession]
    exact hs.here
  · intro n other hother hn
    dsimp only
    rw [hrecords]
    by_cases hid : other.id = step.id
    · exact ⟨record, by simp [hid], hrecord⟩
    · rw [if_neg hid]
      have hne : n ≠ k := by
        rintro rfl
        exact hid (congrArg CeremonyStep.id (Option.some.inj (hother.symm.trans hstep)))
      exact hs.completed n other hother (by omega)
  · intro n other hother hn
    dsimp only
    rw [hrecords, if_neg]
    · exact hs.pending n other hother (by omega)
    · intro hid
      exact absurd (h.index_eq hstep hother hid) (by omega)
  · rw [List.take_add_one, hstep, List.map_append, hs.performed]
    rfl
  · intro key hkey
    dsimp only at hkey
    rw [hkeys, OrdSet.contains_add, Bool.or_eq_true, decide_eq_true_eq] at hkey
    rcases hkey with rfl | hkey
    · exact ⟨k, step, p.session, by omega, hstep, rfl⟩
    · obtain ⟨n, other, i, hn, hother, hlease⟩ := hs.keys key hkey
      exact ⟨n, other, i, by omega, hother, hlease⟩
  · rw [hsession]
    exact hs.context

theorem performSteps_once (h : Chain d steps finish gate)
    (hs : Stands crew d steps context k k p) (hstep : steps[k]? = some step) :
    ∃ p', performSteps crew d ((d.stepsForState p.session.currentState).map CeremonyStep.id) p =
      .ok p' ∧ Stands crew d steps context (k + 1) k p' := by
  have hmem := List.mem_of_getElem? hstep
  have hstate := hs.state hstep
  have hrecord := hs.pending k step hstep (Nat.le_refl k)
  have hunsuccessful : ((p.session.stepRecord step.id).any fun record => record.status.isSuccess) =
      false := by
    rw [CeremonyInstance.stepRecord, hrecord]
    rfl
  obtain ⟨role, hrole, hallows⟩ := h.staffed step hmem
  obtain ⟨first, hfirst, hallowed⟩ := roleForAction_of_allows hrole hallows
  have hrole : d.roleIdForStep step.id = .ok first.id := by
    rw [CeremonyDefinition.roleIdForStep, hfirst]
    rfl
  obtain ⟨started, hstarts, hstarted⟩ : ∃ started, carriedOut (CeremonyInstance.startStepAs d first.id
      step.id (crew.lease p.session step.id) (crew.clock p.session)) p.session = .ok started ∧
      started = { p.session with
        idempotencyKeys := OrdSet.add (crew.lease p.session step.id).idempotencyKey
          p.session.idempotencyKeys
        stepRecords := p.session.stepRecords.insert step.id
          (StepExecutionRecord.pending.withStarted (crew.lease p.session step.id) StepAttempt.first)
        updatedAt := crew.clock p.session } :=
    ⟨_, carriedOut_of_succeeds (startStepAs_succeeds (hs.active h hstep) hallowed
      (h.known step hmem) hstate hrecord (hs.fresh h hstep p.session)), rfl⟩
  have hrunning : started.stepRecords.get? step.id = some (StepExecutionRecord.pending.withStarted
      (crew.lease p.session step.id) StepAttempt.first) := by
    rw [hstarted]
    simp
  obtain ⟨finished, hfinishes, hfinished⟩ : ∃ finished, carriedOut (CeremonyInstance.applyStepResult
      d step.id (crew.handle started step.id) (crew.clock started)) started = .ok finished ∧
      finished = { started with
        stepRecords := started.stepRecords.insert step.id ((StepExecutionRecord.pending.withStarted
          (crew.lease p.session step.id) StepAttempt.first).withResult
            (crew.handle started step.id))
        updatedAt := crew.clock started } :=
    ⟨_, carriedOut_of_succeeds (applyStepResult_succeeds (by rw [hstarted]; exact hs.matching)
      (h.known step hmem) (by rw [hstarted]; exact hstate) hrunning rfl), rfl⟩
  refine ⟨⟨finished, p.performed ++ [step.id]⟩, ?_, ?_⟩
  · rw [← hstate, h.stepsForState hmem, List.map_cons, List.map_nil, performSteps, hunsuccessful]
    simp only [Bool.false_eq_true, if_false, except_bind_eq_ok]
    exact ⟨first.id, hrole, started, hstarts, finished, hfinishes, rfl⟩
  · have hcompleted : ((StepExecutionRecord.pending.withStarted (crew.lease p.session step.id)
        StepAttempt.first).withResult (crew.handle started step.id)).status = .completed :=
      crew.completes started step.id
    apply hs.one_more h hstep hcompleted
    · rw [hfinished, hstarted]
    · intro stepId
      rw [hfinished, hstarted]
      dsimp only
      rw [OrdMap.get?_insert, OrdMap.get?_insert]
      split <;> rfl
    · rw [hfinished, hstarted]

theorem performSteps_again (h : Chain d steps finish gate)
    (hs : Stands crew d steps context (k + 1) k p) (hstep : steps[k]? = some step) :
    performSteps crew d ((d.stepsForState p.session.currentState).map CeremonyStep.id) p =
      .ok p := by
  obtain ⟨record, hrecord, hstatus⟩ := hs.completed k step hstep (Nat.lt_succ_self k)
  have hsuccessful : ((p.session.stepRecord step.id).any fun record => record.status.isSuccess) =
      true := by
    rw [CeremonyInstance.stepRecord, hrecord]
    simp [StepStatus.isSuccess, hstatus]
  rw [← hs.state hstep, h.stepsForState (List.mem_of_getElem? hstep), List.map_cons, List.map_nil,
    performSteps, if_pos hsuccessful, performSteps]

def Open (steps : List CeremonyStep) (gate : Option GuardName) (context : CeremonyContext) (k : Nat) :
    Prop :=
  k + 1 = steps.length → ∀ guardName ∈ gate, context.isGuardApproved guardName = true

theorem guards_satisfied_iff (h : Chain d steps finish gate)
    (hs : Stands crew d steps context (k + 1) k p) (hstep : steps[k]? = some step)
    {t : CeremonyTransition} (ht : d.transitions[k]? = some t) :
    d.guardsAreSatisfied t p.session.stepRecords p.session.context = true ↔
      Open steps gate context k := by
  obtain ⟨record, hrecord, hstatus⟩ := hs.completed k step hstep (Nat.lt_succ_self k)
  rw [h.guarded k step t hstep ht, hrecord, hs.context]
  simp [hstatus, Open]

theorem not_completed (h : Chain d steps finish gate) {done : Nat}
    (hs : Stands crew d steps context done k p) (hstep : steps[k]? = some step) :
    p.session.isCompleted d = false := by
  simp [CeremonyInstance.isCompleted, CeremonyInstance.isTerminal, (hs.active h hstep).running]

theorem conduct_waits (h : Chain d steps finish gate)
    (hs : Stands crew d steps context (k + 1) k p) (hstep : steps[k]? = some step)
    (hclosed : ¬ Open steps gate context k) (n : Nat) {q : Performance}
    (hq : performSteps crew d ((d.stepsForState q.session.currentState).map CeremonyStep.id) q =
      .ok p) (hunder : q.session.isCompleted d = false) : conduct crew d (n + 1) q = .ok p := by
  obtain ⟨t, ht, hfrom⟩ := h.transition hstep
  have hnone : d.nextSatisfiedTransition p.session.currentState p.session.stepRecords
      p.session.context = none := by
    rw [← hs.state hstep, ← hfrom, h.nextSatisfiedTransition (List.mem_of_getElem? ht), if_neg]
    rwa [guards_satisfied_iff h hs hstep ht]
  rw [conduct, hunder]
  simp only [Bool.false_eq_true, if_false, except_bind_eq_ok]
  refine ⟨p, hq, ?_⟩
  rw [hnone]
  rfl

theorem conduct_moves (h : Chain d steps finish gate)
    (hs : Stands crew d steps context (k + 1) k p) (hstep : steps[k]? = some step)
    (hopen : Open steps gate context k) {q : Performance}
    (hq : performSteps crew d ((d.stepsForState q.session.currentState).map CeremonyStep.id) q =
      .ok p) (hunder : q.session.isCompleted d = false) :
    ∃ t moved, d.transitions[k]? = some t ∧
      (∀ n, conduct crew d (n + 1) q = conduct crew d n ⟨moved, p.performed⟩) ∧
      moved = { p.session with
        currentState := t.toState, transitions := moved.transitions, updatedAt := moved.updatedAt,
        completedAt := moved.completedAt } ∧
      (d.isTerminalState t.toState = true → moved.completedAt.isSome = true) := by
  obtain ⟨t, ht, hfrom⟩ := h.transition hstep
  have hmem := List.mem_of_getElem? ht
  have hsatisfied := (guards_satisfied_iff h hs hstep ht).mpr hopen
  have hstate := hs.state hstep
  have hnext : d.nextSatisfiedTransition p.session.currentState p.session.stepRecords
      p.session.context = some t := by
    rw [← hstate, ← hfrom, h.nextSatisfiedTransition hmem, if_pos hsatisfied]
  obtain ⟨role, hrole, hallows⟩ := h.steered t hmem
  obtain ⟨first, hfirst, hallowed⟩ := roleForAction_of_allows hrole hallows
  have hrole : d.roleIdForTransition t.trigger = .ok first.id := by
    rw [CeremonyDefinition.roleIdForTransition, hfirst]
    rfl
  obtain ⟨moved, hmoves, hmoved⟩ : ∃ moved, carriedOut (CeremonyInstance.applyTransitionAs d first.id
      t.trigger (crew.clock p.session)) p.session = .ok moved ∧ moved = { p.session with
        currentState := t.toState
        transitions := p.session.transitions ++ [⟨t.trigger, p.session.currentState, t.toState,
          some first.id, crew.clock p.session⟩]
        updatedAt := crew.clock p.session
        completedAt := if d.isTerminalState t.toState then some (crew.clock p.session)
          else p.session.completedAt } :=
    ⟨_, carriedOut_of_succeeds (applyTransitionAs_succeeds (hs.active h hstep) hallowed hmem
      (hfrom.trans hstate) hsatisfied), rfl⟩
  refine ⟨t, moved, ht, fun n => ?_, by rw [hmoved], fun hterminal => ?_⟩
  · rw [conduct, hunder]
    simp only [Bool.false_eq_true, if_false]
    rw [hq]
    simp only [bind, Except.bind]
    rw [hnext]
    simp only [hrole, hmoves]
  · simp [hmoved, hterminal]

/-- A performance that has reached the end. -/
structure Finished (d : CeremonyDefinition) (steps : List CeremonyStep) (finish : StateId)
    (p : Performance) : Prop where
  here : p.session.currentState = finish
  completed : p.session.isCompleted d = true
  performed : p.performed = steps.map CeremonyStep.id

theorem conduct_finished (hp : Finished d steps finish p) (n : Nat) :
    conduct crew d n p = .ok p := by
  cases n with
  | zero => rfl
  | succ n => rw [conduct, if_pos hp.completed]

theorem stands_or_finished (h : Chain d steps finish gate)
    (hs : Stands crew d steps context (k + 1) k p) {t : CeremonyTransition}
    (ht : d.transitions[k]? = some t) {moved : CeremonyInstance}
    (hmoved : moved = { p.session with
      currentState := t.toState, transitions := moved.transitions, updatedAt := moved.updatedAt,
      completedAt := moved.completedAt })
    (hended : d.isTerminalState t.toState = true → moved.completedAt.isSome = true) :
    (k + 1 < steps.length → Stands crew d steps context (k + 1) (k + 1) ⟨moved, p.performed⟩) ∧
      (k + 1 = steps.length → Finished d steps finish ⟨moved, p.performed⟩) := by
  have harrives := h.arrives k t ht
  have hmatching : moved.matchesDefinition d = true := by
    rw [hmoved]
    exact hs.matching
  have hstate : moved.currentState = t.toState := by rw [hmoved]
  constructor
  · intro hlt
    rw [List.getElem?_append_left (by rwa [List.length_map])] at harrives
    constructor
    · exact hmatching
    · rw [harrives, hstate]
    · rw [hmoved]
      exact hs.completed
    · rw [hmoved]
      exact hs.pending
    · exact hs.performed
    · rw [hmoved]
      exact hs.keys
    · rw [hmoved]
      exact hs.context
  · intro hlast
    have hfinish : t.toState = finish := by
      have hend : (steps.map CeremonyStep.stateId ++ [finish])[k + 1]? = some finish := by
        rw [hlast]
        simp
      exact Option.some.inj (harrives.symm.trans hend)
    have hterminal := (h.ends t.toState).mpr hfinish
    constructor
    · exact hstate.trans hfinish
    · simp [CeremonyInstance.isCompleted, CeremonyInstance.isTerminal, hmatching, hstate, hterminal,
        hended hterminal]
    · rw [hs.performed, hlast, List.take_length]

/-- What conducting a chain comes to: every step is performed, once and in order, and the session
is completed, or it waits in the state of the last step for the guard there. -/
theorem conduct_chain (h : Chain d steps finish gate) (fuel : Nat) (hk : k < steps.length)
    (hfuel : steps.length ≤ k + fuel) (hs : Stands crew d steps context k k p) :
    ∃ p', conduct crew d fuel p = .ok p' ∧
      (Open steps gate context (steps.length - 1) → Finished d steps finish p') ∧
      (¬ Open steps gate context (steps.length - 1) →
        Stands crew d steps context steps.length (steps.length - 1) p') := by
  induction fuel generalizing k p with
  | zero => omega
  | succ fuel ih =>
    have hstep := List.getElem?_eq_getElem hk
    obtain ⟨q, hq, hstands⟩ := performSteps_once h hs hstep
    have hunder := not_completed h hs hstep
    by_cases hopen : Open steps gate context k
    · obtain ⟨t, moved, ht, hconduct, hmoved, hended⟩ :=
        conduct_moves h hstands hstep hopen hq hunder
      obtain ⟨hnext, hlast⟩ := stands_or_finished h hstands ht hmoved hended
      rw [hconduct]
      by_cases hmore : k + 1 < steps.length
      · exact ih hmore (by omega) (hnext hmore)
      · have hend : k + 1 = steps.length := by omega
        refine ⟨_, conduct_finished (hlast hend) fuel, fun _ => hlast hend, fun hclosed => ?_⟩
        rw [show steps.length - 1 = k by omega] at hclosed
        exact absurd hopen hclosed
    · have hend : k + 1 = steps.length := by
        by_contra hne
        exact hopen fun he => absurd he hne
      have hindex : steps.length - 1 = k := by omega
      rw [hindex, ← hend]
      exact ⟨q, conduct_waits h hstands hstep hopen fuel hq hunder, fun ho => absurd ho hopen,
        fun _ => hstands⟩

theorem stands_opened (h : Chain d steps finish gate) (id : CeremonyId) (now : OffsetDateTime)
    (bound : Option CeremonyDefinitionDigest) :
    Stands crew d steps context 0 0 ⟨CeremonyInstance.opened id d context now bound, []⟩ := by
  constructor
  · exact opened_matches id d context now bound
  · exact h.starts
  · intro n step hstep hn
    omega
  · intro n step hstep hn
    have hknown : d.steps.contains step.id = true :=
      OrdMap.contains_iff.mpr ⟨step, h.known step (List.mem_of_getElem? hstep)⟩
    rw [opened_record, if_pos hknown]
  · rfl
  · intro key hkey
    simp [CeremonyInstance.opened, OrdMap.contains] at hkey
  · rfl

theorem conduct_approved (h : Chain d steps finish gate)
    (hs : Stands crew d steps context steps.length (steps.length - 1) p) {guardName : GuardName}
    (hgate : ∀ other ∈ gate, other = guardName) {approvedBy : RoleId} {kind : AuditActorKind}
    {now : OffsetDateTime} {u : Unit} {approved : CeremonyInstance}
    (happrove : Succeeds (CeremonyInstance.approveGuard d guardName approvedBy kind now) p.session u
      approved) (n : Nat) :
    ∃ p', conduct crew d (n + 1) ⟨approved, p.performed⟩ = .ok p' ∧ Finished d steps finish p' := by
  have hlength := h.nonempty
  obtain ⟨index, hindex⟩ : ∃ index, steps.length = index + 1 := ⟨steps.length - 1, by omega⟩
  have hstep := List.getElem?_eq_getElem (show index < steps.length by omega)
  rw [show steps.length - 1 = index by omega] at hs
  obtain ⟨next, hcontext, happroved⟩ : ∃ next,
      p.session.context.withGuardApproval guardName = .ok next ∧
      approved = { p.session with
        context := next
        guardApprovals := p.session.guardApprovals ++ [⟨guardName, approvedBy, kind, now⟩]
        updatedAt := now } := by
    cases approveGuard_effect happrove with
    | approveGuard _ _ _ _ hcontext => exact ⟨_, hcontext, rfl⟩
  rw [hindex] at hs
  have hstands : Stands crew d steps next (index + 1) index ⟨approved, p.performed⟩ := by
    rw [happroved]
    exact ⟨hs.matching, hs.here, hs.completed, hs.pending, hs.performed, hs.keys, rfl⟩
  have hopen : Open steps gate next index := by
    intro _ other hother
    rw [CeremonyContext.isGuardApproved_withGuardApproval hcontext, hgate other hother]
    simp
  obtain ⟨t, moved, ht, hconduct, hmoved, hended⟩ := conduct_moves h hstands hstep hopen
    (performSteps_again h hstands hstep) (not_completed h hstands hstep)
  obtain ⟨-, hfinished⟩ := stands_or_finished h hstands ht hmoved hended
  refine ⟨_, (hconduct n).trans (conduct_finished (hfinished hindex.symm) n), ?_⟩
  exact hfinished hindex.symm

end Runs

end Choreographer.Chains
