import Choreographer.Definition

namespace Choreographer.Acceptance

open Choreographer.Lib.SortedMaps Choreographer.Lib.Updates
open Choreographer.Texts Choreographer.Values Choreographer.Steps Choreographer.DefinitionParts
open Choreographer.Definition

section Collecting

variable {κ ν : Type} [LinearOrder κ] {key : ν → κ} {what : String}

theorem collect_isOk {items : List ν} {start : OrdMap κ ν} :
    (∃ map, collect key what items start = .ok map) ↔
      (items.map key).Nodup ∧ ∀ item ∈ items, start.contains (key item) = false := by
  induction items generalizing start with
  | nil => simp [collect]
  | cons item rest ih =>
    rw [collect]
    by_cases hc : start.contains (key item) = true
    · simp [hc]
    · rw [if_neg hc, ih]
      simp only [OrdMap.contains_insert, List.map_cons, List.nodup_cons, List.mem_map,
        List.forall_mem_cons, Bool.or_eq_false_iff, decide_eq_false_iff_not]
      constructor
      · rintro ⟨hn, hall⟩
        have hfresh : ¬ ∃ other ∈ rest, key other = key item := by
          rintro ⟨other, ho, he⟩
          exact (hall other ho).1 he
        exact ⟨⟨hfresh, hn⟩, by simpa using hc, fun other ho => (hall other ho).2⟩
      · rintro ⟨⟨hfresh, hn⟩, _, hall⟩
        exact ⟨hn, fun other ho => ⟨fun he => hfresh ⟨other, ho, he⟩, hall other ho⟩⟩

theorem get?_collect {items : List ν} {start map : OrdMap κ ν}
    (h : collect key what items start = .ok map) (k : κ) (v : ν) :
    map.get? k = some v ↔ start.get? k = some v ∨ v ∈ items ∧ key v = k := by
  induction items generalizing start with
  | nil =>
    obtain rfl := Except.ok.inj h
    simp
  | cons item rest ih =>
    rw [collect] at h
    split at h
    · simp at h
    · next hfresh =>
      rw [ih h, OrdMap.get?_insert]
      by_cases hk : k = key item
      · subst hk
        have hnone : start.get? (key item) = none := by
          simpa [OrdMap.contains] using hfresh
        simp only [if_true, Option.some.injEq, hnone, reduceCtorEq, List.mem_cons, false_or]
        constructor
        · rintro (rfl | ⟨hv, hkey⟩)
          · exact ⟨.inl rfl, rfl⟩
          · exact ⟨.inr hv, hkey⟩
        · rintro ⟨rfl | hv, hkey⟩
          · exact .inl rfl
          · exact .inr ⟨hv, hkey⟩
      · simp only [hk, if_false, List.mem_cons]
        constructor
        · rintro (hs | ⟨hv, hkey⟩)
          · exact .inl hs
          · exact .inr ⟨.inr hv, hkey⟩
        · rintro (hs | ⟨rfl | hv, hkey⟩)
          · exact .inl hs
          · exact absurd hkey.symm hk
          · exact .inr ⟨hv, hkey⟩

theorem get?_collected {items : List ν} {map : OrdMap κ ν}
    (h : collect key what items OrdMap.empty = .ok map) {k : κ} {v : ν} :
    map.get? k = some v ↔ v ∈ items ∧ key v = k := by
  simpa using get?_collect h k v

theorem contains_collected {items : List ν} {map : OrdMap κ ν}
    (h : collect key what items OrdMap.empty = .ok map) {k : κ} :
    map.contains k = true ↔ k ∈ items.map key := by
  rw [OrdMap.contains_iff, List.mem_map]
  simp only [get?_collected h]

end Collecting

section Findings

open CeremonyDefinitionParts

variable {parts : CeremonyDefinitionParts}

theorem validate_eq_ok : parts.validate = .ok () ↔ Clean parts.collectFindings := by
  refine ⟨validate_ok, fun h => ?_⟩
  have hnone : firstError parts.collectFindings = none :=
    List.find?_eq_none.mpr fun finding hf => by simp [h finding hf]
  simp [validate, hnone]

theorem clean_flatMap {α : Type} {l : List α} {f : α → List CeremonyValidationFinding} :
    Clean (l.flatMap f) ↔ ∀ x ∈ l, Clean (f x) := by
  constructor
  · exact fun h x hx finding hf => h finding (List.mem_flatMap.mpr ⟨x, hx, hf⟩)
  · intro h finding hf
    obtain ⟨x, hx, hfx⟩ := List.mem_flatMap.mp hf
    exact h x hx finding hfx

theorem clean_nil : Clean [] := by simp [Clean]

theorem clean_error_iff {p : Prop} [Decidable p] {locus : CeremonyValidationLocus}
    {defect : DomainError} :
    Clean (if p then [] else [CeremonyValidationFinding.error locus defect]) ↔ p := by
  by_cases h : p
  · simp [h, clean_nil]
  · simpa [h] using not_clean_error_cons

theorem clean_reachabilityFindings : Clean parts.reachabilityFindings := by
  unfold reachabilityFindings
  split
  · exact clean_nil
  · split_ifs
    · exact clean_nil
    · simp [Clean, CeremonyValidationFinding.warning, CeremonyValidationFinding.isBlocking]
    · refine clean_flatMap.mpr fun stateId _ => ?_
      split_ifs <;>
        simp [Clean, CeremonyValidationFinding.warning, CeremonyValidationFinding.isBlocking]

theorem clean_initialStateFindings : Clean parts.initialStateFindings ↔
    (parts.states.values.filter fun state => state.isInitial).length = 1 := by
  refine ⟨initialStateFindings_clean, fun h => ?_⟩
  have hne : parts.states.entries.isEmpty = false := by
    rw [List.isEmpty_eq_false_iff]
    rintro he
    simp [OrdMap.values, he] at h
  simp [initialStateFindings, hne, h, clean_nil]

theorem transitionFindings_of_wellPlaced {taken : List (StateId × TransitionTrigger)}
    {t : CeremonyTransition} (h : parts.WellPlaced t)
    (hfree : (t.fromState, t.trigger) ∉ taken) : parts.transitionFindings taken t = ([], true) := by
  obtain ⟨state, hs, hterm⟩ := h.leaves
  have hguards : (t.requiredGuards.keys.filter fun guardName => !parts.guards.contains guardName)
      = [] := by
    refine List.filter_eq_nil_iff.mpr fun guardName hg => ?_
    simp [h.guarded guardName (OrdMap.mem_keys.mp hg)]
  simp [transitionFindings, hs, h.enters, hterm, hfree, hguards]

theorem clean_transitionGraphFindings {taken : List (StateId × TransitionTrigger)}
    {transitions : List CeremonyTransition} :
    Clean (parts.transitionGraphFindings taken transitions) ↔
      (∀ t ∈ transitions, parts.WellPlaced t ∧ (t.fromState, t.trigger) ∉ taken) ∧
      transitions.Pairwise fun t u => (t.fromState, t.trigger) ≠ (u.fromState, u.trigger) := by
  refine ⟨transitionGraphFindings_clean, fun h => ?_⟩
  induction transitions generalizing taken with
  | nil => exact clean_nil
  | cons t rest ih =>
    obtain ⟨hall, hpair⟩ := h
    rw [List.forall_mem_cons] at hall
    rw [List.pairwise_cons] at hpair
    rw [transitionGraphFindings, transitionFindings_of_wellPlaced hall.1.1 hall.1.2]
    refine clean_append.mpr ⟨clean_nil, ih ⟨fun u hu => ⟨(hall.2 u hu).1, fun hm => ?_⟩, hpair.2⟩⟩
    rcases List.mem_cons.mp hm with he | hm
    · exact hpair.1 u hu he.symm
    · exact (hall.2 u hu).2 hm

theorem clean_stepFindings {stepId : StepId} {step : CeremonyStep} :
    Clean (parts.stepFindings stepId step) ↔
      ∃ state, parts.states.get? step.stateId = some state ∧ state.isTerminal = false := by
  refine ⟨stepFindings_clean, ?_⟩
  rintro ⟨state, hs, hterm⟩
  simp [stepFindings, hs, hterm, clean_nil]

theorem clean_guardFindings {guardName : GuardName} {guard : CeremonyGuard} :
    Clean (parts.guardFindings guardName guard) ↔
      ∀ stepId, guard.condition.referencedStepId = some stepId →
        parts.steps.contains stepId = true := by
  unfold guardFindings
  cases guard.condition.referencedStepId with
  | none => simp [clean_nil]
  | some stepId => simpa using clean_error_iff

theorem clean_roleActionFindings {roleId : RoleId} {action : RoleAction} :
    Clean (parts.roleActionFindings roleId action) ↔
      (∀ stepId, action = .step stepId → parts.steps.contains stepId = true) ∧
      ∀ trigger, action = .transition trigger → ∃ t ∈ parts.transitions, t.trigger = trigger := by
  cases action with
  | step stepId => simpa [roleActionFindings, RoleAction.stepId, RoleAction.transitionTrigger,
      clean_nil] using clean_error_iff
  | transition trigger =>
    simp only [roleActionFindings, RoleAction.stepId, RoleAction.transitionTrigger, clean_append,
      clean_nil, true_and, clean_error_iff]
    simp
  | _ => simp [roleActionFindings, RoleAction.stepId, RoleAction.transitionTrigger, clean_nil]

end Findings

/-- What an author has to get right about a ceremony. -/
structure WellFormed (inputs : List CeremonyInputDefinition)
    (outputs : List CeremonyOutputDefinition) (states : List CeremonyState)
    (transitions : List CeremonyTransition) (steps : List CeremonyStep)
    (guards : List CeremonyGuard) (roles : List CeremonyRole) : Prop where
  inputs_unique : (inputs.map CeremonyInputDefinition.name).Nodup
  outputs_unique : (outputs.map CeremonyOutputDefinition.name).Nodup
  states_unique : (states.map CeremonyState.id).Nodup
  steps_unique : (steps.map CeremonyStep.id).Nodup
  guards_unique : (guards.map CeremonyGuard.name).Nodup
  roles_unique : (roles.map CeremonyRole.id).Nodup
  one_initial : ∃! state, state ∈ states ∧ state.isInitial = true
  endpoints : ∀ t ∈ transitions,
    t.fromState ∈ states.map CeremonyState.id ∧ t.toState ∈ states.map CeremonyState.id
  guarded : ∀ t ∈ transitions, ∀ guardName, t.requiredGuards.contains guardName = true →
    guardName ∈ guards.map CeremonyGuard.name
  placed : ∀ step ∈ steps, step.stateId ∈ states.map CeremonyState.id
  watched : ∀ guard ∈ guards, ∀ stepId, guard.condition.referencedStepId = some stepId →
    stepId ∈ steps.map CeremonyStep.id
  step_actions : ∀ role ∈ roles, ∀ stepId, role.allows (.step stepId) = true →
    stepId ∈ steps.map CeremonyStep.id
  transition_actions : ∀ role ∈ roles, ∀ trigger, role.allows (.transition trigger) = true →
    trigger ∈ transitions.map CeremonyTransition.trigger
  terminal : ∀ state ∈ states, state.isTerminal = true →
    (∀ t ∈ transitions, t.fromState ≠ state.id) ∧ ∀ step ∈ steps, step.stateId ≠ state.id
  unambiguous : (transitions.map fun t => (t.fromState, t.trigger)).Nodup

section Parts

variable {states : List CeremonyState} {transitions : List CeremonyTransition}
  {steps : List CeremonyStep} {guards : List CeremonyGuard} {roles : List CeremonyRole}
  {parts : CeremonyDefinitionParts}

/-- The parts are what was listed. -/
structure Indexes (parts : CeremonyDefinitionParts) (states : List CeremonyState)
    (transitions : List CeremonyTransition) (steps : List CeremonyStep)
    (guards : List CeremonyGuard) (roles : List CeremonyRole) : Prop where
  states : collect CeremonyState.id "ceremony_state" states OrdMap.empty = .ok parts.states
  transitions : parts.transitions = transitions
  steps : collect CeremonyStep.id "ceremony_step" steps OrdMap.empty = .ok parts.steps
  guards : collect CeremonyGuard.name "ceremony_guard" guards OrdMap.empty = .ok parts.guards
  roles : collect CeremonyRole.id "ceremony_role" roles OrdMap.empty = .ok parts.roles

theorem nodup_values {κ ν : Type} [LinearOrder κ] {key : ν → κ} {map : OrdMap κ ν}
    (h : KeyedBy key map) : map.values.Nodup := by
  refine List.pairwise_map.mpr (map.sorted.imp_of_mem fun {a b} ha hb hlt he => ?_)
  have hka := h a.1 a.2 (OrdMap.mem_entries.mp ha)
  have hkb := h b.1 b.2 (OrdMap.mem_entries.mp hb)
  rw [he, hkb] at hka
  exact absurd hka hlt.ne'

theorem one_initial_iff (h : Indexes parts states transitions steps guards roles) :
    (parts.states.values.filter fun state => state.isInitial).length = 1 ↔
      ∃! state, state ∈ states ∧ state.isInitial = true := by
  have hmem (state : CeremonyState) :
      state ∈ (parts.states.values.filter fun state => state.isInitial) ↔
        state ∈ states ∧ state.isInitial = true := by
    rw [List.mem_filter, OrdMap.mem_values]
    simp [get?_collected h.states]
  have hkeyed : KeyedBy CeremonyState.id parts.states :=
    fun k v hv => ((get?_collected h.states).mp hv).2
  rw [List.length_eq_one_iff]
  constructor
  · rintro ⟨state, hs⟩
    refine ⟨state, (hmem state).mp (by simp [hs]), fun other ho => ?_⟩
    simpa [hs] using (hmem other).mpr ho
  · rintro ⟨state, hs, huniq⟩
    refine ⟨state, List.perm_singleton.mp ?_⟩
    rw [List.perm_ext_iff_of_nodup ((nodup_values hkeyed).filter _) (List.nodup_singleton _)]
    intro other
    rw [hmem, List.mem_singleton]
    exact ⟨huniq other, fun he => he ▸ hs⟩

/-- To resolve to a state where something can happen is to resolve to a state and not
to a terminal one. -/
theorem leaves_iff (h : Indexes parts states transitions steps guards roles) {stateId : StateId} :
    (∃ state, parts.states.get? stateId = some state ∧ state.isTerminal = false) ↔
      stateId ∈ states.map CeremonyState.id ∧
        ∀ state ∈ states, state.isTerminal = true → stateId ≠ state.id := by
  constructor
  · rintro ⟨state, hs, hterm⟩
    obtain ⟨hmem, hid⟩ := (get?_collected h.states).mp hs
    refine ⟨List.mem_map.mpr ⟨state, hmem, hid⟩, fun other ho hot he => ?_⟩
    have hother := (get?_collected h.states).mpr ⟨ho, he.symm⟩
    rw [hs] at hother
    rw [← Option.some.inj hother, hterm] at hot
    simp at hot
  · rintro ⟨hmem, hquiet⟩
    obtain ⟨state, hs, hid⟩ := List.mem_map.mp hmem
    refine ⟨state, (get?_collected h.states).mpr ⟨hs, hid⟩, ?_⟩
    by_contra hterm
    exact hquiet state hs (by simpa using hterm) hid.symm

theorem wellPlaced_iff (h : Indexes parts states transitions steps guards roles)
    {t : CeremonyTransition} :
    parts.WellPlaced t ↔ (t.fromState ∈ states.map CeremonyState.id ∧
        ∀ state ∈ states, state.isTerminal = true → t.fromState ≠ state.id) ∧
      t.toState ∈ states.map CeremonyState.id ∧
      ∀ guardName, t.requiredGuards.contains guardName = true →
        guardName ∈ guards.map CeremonyGuard.name := by
  constructor
  · rintro ⟨hleaves, henters, hguarded⟩
    exact ⟨(leaves_iff h).mp hleaves, (contains_collected h.states).mp henters,
      fun guardName hg => (contains_collected h.guards).mp (hguarded guardName hg)⟩
  · rintro ⟨hleaves, henters, hguarded⟩
    exact ⟨(leaves_iff h).mpr hleaves, (contains_collected h.states).mpr henters,
      fun guardName hg => (contains_collected h.guards).mpr (hguarded guardName hg)⟩

theorem forall_entries {κ ν : Type} [LinearOrder κ] {key : ν → κ} {what : String}
    {items : List ν} {map : OrdMap κ ν} (h : collect key what items OrdMap.empty = .ok map)
    {P : κ → ν → Prop} : (∀ entry ∈ map.entries, P entry.1 entry.2) ↔ ∀ v ∈ items, P (key v) v := by
  constructor
  · exact fun hall v hv => hall (key v, v) (OrdMap.mem_entries.mpr ((get?_collected h).mpr ⟨hv, rfl⟩))
  · rintro hall ⟨k, v⟩ he
    obtain ⟨hv, rfl⟩ := (get?_collected h).mp (OrdMap.mem_entries.mp he)
    exact hall v hv

theorem clean_roleFindings (h : Indexes parts states transitions steps guards roles)
    {role : CeremonyRole} {roleId : RoleId} :
    CeremonyDefinitionParts.Clean (role.allowedActions.keys.flatMap fun action =>
        parts.roleActionFindings roleId action) ↔
      (∀ stepId, role.allows (.step stepId) = true → stepId ∈ steps.map CeremonyStep.id) ∧
      ∀ trigger, role.allows (.transition trigger) = true →
        trigger ∈ transitions.map CeremonyTransition.trigger := by
  simp only [clean_flatMap, clean_roleActionFindings, contains_collected h.steps, h.transitions,
    OrdMap.mem_keys, CeremonyRole.allows]
  constructor
  · intro hall
    refine ⟨fun stepId ha => (hall _ ha).1 stepId rfl, fun trigger ha => ?_⟩
    exact List.mem_map.mpr ((hall _ ha).2 trigger rfl)
  · rintro ⟨hsteps, htriggers⟩ action ha
    refine ⟨?_, ?_⟩
    · rintro stepId rfl
      exact hsteps stepId ha
    · rintro trigger rfl
      exact List.mem_map.mp (htriggers trigger ha)

theorem clean_iff_wellFormed {inputs : List CeremonyInputDefinition}
    {outputs : List CeremonyOutputDefinition}
    (h : Indexes parts states transitions steps guards roles)
    (hinputs : (inputs.map CeremonyInputDefinition.name).Nodup)
    (houtputs : (outputs.map CeremonyOutputDefinition.name).Nodup) :
    CeremonyDefinitionParts.Clean parts.collectFindings ↔
      WellFormed inputs outputs states transitions steps guards roles := by
  have hsteps := forall_entries h.steps (P := fun stepId step =>
    CeremonyDefinitionParts.Clean (parts.stepFindings stepId step))
  have hguards := forall_entries h.guards (P := fun guardName guard =>
    CeremonyDefinitionParts.Clean (parts.guardFindings guardName guard))
  have hroles := forall_entries h.roles (P := fun roleId role =>
    CeremonyDefinitionParts.Clean (role.allowedActions.keys.flatMap fun action =>
      parts.roleActionFindings roleId action))
  simp only [CeremonyDefinitionParts.collectFindings, CeremonyDefinitionParts.clean_append]
  rw [clean_flatMap, clean_flatMap, clean_flatMap, hsteps, hguards, hroles,
    clean_initialStateFindings, clean_transitionGraphFindings, one_initial_iff h, h.transitions]
  simp only [clean_stepFindings, clean_guardFindings, clean_roleFindings h, leaves_iff h,
    wellPlaced_iff h, contains_collected h.steps, clean_reachabilityFindings, List.not_mem_nil,
    not_false_eq_true, and_true]
  constructor
  · rintro ⟨⟨⟨⟨hinitial, hplaced, hpair⟩, hstates⟩, hwatched⟩, hactions⟩
    exact {
      inputs_unique := hinputs
      outputs_unique := houtputs
      states_unique := (collect_isOk.mp ⟨_, h.states⟩).1
      steps_unique := (collect_isOk.mp ⟨_, h.steps⟩).1
      guards_unique := (collect_isOk.mp ⟨_, h.guards⟩).1
      roles_unique := (collect_isOk.mp ⟨_, h.roles⟩).1
      one_initial := hinitial
      endpoints := fun t ht => ⟨(hplaced t ht).1.1, (hplaced t ht).2.1⟩
      guarded := fun t ht => (hplaced t ht).2.2
      placed := fun step hs => (hstates step hs).1
      watched := hwatched
      step_actions := fun role hr => (hactions role hr).1
      transition_actions := fun role hr => (hactions role hr).2
      terminal := fun state hs hterm => ⟨fun t ht => (hplaced t ht).1.2 state hs hterm,
        fun step hstep => (hstates step hstep).2 state hs hterm⟩
      unambiguous := List.pairwise_map.mpr hpair }
  · intro hw
    refine ⟨⟨⟨⟨hw.one_initial, ?_, List.pairwise_map.mp hw.unambiguous⟩, ?_⟩, hw.watched⟩, ?_⟩
    · intro t ht
      obtain ⟨hfrom, hto⟩ := hw.endpoints t ht
      exact ⟨⟨hfrom, fun state hs hterm => (hw.terminal state hs hterm).1 t ht⟩, hto,
        hw.guarded t ht⟩
    · intro step hstep
      exact ⟨hw.placed step hstep, fun state hs hterm => (hw.terminal state hs hterm).2 step hstep⟩
    · exact fun role hr => ⟨hw.step_actions role hr, hw.transition_actions role hr⟩

end Parts

section Construction

variable {name : CeremonyName} {version : CeremonyVersion}
  {description : Option CeremonyDescription} {inputs : List CeremonyInputDefinition}
  {outputs : List CeremonyOutputDefinition} {states : List CeremonyState}
  {transitions : List CeremonyTransition} {steps : List CeremonyStep}
  {guards : List CeremonyGuard} {roles : List CeremonyRole}

theorem new_ok {d : CeremonyDefinition} (h : CeremonyDefinition.new name version description inputs
      outputs states transitions steps guards roles = .ok d) :
    collect CeremonyInputDefinition.name "ceremony_input" inputs OrdMap.empty = .ok d.inputs ∧
      collect CeremonyOutputDefinition.name "ceremony_output" outputs OrdMap.empty = .ok d.outputs ∧
      Indexes d.parts states transitions steps guards roles ∧
      d.stepOrder = steps.map CeremonyStep.id := by
  unfold CeremonyDefinition.new at h
  split at h
  · simp at h
  next hi =>
  split at h
  · simp at h
  next ho =>
  split at h
  · simp at h
  next hst =>
  split at h
  · simp at h
  next hsp =>
  split at h
  · simp at h
  next hg =>
  split at h
  · simp at h
  next hr =>
  split at h
  · simp at h
  · obtain rfl := Except.ok.inj h
    exact ⟨hi, ho, ⟨hst, rfl, hsp, hg, hr⟩, rfl⟩

theorem new_of_clean {ins : OrdMap InputName CeremonyInputDefinition}
    {outs : OrdMap OutputName CeremonyOutputDefinition} {parts : CeremonyDefinitionParts}
    (hi : collect CeremonyInputDefinition.name "ceremony_input" inputs OrdMap.empty = .ok ins)
    (ho : collect CeremonyOutputDefinition.name "ceremony_output" outputs OrdMap.empty = .ok outs)
    (hp : Indexes parts states transitions steps guards roles)
    (hv : parts.validate = .ok ()) :
    ∃ d, CeremonyDefinition.new name version description inputs outputs states transitions steps
      guards roles = .ok d := by
  obtain ⟨hst, rfl, hsp, hg, hr⟩ := hp
  unfold CeremonyDefinition.new
  split
  · simp_all
  next hi' =>
  split
  · simp_all
  next ho' =>
  split
  · simp_all
  next hst' =>
  split
  · simp_all
  next hsp' =>
  split
  · simp_all
  next hg' =>
  split
  · simp_all
  next hr' =>
  obtain rfl := Except.ok.inj (hst.symm.trans hst')
  obtain rfl := Except.ok.inj (hsp.symm.trans hsp')
  obtain rfl := Except.ok.inj (hg.symm.trans hg')
  obtain rfl := Except.ok.inj (hr.symm.trans hr')
  split
  · simp_all
  · exact ⟨_, rfl⟩

variable (name version description) in
theorem new_of_wellFormed
    (hw : WellFormed inputs outputs states transitions steps guards roles) :
    ∃ d, CeremonyDefinition.new name version description inputs outputs states transitions steps
      guards roles = .ok d := by
  have hempty {κ ν : Type} [LinearOrder κ] (key : ν → κ) (items : List ν) :
      ∀ item ∈ items, (OrdMap.empty : OrdMap κ ν).contains (key item) = false := fun _ _ => rfl
  obtain ⟨ins, hi⟩ := collect_isOk.mpr ⟨hw.inputs_unique, hempty _ inputs⟩
  obtain ⟨outs, ho⟩ := collect_isOk.mpr ⟨hw.outputs_unique, hempty _ outputs⟩
  obtain ⟨indexedStates, hst⟩ := collect_isOk.mpr ⟨hw.states_unique, hempty _ states⟩
  obtain ⟨indexedSteps, hsp⟩ := collect_isOk.mpr ⟨hw.steps_unique, hempty _ steps⟩
  obtain ⟨indexedGuards, hg⟩ := collect_isOk.mpr ⟨hw.guards_unique, hempty _ guards⟩
  obtain ⟨indexedRoles, hr⟩ := collect_isOk.mpr ⟨hw.roles_unique, hempty _ roles⟩
  have hp : Indexes ⟨indexedStates, transitions, indexedSteps, indexedGuards, indexedRoles⟩
      states transitions steps guards roles := ⟨hst, rfl, hsp, hg, hr⟩
  have hclean := (clean_iff_wellFormed hp hw.inputs_unique hw.outputs_unique).mpr hw
  exact new_of_clean hi ho hp (validate_eq_ok.mpr hclean)

end Construction

section Lookups

variable (d : CeremonyDefinition)

/-- The initial state, unless looking for it panics. -/
def initialStateId? : Option StateId :=
  (d.states.values.find? CeremonyState.isInitial).map CeremonyState.id

/-- The steps in the order they were declared, unless looking one up panics. -/
def stepsInDeclarationOrder? : Option (List CeremonyStep) := d.stepOrder.mapM d.step

theorem initialStateId?_eq : initialStateId? d = some d.initialStateId := by
  obtain ⟨state, hs⟩ := d.exists_initial
  simp [initialStateId?, CeremonyDefinition.initialStateId, hs]

theorem mapM_some {α β : Type} {f : α → Option β} {key : β → α} {l : List β}
    (h : ∀ b ∈ l, f (key b) = some b) : (l.map key).mapM f = some l := by
  induction l with
  | nil => rfl
  | cons b rest ih =>
    rw [List.forall_mem_cons] at h
    rw [List.map_cons, List.mapM_cons, h.1, ih h.2]
    rfl

end Lookups

/-- A definition is made of exactly what is well formed, and what it was made of can be
looked up in it. -/
theorem new_accepts_wellFormed (name : CeremonyName) (version : CeremonyVersion)
    (description : Option CeremonyDescription) (inputs : List CeremonyInputDefinition)
    (outputs : List CeremonyOutputDefinition) (states : List CeremonyState)
    (transitions : List CeremonyTransition) (steps : List CeremonyStep)
    (guards : List CeremonyGuard) (roles : List CeremonyRole) :
    ((∃ d, CeremonyDefinition.new name version description inputs outputs states transitions steps
        guards roles = .ok d) ↔
      WellFormed inputs outputs states transitions steps guards roles) ∧
    ∀ d, CeremonyDefinition.new name version description inputs outputs states transitions steps
        guards roles = .ok d →
      initialStateId? d = some d.initialStateId ∧ stepsInDeclarationOrder? d = some steps := by
  refine ⟨⟨?_, ?_⟩, ?_⟩
  · rintro ⟨d, h⟩
    obtain ⟨hi, ho, hp, _⟩ := new_ok h
    have hin := (collect_isOk.mp ⟨_, hi⟩).1
    have hout := (collect_isOk.mp ⟨_, ho⟩).1
    exact (clean_iff_wellFormed hp hin hout).mp d.findings_clean
  · exact new_of_wellFormed name version description
  · intro d h
    obtain ⟨_, _, hp, horder⟩ := new_ok h
    refine ⟨initialStateId?_eq d, ?_⟩
    rw [stepsInDeclarationOrder?, horder]
    exact mapM_some fun step hs => (get?_collected hp.steps).mpr ⟨hs, rfl⟩

section Asking

def asked : StateId := ⟨"asked", by decide⟩
def answered : StateId := ⟨"answered", by decide⟩
def answer : TransitionTrigger := ⟨"answer", by decide⟩
def thought : StepId := ⟨"think", by decide⟩
def thoughtful : GuardName := ⟨"thoughtful", by decide⟩

theorem new_accepts_wellFormed_asking : WellFormed [] []
    [⟨asked, .initial⟩, ⟨answered, .terminal⟩]
    [⟨asked, answered, answer, OrdSet.ofList [thoughtful]⟩]
    [⟨thought, asked, ⟨"human", by decide⟩, Attributes.empty, RetryPolicy.singleAttempt, none⟩]
    [⟨thoughtful, .stepStatus thought .completed⟩] [] :=
  (new_accepts_wellFormed ⟨"asking", by decide⟩ versionOne none [] [] _ _ _ _ _).1.mp ⟨_, rfl⟩

end Asking

end Choreographer.Acceptance
