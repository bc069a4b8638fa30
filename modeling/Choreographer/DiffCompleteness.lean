import Choreographer.Diffs
import Choreographer.DefinitionDigests

namespace Choreographer.DiffCompleteness

open Choreographer.Lib.ByteStrings Choreographer.Lib.SortedMaps Choreographer.Lib.Updates
open Choreographer.Texts Choreographer.Values Choreographer.Steps Choreographer.DefinitionParts
open Choreographer.Definition Choreographer.DefinitionDigests Choreographer.Diffs

section Reflexivity

mutual
theorem valueEq_refl : ∀ value, valueEq value value = true
  | .null => rfl
  | .bool b => by simp [valueEq]
  | .number n => by cases n <;> simp [valueEq, numberEq, floatEq]
  | .string s => by simp [valueEq]
  | .array items => by simpa [valueEq] using itemsEq_refl items
  | .object entries => by simpa [valueEq] using entriesEq_refl entries
termination_by structural x => x

theorem itemsEq_refl : ∀ items, itemsEq items items = true
  | [] => rfl
  | item :: items => by simp [itemsEq, valueEq_refl item, itemsEq_refl items]
termination_by structural x => x

theorem entryEq_refl : ∀ entry, entryEq entry entry = true
  | (key, value) => by simp [entryEq, valueEq_refl value]
termination_by structural x => x

theorem entriesEq_refl : ∀ entries, entriesEq entries entries = true
  | [] => rfl
  | entry :: entries => by simp [entriesEq, entryEq_refl entry, entriesEq_refl entries]
termination_by structural x => x
end

end Reflexivity

section Maps

variable {κ ν α : Type} [LinearOrder κ] {m n : OrdMap κ ν}

theorem compared_nil {f : κ → ν → List α} {g : κ → α} :
    (m.entries.flatMap fun entry => f entry.1 entry.2) ++
        ((n.keys.filter fun k => !m.contains k).map g) = [] ↔
      (∀ k v, m.get? k = some v → f k v = []) ∧
        ∀ k, n.contains k = true → m.contains k = true := by
  simp only [List.append_eq_nil_iff, List.flatMap_eq_nil_iff, List.map_eq_nil_iff,
    List.filter_eq_nil_iff, OrdMap.mem_keys, Bool.not_eq_true', Bool.not_eq_false]
  constructor
  · rintro ⟨hf, hk⟩
    exact ⟨fun k v hv => hf (k, v) (OrdMap.mem_entries.mpr hv), hk⟩
  · rintro ⟨hf, hk⟩
    exact ⟨fun entry he => hf entry.1 entry.2 (OrdMap.mem_entries.mp he), hk⟩

theorem eq_of_included (h : ∀ k v, m.get? k = some v → n.get? k = some v)
    (hk : ∀ k, n.contains k = true → m.contains k = true) : m = n := by
  apply OrdMap.ext_get?
  intro k
  cases hm : m.get? k with
  | some v => exact (h k v hm).symm
  | none =>
    cases hn : n.get? k with
    | none => rfl
    | some v =>
      obtain ⟨w, hw⟩ := OrdMap.contains_iff.mp (hk k (OrdMap.contains_iff.mpr ⟨v, hn⟩))
      rw [hm] at hw
      simp at hw

/-- Where nothing is found against one entry exactly if the other map has the same, the
maps are the same. -/
theorem compared_nil_iff_eq {f : κ → ν → List α} {g : κ → α}
    (hf : ∀ k v, m.get? k = some v → (f k v = [] ↔ n.get? k = some v)) :
    (m.entries.flatMap fun entry => f entry.1 entry.2) ++
        ((n.keys.filter fun k => !m.contains k).map g) = [] ↔ m = n := by
  rw [compared_nil]
  constructor
  · rintro ⟨hall, hk⟩
    exact eq_of_included (fun k v hv => (hf k v hv).mp (hall k v hv)) hk
  · rintro rfl
    exact ⟨fun k v hv => (hf k v hv).mpr hv, fun _ h => h⟩

end Maps

/-- The same work under the same terms, as far as its configuration can be told apart. -/
structure SameStep (old now : CeremonyStep) : Prop where
  state : now.stateId = old.stateId
  handler : now.handlerKind = old.handlerKind
  config : attributesEq now.handlerConfig old.handlerConfig = true
  retry : now.retryPolicy = old.retryPolicy
  timeout : now.timeout = old.timeout

/-- The same declarations in whatever order. -/
structure SameDeclarations (before after : CeremonyDefinition) : Prop where
  description : before.description = after.description
  inputs : before.inputs = after.inputs
  outputs : before.outputs = after.outputs
  states : before.states = after.states
  transitions : before.transitions.Perm after.transitions
  steps : ∀ id, Option.Rel SameStep (before.steps.get? id) (after.steps.get? id)
  guards : before.guards = after.guards
  roles : before.roles = after.roles

section Parts

variable {before after : CeremonyDefinition}

theorem diffStates_nil : diffStates before after = [] ↔ before.states = after.states := by
  refine compared_nil_iff_eq fun id state hs => ?_
  unfold diffState
  cases hn : after.states.get? id with
  | none => simp
  | some now =>
    have hid : now.id = state.id :=
      (after.statesKeyed id now hn).trans (before.statesKeyed id state hs).symm
    obtain ⟨nowId, nowKind⟩ := now
    obtain ⟨stateId, stateKind⟩ := state
    obtain rfl : nowId = stateId := hid
    by_cases hk : nowKind = stateKind <;> simp [hk]

theorem diffGuards_nil : diffGuards before after = [] ↔ before.guards = after.guards := by
  refine compared_nil_iff_eq fun name guard hg => ?_
  unfold diffGuard
  cases hn : after.guards.get? name with
  | none => simp
  | some now =>
    have hname : now.name = guard.name :=
      (after.guardsKeyed name now hn).trans (before.guardsKeyed name guard hg).symm
    obtain ⟨nowName, nowCondition⟩ := now
    obtain ⟨oldName, oldCondition⟩ := guard
    obtain rfl : nowName = oldName := hname
    by_cases hc : nowCondition = oldCondition <;> simp [hc]

theorem diffRoles_nil : diffRoles before after = [] ↔ before.roles = after.roles := by
  refine compared_nil_iff_eq fun id role hr => ?_
  unfold diffRole
  cases hn : after.roles.get? id with
  | none => simp
  | some now =>
    have hid : now.id = role.id :=
      (after.rolesKeyed id now hn).trans (before.rolesKeyed id role hr).symm
    obtain ⟨nowId, nowActions, _⟩ := now
    obtain ⟨roleId, roleActions, _⟩ := role
    obtain rfl : nowId = roleId := hid
    by_cases ha : nowActions = roleActions <;> simp [ha]

theorem diffSteps_nil : diffSteps before after = [] ↔
    ∀ id, Option.Rel SameStep (before.steps.get? id) (after.steps.get? id) := by
  have hstep (id : StepId) (old : CeremonyStep) : diffStep after id old = [] ↔
      ∃ now, after.steps.get? id = some now ∧ SameStep old now := by
    unfold diffStep
    cases after.steps.get? id with
    | none => simp
    | some now =>
      simp only [List.append_eq_nil_iff, ite_eq_right_iff, reduceCtorEq, imp_false, not_not,
        Bool.not_eq_true', Bool.not_eq_false, not_or, Option.some.injEq, exists_eq_left']
      constructor
      · rintro ⟨⟨⟨hs, hk⟩, hc⟩, hr, ht⟩
        exact ⟨hs, hk, hc, hr, ht⟩
      · rintro ⟨hs, hk, hc, hr, ht⟩
        exact ⟨⟨⟨hs, hk⟩, hc⟩, hr, ht⟩
  rw [diffSteps, compared_nil]
  simp only [hstep]
  constructor
  · rintro ⟨hall, hk⟩ id
    cases hb : before.steps.get? id with
    | some old =>
      obtain ⟨now, hn, hsame⟩ := hall id old hb
      rw [hn]
      exact .some hsame
    | none =>
      cases ha : after.steps.get? id with
      | none => exact .none
      | some now =>
        obtain ⟨old, hold⟩ := OrdMap.contains_iff.mp (hk id (OrdMap.contains_iff.mpr ⟨now, ha⟩))
        rw [hb] at hold
        simp at hold
  · intro hall
    refine ⟨fun id old hold => ?_, fun id hc => ?_⟩
    · have h := hall id
      rw [hold] at h
      cases ha : after.steps.get? id with
      | none => rw [ha] at h; cases h
      | some now =>
        rw [ha] at h
        cases h with
        | some hsame => exact ⟨now, rfl, hsame⟩
    · obtain ⟨now, hn⟩ := OrdMap.contains_iff.mp hc
      have h := hall id
      rw [hn] at h
      cases hb : before.steps.get? id with
      | none => rw [hb] at h; cases h
      | some old => exact OrdMap.contains_iff.mpr ⟨old, hb⟩

theorem nodup_transitions : before.transitions.Nodup := by
  apply before.transitions_sound.2.imp
  rintro t _ hne rfl
  exact hne rfl

theorem diffTransition_nil {old : CeremonyTransition} :
    diffTransition after old = [] ↔ old ∈ after.transitions := by
  unfold diffTransition
  constructor
  · intro h
    dsimp only at h
    split at h
    · simp at h
    · next now hfind =>
      obtain ⟨hmem, hfrom, htrigger⟩ := counterpart_of_find hfind
      split_ifs at h with hto hguards
      obtain ⟨nowFrom, nowTo, nowTrigger, nowGuards⟩ := now
      obtain rfl := hfrom
      obtain rfl := htrigger
      obtain rfl := not_not.mp hto
      obtain rfl := not_not.mp hguards
      exact hmem
  · intro hmem
    dsimp only
    split
    · next hnone =>
      have hself := List.find?_eq_none.mp hnone old hmem
      simp at hself
    · next now hfind =>
      obtain ⟨hnow, hfrom, htrigger⟩ := counterpart_of_find hfind
      rw [CeremonyDefinition.transition_unique hnow hmem hfrom htrigger]
      simp

theorem diffTransitions_nil :
    diffTransitions before after = [] ↔ before.transitions.Perm after.transitions := by
  rw [List.perm_ext_iff_of_nodup nodup_transitions nodup_transitions]
  simp only [diffTransitions, List.append_eq_nil_iff, List.flatMap_eq_nil_iff, List.map_eq_nil_iff,
    List.filter_eq_nil_iff, diffTransition_nil, Bool.not_eq_true', Bool.not_eq_false,
    List.any_eq_true, decide_eq_true_eq, transitionKey_eq]
  constructor
  · rintro ⟨hkept, hadded⟩ t
    refine ⟨hkept t, fun ht => ?_⟩
    obtain ⟨old, hold, hfrom, htrigger⟩ := hadded t ht
    rwa [← CeremonyDefinition.transition_unique (hkept old hold) ht hfrom htrigger]
  · intro h
    exact ⟨fun t => (h t).mp, fun t ht => ⟨t, (h t).mpr ht, rfl, rfl⟩⟩

theorem diffInput_nil {name : InputName} {now : CeremonyInputDefinition}
    (hn : after.inputs.get? name = some now) :
    diffInput before name now = [] ↔ before.inputs.get? name = some now := by
  unfold diffInput
  cases hb : before.inputs.get? name with
  | none => simp
  | some was =>
    have hname : was.name = now.name :=
      (before.inputsKeyed name was hb).trans (after.inputsKeyed name now hn).symm
    obtain ⟨wasName, wasRequirement⟩ := was
    obtain ⟨nowName, nowRequirement⟩ := now
    obtain rfl : wasName = nowName := hname
    cases wasRequirement <;> cases nowRequirement <;> simp [isRequired]

theorem outputs_eq_iff : before.outputs = after.outputs ↔
    ∀ name, before.outputs.contains name = after.outputs.contains name := by
  refine ⟨fun h name => by rw [h], fun h => OrdMap.ext_get? fun name => ?_⟩
  have hname := h name
  simp only [OrdMap.contains] at hname
  cases hb : before.outputs.get? name with
  | none =>
    rw [hb] at hname
    exact (Option.not_isSome_iff_eq_none.mp (by simpa using hname.symm)).symm
  | some was =>
    rw [hb] at hname
    obtain ⟨now, hn⟩ := Option.isSome_iff_exists.mp hname.symm
    have hsame : was.name = now.name :=
      (before.outputsKeyed name was hb).trans (after.outputsKeyed name now hn).symm
    obtain ⟨wasName⟩ := was
    obtain ⟨nowName⟩ := now
    obtain rfl : wasName = nowName := hsame
    exact hn.symm

theorem diffShape_nil : diffShape before after = [] ↔
    before.inputs = after.inputs ∧ before.outputs = after.outputs ∧
      before.description = after.description := by
  have hinputs : ((∀ name, before.inputs.contains name = true →
        after.inputs.contains name = true) ∧
      ∀ entry ∈ after.inputs.entries, diffInput before entry.1 entry.2 = []) ↔
        before.inputs = after.inputs := by
    constructor
    · rintro ⟨hk, hall⟩
      refine (eq_of_included (fun name now hn => ?_) hk).symm
      exact (diffInput_nil hn).mp (hall (name, now) (OrdMap.mem_entries.mpr hn))
    · intro h
      refine ⟨fun name hc => h ▸ hc, fun entry he => ?_⟩
      have hn := OrdMap.mem_entries.mp he
      rw [diffInput_nil hn, h, hn]
  have houtputs : ((∀ name, before.outputs.contains name = true →
        after.outputs.contains name = true) ∧
      ∀ name, after.outputs.contains name = true → before.outputs.contains name = true) ↔
        before.outputs = after.outputs := by
    rw [outputs_eq_iff, ← forall_and]
    refine forall_congr' fun name => ?_
    cases before.outputs.contains name <;> simp
  rw [← hinputs, ← houtputs]
  simp only [diffShape, List.append_eq_nil_iff, List.flatMap_eq_nil_iff, List.map_eq_nil_iff,
    List.filter_eq_nil_iff, OrdMap.mem_keys, Bool.not_eq_true', Bool.not_eq_false,
    ite_eq_right_iff, reduceCtorEq, imp_false, not_not]
  tauto

theorem isIdentical_iff :
    (CeremonyDefinitionDiff.between before after).isIdentical = true ↔
      SameDeclarations before after := by
  simp only [CeremonyDefinitionDiff.isIdentical, CeremonyDefinitionDiff.between,
    List.isEmpty_iff, List.append_eq_nil_iff, diffStates_nil, diffTransitions_nil, diffSteps_nil,
    diffGuards_nil, diffRoles_nil, diffShape_nil]
  constructor
  · rintro ⟨⟨⟨⟨⟨hstates, htransitions⟩, hsteps⟩, hguards⟩, hroles⟩, hinputs, houtputs, hdesc⟩
    exact ⟨hdesc, hinputs, houtputs, hstates, htransitions, hsteps, hguards, hroles⟩
  · rintro ⟨hdesc, hinputs, houtputs, hstates, htransitions, hsteps, hguards, hroles⟩
    exact ⟨⟨⟨⟨⟨hstates, htransitions⟩, hsteps⟩, hguards⟩, hroles⟩, hinputs, houtputs, hdesc⟩

end Parts

/-- The same declarations listed in another order, or with zeros of another sign. -/
def OnlyRearranged (before after : CeremonyDefinition) : Prop :=
  SameDeclarations before after ∧
    (before.transitions ≠ after.transitions ∨ before.stepOrder ≠ after.stepOrder ∨
      before.steps ≠ after.steps)

theorem SameDeclarations.refl (definition : CeremonyDefinition) :
    SameDeclarations definition definition where
  description := rfl
  inputs := rfl
  outputs := rfl
  states := rfl
  transitions := .refl _
  steps id := by
    cases definition.steps.get? id with
    | none => exact .none
    | some step => exact .some ⟨rfl, rfl, entriesEq_refl _, rfl, rfl⟩
  guards := rfl
  roles := rfl

theorem SameDeclarations.eq {before after : CeremonyDefinition}
    (h : SameDeclarations before after) (hname : before.name = after.name)
    (hversion : before.version = after.version) (hrest : ¬ OnlyRearranged before after) :
    before = after := by
  have harranged : before.transitions = after.transitions ∧ before.stepOrder = after.stepOrder ∧
      before.steps = after.steps := by
    by_contra hne
    exact hrest ⟨h, by tauto⟩
  obtain ⟨htransitions, horder, hsteps⟩ := harranged
  obtain ⟨name, version, description, inputs, outputs, ⟨states, transitions, steps, guards, roles⟩,
    stepOrder⟩ := before
  obtain ⟨hdescription, hinputs, houtputs, hstates, -, -, hguards, hroles⟩ := h
  simp only [CeremonyDefinition.states, CeremonyDefinition.guards, CeremonyDefinition.roles,
    CeremonyDefinition.transitions, CeremonyDefinition.steps] at *
  subst hname hversion hdescription hinputs houtputs hstates htransitions hsteps horder hguards hroles
  rfl

/-- A diff says nothing exactly where the digests agree, unless all that differs is the
order of declarations or the sign of a zero. -/
theorem identical_iff_same_digest (env : Sealer) (before after : CeremonyDefinition)
    (hname : before.name = after.name) (hversion : before.version = after.version)
    (hseparates : Separates env before after) :
    (((CeremonyDefinitionDiff.between before after).isIdentical = true ↔
        digest env before = digest env after) ↔ ¬ OnlyRearranged before after) ∧
      (digest env before = digest env after ↔ before = after) := by
  refine ⟨?_, hseparates.digest_eq_iff⟩
  rw [hseparates.digest_eq_iff, isIdentical_iff]
  constructor
  · rintro h ⟨hsame, hrest⟩
    obtain rfl := h.mp hsame
    simp at hrest
  · intro hrest
    refine ⟨fun hsame => hsame.eq hname hversion hrest, ?_⟩
    rintro rfl
    exact SameDeclarations.refl before

section Boarding

theorem table_separates : Separates table busFirst busOnly :=
  separates_of_ne rfl rfl (by decide +kernel)

theorem identical_iff_same_digest_boarding :
    ((CeremonyDefinitionDiff.between busFirst busOnly).isIdentical = true ↔
        digest table busFirst = digest table busOnly) ∧ busFirst ≠ busOnly := by
  have hne : busFirst.transitions ≠ busOnly.transitions := by
    intro h
    exact absurd (congrArg List.length h) (by decide)
  have hrest : ¬ OnlyRearranged busFirst busOnly := by
    rintro ⟨hsame, -⟩
    exact absurd hsame.transitions.length_eq (by decide)
  obtain ⟨hiff, -⟩ := identical_iff_same_digest table busFirst busOnly rfl rfl table_separates
  exact ⟨hiff.mpr hrest, fun h => hne (by rw [h])⟩

/-- Nothing is reported, and yet another way is offered first. -/
theorem reordered_ways_unseen :
    busFirst.name = bridgeFirst.name ∧ busFirst.version = bridgeFirst.version ∧
    Separates table busFirst bridgeFirst ∧
    (CeremonyDefinitionDiff.between busFirst bridgeFirst).isIdentical = true ∧
    digest table busFirst ≠ digest table bridgeFirst ∧ busFirst ≠ bridgeFirst := by
  have hsep : Separates table busFirst bridgeFirst := separates_of_ne rfl rfl (by decide +kernel)
  have hne : busFirst ≠ bridgeFirst := by
    intro h
    have hfirst : busFirst.transitions.map CeremonyTransition.trigger =
        bridgeFirst.transitions.map CeremonyTransition.trigger := by rw [h]
    exact absurd hfirst (by decide)
  exact ⟨rfl, rfl, hsep, by decide, fun h => hne (hsep.digest_eq_iff.mp h), hne⟩

end Boarding

end Choreographer.DiffCompleteness
