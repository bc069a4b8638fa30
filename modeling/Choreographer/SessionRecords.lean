import Choreographer.AgendaIntegrity
import Choreographer.Lifecycle

namespace Choreographer.SessionRecords

open Choreographer.Lib.SortedMaps Choreographer.Lib.Updates
open Choreographer.Texts Choreographer.Values Choreographer.Steps Choreographer.DefinitionParts
open Choreographer.Definition Choreographer.Agenda Choreographer.Instance Choreographer.Operations
open Choreographer.AgendaIntegrity Choreographer.Lifecycle

variable {d : CeremonyDefinition} {i i' : CeremonyInstance} {op : Operation}

/-- The same item later on: only answers have been added. -/
structure Follows (item item' : CeremonyIntervention) : Prop where
  id : item'.id = item.id
  kind : item'.kind = item.kind
  requestedBy : item'.requestedBy = item.requestedBy
  responses : item.responses <+: item'.responses

theorem Follows.refl (item : CeremonyIntervention) : Follows item item :=
  ⟨rfl, rfl, rfl, List.prefix_rfl⟩

/-- The step was started at least once. -/
def Ran (i : CeremonyInstance) (stepId : StepId) : Prop :=
  ∃ record, i.stepRecords.get? stepId = some record ∧ record.status ≠ .pending

/-- A session later on: what it has on record stays, in its place. -/
structure Onward (i i' : CeremonyInstance) : Prop where
  approvals : i.guardApprovals <+: i'.guardApprovals
  deferrals : i.guardDeferrals <+: i'.guardDeferrals
  transitions : i.transitions <+: i'.transitions
  reasons : i.reasons <+: i'.reasons
  steps : ∀ stepId, i'.stepRecords.contains stepId = i.stepRecords.contains stepId
  ran : ∀ stepId, Ran i stepId → Ran i' stepId
  items : ∀ item ∈ i.interventions, ∃ item' ∈ i'.interventions, Follows item item'

theorem follows_replaced {before after : List CeremonyIntervention}
    {item item' : CeremonyIntervention} (hitem : i.interventions = before ++ item :: after)
    (h : Follows item item') :
    ∀ x ∈ i.interventions, ∃ x' ∈ before ++ item' :: after, Follows x x' := by
  intro x hx
  rw [hitem] at hx
  simp only [List.mem_append, List.mem_cons] at hx
  rcases hx with hx | rfl | hx
  · exact ⟨x, by simp [hx], .refl x⟩
  · exact ⟨item', by simp, h⟩
  · exact ⟨x, by simp [hx], .refl x⟩

theorem follows_step {items : List CeremonyIntervention} (h : AgendaStep d i op items) :
    ∀ item ∈ i.interventions, ∃ item' ∈ items, Follows item item' := by
  cases h with
  | unchanged => exact fun item hitem => ⟨item, hitem, .refl item⟩
  | requested => exact fun item hitem => ⟨item, List.mem_append_left _ hitem, .refl item⟩
  | answered hitem => exact follows_replaced hitem ⟨rfl, rfl, rfl, List.prefix_append _ _⟩
  | closed hitem => exact follows_replaced hitem ⟨rfl, rfl, rfl, List.prefix_rfl⟩

theorem ran_progress {stepId : StepId} {record record' : StepExecutionRecord}
    (h : Progress d stepId record record') (hran : record.status ≠ .pending) :
    record'.status ≠ .pending := by
  cases h with
  | kept => exact hran
  | started => simp [StepExecutionRecord.withStarted]
  | @ended result => exact result.observable.1

theorem ran_effect (h : Effect d i op i') {stepId : StepId} (hran : Ran i stepId) :
    Ran i' stepId := by
  obtain ⟨record, hrecord, hstatus⟩ := hran
  obtain ⟨record', hrecord', hprogress⟩ := effect_progress h hrecord
  exact ⟨record', hrecord', ran_progress hprogress hstatus⟩

theorem effect_onward (h : Effect d i op i') : Onward i i' where
  approvals := by
    cases h with
    | approveGuard => exact List.prefix_append _ _
    | _ => exact List.prefix_rfl
  deferrals := by
    cases h with
    | deferGuard => exact List.prefix_append _ _
    | _ => exact List.prefix_rfl
  transitions := by
    cases h with
    | applyTransition => exact List.prefix_append _ _
    | _ => exact List.prefix_rfl
  reasons := by
    cases h with
    | assertReason | respond | respondWithEvidence => exact List.prefix_append _ _
    | _ => exact List.prefix_rfl
  steps := records_contains h
  ran _ := ran_effect h
  items := follows_step (agendaStep_of_effect h)

theorem Follows.trans {item item' item'' : CeremonyIntervention} (h : Follows item item')
    (h' : Follows item' item'') : Follows item item'' where
  id := h'.id.trans h.id
  kind := h'.kind.trans h.kind
  requestedBy := h'.requestedBy.trans h.requestedBy
  responses := h.responses.trans h'.responses

theorem Onward.refl (i : CeremonyInstance) : Onward i i where
  approvals := List.prefix_rfl
  deferrals := List.prefix_rfl
  transitions := List.prefix_rfl
  reasons := List.prefix_rfl
  steps _ := rfl
  ran _ h := h
  items item hitem := ⟨item, hitem, .refl item⟩

theorem Onward.trans {i'' : CeremonyInstance} (h : Onward i i') (h' : Onward i' i'') :
    Onward i i'' where
  approvals := h.approvals.trans h'.approvals
  deferrals := h.deferrals.trans h'.deferrals
  transitions := h.transitions.trans h'.transitions
  reasons := h.reasons.trans h'.reasons
  steps stepId := (h'.steps stepId).trans (h.steps stepId)
  ran stepId hran := h'.ran stepId (h.ran stepId hran)
  items item hitem := by
    obtain ⟨item', hitem', hf⟩ := h.items item hitem
    obtain ⟨item'', hitem'', hf'⟩ := h'.items item' hitem'
    exact ⟨item'', hitem'', hf.trans hf'⟩

theorem onward_run (ops : List Operation) (i : CeremonyInstance) : Onward i (runAll d ops i) :=
  runAll_keeps (P := Onward i) (fun _ _ _ hi heffect => hi.trans (effect_onward heffect)) ops
    (.refl i)

/-- No two items of the agenda go by the same id. -/
def Distinct (i : CeremonyInstance) : Prop :=
  (i.interventions.map CeremonyIntervention.id).Nodup

theorem distinct_effect (h : Effect d i op i') (hi : Distinct i) : Distinct i' :=
  distinct_step (agendaStep_of_effect h) hi

theorem intervention_eq_some (hi : Distinct i) {agendaItem : CeremonyInterventionId}
    {item : CeremonyIntervention} :
    i.intervention agendaItem = some item ↔ item ∈ i.interventions ∧ item.id = agendaItem := by
  constructor
  · intro h
    exact ⟨List.mem_of_find?_eq_some h, by simpa using List.find?_some h⟩
  · rintro ⟨hmem, rfl⟩
    cases h : i.intervention item.id with
    | none =>
      have hnone := List.find?_eq_none.mp h item hmem
      simp at hnone
    | some other =>
      have hother := List.mem_of_find?_eq_some h
      have hid : other.id = item.id := by simpa using List.find?_some h
      rw [List.inj_on_of_nodup_map hi hother hmem hid]

theorem intervention_onward (h : Onward i i') (hi' : Distinct i')
    {agendaItem : CeremonyInterventionId} {item : CeremonyIntervention}
    (hitem : i.intervention agendaItem = some item) :
    ∃ item', i'.intervention agendaItem = some item' ∧ Follows item item' := by
  have hmem := List.mem_of_find?_eq_some hitem
  have hid : item.id = agendaItem := by simpa using List.find?_some hitem
  obtain ⟨item', hmem', hf⟩ := h.items item hmem
  exact ⟨item', (intervention_eq_some hi').mpr ⟨hmem', hf.id.trans hid⟩, hf⟩

/-- The session has this on record. -/
def OnRecord (i : CeremonyInstance) (record : CeremonyRecordRef) : Prop :=
  i.requireRecord record = .ok ()

theorem onRecord_onward (h : Onward i i') (hi' : Distinct i') {record : CeremonyRecordRef}
    (hr : OnRecord i record) : OnRecord i' record := by
  unfold OnRecord CeremonyInstance.requireRecord at hr ⊢
  rw [require_eq_ok] at hr ⊢
  cases record with
  | step stepId =>
    dsimp only at hr ⊢
    rw [h.steps]
    exact hr
  | agendaItem agendaItem =>
    obtain ⟨item, hitem⟩ := Option.isSome_iff_exists.mp hr
    obtain ⟨item', hitem', -⟩ := intervention_onward h hi' hitem
    simp [hitem']
  | contribution agendaItem ordinal =>
    simp only [Option.any_eq_true, decide_eq_true_eq] at hr ⊢
    obtain ⟨item, hitem, hlt⟩ := hr
    obtain ⟨item', hitem', hf⟩ := intervention_onward h hi' hitem
    exact ⟨item', hitem', hlt.trans_le hf.responses.length_le⟩
  | guardDecision guardName =>
    simp only [Bool.or_eq_true, List.any_eq_true] at hr ⊢
    rcases hr with ⟨approval, hmem, hg⟩ | ⟨deferral, hmem, hg⟩
    · exact .inl ⟨approval, h.approvals.subset hmem, hg⟩
    · exact .inr ⟨deferral, h.deferrals.subset hmem, hg⟩
  | transition ordinal =>
    simp only [Bool.and_eq_true, decide_eq_true_eq] at hr ⊢
    exact ⟨hr.1, hr.2.trans h.transitions.length_le⟩

end Choreographer.SessionRecords
