import Choreographer.Chains
import Choreographer.DesignedCeremonies

namespace Choreographer.DesignedRuns

open Choreographer.Lib.SortedMaps Choreographer.Lib.Updates
open Choreographer.Texts Choreographer.Values Choreographer.Steps Choreographer.DefinitionParts
open Choreographer.Definition Choreographer.Acceptance Choreographer.Drafts Choreographer.Instance
open Choreographer.Designs Choreographer.DesignedDrafts Choreographer.DesignedCeremonies
open Choreographer.Chains

section Publication

variable {request : EmbeddedDesignCeremonyRequest} {document : CeremonyDocument}
  {draft : CeremonyDefinitionDraft} {d : CeremonyDefinition} {k : Nat} {stage : StageIntent}
  {step : CeremonyStep}

theorem asStr_injective {rule : TextRule} : Function.Injective (Text.asStr : Text rule → String) :=
  fun _ _ => Text.ext

theorem getElem?_of_named {rule : TextRule} {l : List (Text rule)} {t : Text rule}
    (h : (l.map Text.asStr)[k]? = some t.asStr) : l[k]? = some t := by
  rw [List.getElem?_map] at h
  obtain ⟨u, hu, hname⟩ := Option.map_eq_some_iff.mp h
  rw [hu, Text.ext hname]

variable (h : Accepted request) (hw : Written request document) (hr : ReadOff document draft)
  (hd : draft.publish = .ok d)

include hd

theorem transitions_published : d.transitions = draft.transitions := (new_ok hd).2.2.1.transitions

theorem step_published (hstep : step ∈ draft.steps) : d.step step.id = some step :=
  (get?_collected (new_ok hd).2.2.1.steps).mpr ⟨hstep, rfl⟩

theorem steps_published : d.stepsInDeclarationOrder = draft.steps := by
  rw [CeremonyDefinition.stepsInDeclarationOrder, (new_ok hd).2.2.2, List.filterMap_map]
  calc
    draft.steps.filterMap (d.step ∘ CeremonyStep.id) = draft.steps.filterMap some :=
      List.filterMap_congr fun step hstep => step_published hd hstep
    _ = draft.steps := List.filterMap_some

theorem role_published {role : CeremonyRole} (hrole : role ∈ draft.roles) :
    role ∈ d.roles.values ∧ ∀ action, d.roleAllows role.id action = role.allows action := by
  have hget : d.roles.get? role.id = some role :=
    (get?_collected (new_ok hd).2.2.1.roles).mpr ⟨hrole, rfl⟩
  refine ⟨OrdMap.mem_values.mpr ⟨_, hget⟩, fun action => ?_⟩
  rw [CeremonyDefinition.roleAllows, CeremonyDefinition.role, hget]
  rfl

include h hw hr

theorem contains_state {stateId : StateId} :
    d.states.contains stateId = true ↔ stateId.asStr ∈ places request := by
  refine (contains_collected (new_ok hd).2.2.1.states).trans ?_
  rw [← states_named h hw hr, ← List.mem_map_of_injective asStr_injective, List.map_map]
  rfl

theorem isTerminalState_iff {stateId : StateId} :
    d.isTerminalState stateId = true ↔ stateId.asStr = "COMPLETED" := by
  rw [CeremonyDefinition.isTerminalState, Option.any_eq_true]
  constructor
  · rintro ⟨state, hget, hterminal⟩
    obtain ⟨hstate, rfl⟩ := (get?_collected (new_ok hd).2.2.1.states).mp hget
    exact (terminal_iff h hw hr hstate).mp hterminal
  · intro hname
    have hmem : stateId ∈ draft.states.map CeremonyState.id :=
      stateId_mem h hw hr (by simp [places, hname])
    obtain ⟨state, hstate, rfl⟩ := List.mem_map.mp hmem
    exact ⟨state, (get?_collected (new_ok hd).2.2.1.states).mpr ⟨hstate, rfl⟩,
      (terminal_iff h hw hr hstate).mpr hname⟩

theorem initial_named : (places request)[0]? = some d.initialStateId.asStr := by
  obtain ⟨state, hget, hinitial⟩ := get?_initialStateId d
  obtain ⟨hstate, hid⟩ := (get?_collected (new_ok hd).2.2.1.states).mp hget
  rw [← hid]
  exact (initial_iff h hw hr hstate).mp hinitial

theorem completionGuard_published (hstage : stage ∈ request.stages)
    (hid : step.id.asStr = trim stage.id) {guardName : GuardName}
    (hname : guardName.asStr = completion (trim stage.id)) :
    ∃ guard, d.guards.get? guardName = some guard ∧
      guard.condition = .stepStatus step.id .completed := by
  obtain ⟨k, hk⟩ := List.mem_iff_getElem?.mp hstage
  obtain ⟨guard, hguard, hnamed⟩ := guard_named h hw hr hk
    (mem_stageGuards.mpr (Or.inl ⟨rfl, rfl⟩))
  have hsame : guard.name = guardName := Text.ext (hnamed.trans hname.symm)
  refine ⟨guard, (get?_collected (new_ok hd).2.2.1.guards).mpr ⟨hguard, hsame⟩, ?_⟩
  rcases guard_checks h hw hr hguard with ⟨other, hother, hcompletion, stepId, hstepId, hcondition⟩ |
    ⟨approval, happroval, happroved, -⟩
  · have hids : trim other.id = trim stage.id := completion_inj (hcompletion.symm.trans hnamed)
    rw [hcondition, Text.ext (hstepId.trans (hids.trans hid.symm))]
  · have hfree := (h.approval approval happroval).guardFree
    rw [← happroved, hnamed] at hfree
    exact absurd (List.mem_map_of_mem (List.mem_map_of_mem hstage)) hfree

omit hd in
theorem humanGuard_named {approval : FinalApprovalIntent}
    (happroval : request.finalApproval = some approval) :
    ∃ guard ∈ draft.guards, guard.name.asStr = trim approval.guardName := by
  have hlength := List.length_pos_iff.mpr h.someStage
  have hk := List.getElem?_eq_getElem (Nat.sub_one_lt_of_lt hlength)
  have hafter : request.approvalAfter (request.stages.length - 1) = some approval :=
    approvalAfter_eq_some.mpr ⟨Nat.sub_add_cancel hlength, happroval⟩
  exact guard_named h hw hr hk (mem_stageGuards.mpr (Or.inr ⟨approval, hafter, rfl, rfl⟩))

theorem humanGuard_published {approval : FinalApprovalIntent}
    (happroval : request.finalApproval = some approval) {guardName : GuardName}
    (hname : guardName.asStr = trim approval.guardName) :
    ∃ guard, d.guards.get? guardName = some guard ∧ guard.condition = .humanApproval := by
  obtain ⟨guard, hguard, hnamed⟩ := humanGuard_named h hw hr happroval
  have hsame : guard.name = guardName := Text.ext (hnamed.trans hname.symm)
  refine ⟨guard, (get?_collected (new_ok hd).2.2.1.guards).mpr ⟨hguard, hsame⟩, ?_⟩
  rcases guard_checks h hw hr hguard with ⟨other, hother, hcompletion, -⟩ | ⟨_, -, -, hcondition⟩
  · have hfree := (h.approval approval happroval).guardFree
    rw [← hnamed, hcompletion] at hfree
    exact absurd (List.mem_map_of_mem (List.mem_map_of_mem hother)) hfree
  · exact hcondition

omit hd in
theorem gate_exists : ∃ gate : Option GuardName, ∀ name : String,
    (∃ guardName ∈ gate, guardName.asStr = name) ↔
      ∃ approval ∈ request.finalApproval, name = trim approval.guardName := by
  cases happroval : request.finalApproval with
  | none => exact ⟨none, by simp⟩
  | some approval =>
    obtain ⟨guard, hguard, hnamed⟩ := humanGuard_named h hw hr happroval
    refine ⟨some guard.name, fun name => ?_⟩
    simp [hnamed, eq_comm]

theorem satisfied_iff {gate : Option GuardName} (hgate : ∀ name : String,
      (∃ guardName ∈ gate, guardName.asStr = name) ↔
        ∃ approval ∈ request.finalApproval, name = trim approval.guardName)
    (hstage : request.stages[k]? = some stage) (hid : step.id.asStr = trim stage.id)
    {t : CeremonyTransition} (ht : MovesOut request k stage t)
    (records : OrdMap StepId StepExecutionRecord) (context : CeremonyContext) :
    d.guardsAreSatisfied t records context = true ↔
      ((records.get? step.id).any fun record => record.status == .completed) = true ∧
      (k + 1 = request.stages.length →
        ∀ guardName ∈ gate, context.isGuardApproved guardName = true) := by
  have hmem := List.mem_of_getElem? hstage
  have hown {guardName : GuardName} (hname : guardName.asStr = completion (trim stage.id)) :
      ((d.guards.get? guardName).any fun guard => guard.isSatisfied records context) =
        (records.get? step.id).any fun record => record.status == .completed := by
    obtain ⟨guard, hget, hcondition⟩ := completionGuard_published h hw hr hd hmem hid hname
    rw [hget, Option.any_some, CeremonyGuard.isSatisfied, hcondition]
  have hhuman {approval : FinalApprovalIntent} (happroval : request.finalApproval = some approval)
      {guardName : GuardName} (hname : guardName.asStr = trim approval.guardName) :
      ((d.guards.get? guardName).any fun guard => guard.isSatisfied records context) =
        context.isGuardApproved guardName := by
    obtain ⟨guard, hget, hcondition⟩ := humanGuard_published h hw hr hd happroval hname
    rw [hget, Option.any_some, CeremonyGuard.isSatisfied, hcondition,
      d.guardsKeyed guardName guard hget]
  simp only [CeremonyDefinition.guardsAreSatisfied, List.all_eq_true, OrdMap.mem_keys, ht.guards,
    mem_transitionGuards]
  constructor
  · intro hall
    constructor
    · obtain ⟨guard, -, hname⟩ := guard_named h hw hr hstage
        (mem_stageGuards.mpr (Or.inl ⟨rfl, rfl⟩))
      rw [← hown hname]
      exact hall guard.name (Or.inl hname)
    · intro hlast guardName hguard
      obtain ⟨approval, happroval, hname⟩ := (hgate guardName.asStr).mp ⟨guardName, hguard, rfl⟩
      rw [← hhuman happroval hname]
      exact hall guardName (Or.inr ⟨approval, approvalAfter_eq_some.mpr ⟨hlast, happroval⟩, hname⟩)
  · rintro ⟨hdone, hgated⟩ guardName (hname | ⟨approval, hafter, hname⟩)
    · rw [hown hname]
      exact hdone
    · obtain ⟨hlast, happroval⟩ := approvalAfter_eq_some.mp hafter
      obtain ⟨gated, hgate', hsame⟩ := (hgate guardName.asStr).mpr ⟨approval, happroval, hname⟩
      rw [hhuman happroval hname, ← Text.ext hsame]
      exact hgated hlast gated hgate'

theorem chain_of_publish : ∃ (finish : StateId) (gate : Option GuardName),
    finish.asStr = "COMPLETED" ∧
    (∀ name : String, (∃ guardName ∈ gate, guardName.asStr = name) ↔
      ∃ approval ∈ request.finalApproval, name = trim approval.guardName) ∧
    Chain d draft.steps finish gate := by
  obtain ⟨gate, hgate⟩ := gate_exists h hw hr
  have hlast : "COMPLETED" ∈ draft.states.map fun state => state.id.asStr := by
    rw [states_named h hw hr]
    simp [places]
  obtain ⟨last, -, hname⟩ := List.mem_map.mp hlast
  have hfronts : (draft.steps.map CeremonyStep.stateId).map Text.asStr = request.stageStateIds := by
    rw [List.map_map]
    exact steps_placed h hw hr
  have hplaces : (draft.steps.map CeremonyStep.stateId ++ [last.id]).map Text.asStr =
      places request := by
    rw [List.map_append, hfronts, List.map_singleton, hname]
    rfl
  have hcount : draft.steps.length = request.stages.length := by
    simpa [stageIds] using congrArg List.length (steps_named hw hr)
  have hstages := List.length_pos_iff.mpr h.someStage
  refine ⟨last.id, gate, hname, hgate, ?_⟩
  constructor
  · omega
  · exact steps_published hd
  · exact fun step hstep => step_published hd hstep
  · apply List.Nodup.of_map Text.asStr
    rw [hplaces]
    exact places_nodup h
  · intro stateId
    rw [contains_state h hw hr hd, ← hplaces, List.mem_map_of_injective asStr_injective]
  · have hinitial := initial_named h hw hr hd
    rw [← hplaces] at hinitial
    have hstart := getElem?_of_named hinitial
    rwa [List.getElem?_append_left (by rw [List.length_map]; omega)] at hstart
  · intro stateId
    rw [isTerminalState_iff h hw hr hd, ← hname, Text.ext_iff]
  · apply List.map_injective_iff.mpr asStr_injective
    rw [transitions_published hd, List.map_map, hfronts]
    exact transitions_leave h hw hr
  · intro k t ht
    rw [transitions_published hd] at ht
    obtain ⟨stage, hstage, hmoves⟩ := stage_of_transition h hw hr ht
    apply getElem?_of_named
    rw [hplaces, hmoves.toState]
    exact getElem?_nextPlace hstage
  · intro k step t hstep ht
    rw [transitions_published hd] at ht
    obtain ⟨stage, hstage, hmoves⟩ := stage_of_transition h hw hr ht
    rw [hcount]
    obtain ⟨other, hother, hid⟩ := stage_of_step hw hr hstep
    obtain rfl := Option.some.inj (hstage.symm.trans hother)
    exact satisfied_iff h hw hr hd hgate hstage hid hmoves
  · intro step hstep
    obtain ⟨k, hk⟩ := List.mem_iff_getElem?.mp hstep
    obtain ⟨stage, hstage, hid⟩ := stage_of_step hw hr hk
    obtain ⟨role, hrole, -, hallows⟩ := owner_allowed hw hr h (List.mem_of_getElem? hstage)
    exact ⟨role, (role_published hd hrole).1, hallows step.id hid⟩
  · intro t ht
    rw [transitions_published hd] at ht
    obtain ⟨k, stage, hstage, hmoves⟩ := mem_transition h hw hr ht
    obtain ⟨role, hrole, -, hallows⟩ := mover_allowed hw hr h hstage
    exact ⟨role, (role_published hd hrole).1, hallows t.trigger hmoves.trigger⟩

end Publication

section Designed

/-- A transition waits for a guard, and this is what the guard is about. -/
def Requires (d : CeremonyDefinition) (t : CeremonyTransition) (guardName : GuardName)
    (condition : GuardCondition) : Prop :=
  t.requiredGuards.contains guardName = true ∧
    ∃ guard, d.guards.get? guardName = some guard ∧ guard.condition = condition

variable (request : EmbeddedDesignCeremonyRequest) (d : CeremonyDefinition)

/-- The states are those of the stages and a last one, and lead one to the next. -/
structure Linear : Prop where
  distinct : (places request).Nodup
  states : ∀ stateId, d.states.contains stateId = true ↔ stateId.asStr ∈ places request
  initial : (places request)[0]? = some d.initialStateId.asStr
  terminal : ∀ stateId, d.isTerminalState stateId = true ↔ stateId.asStr = "COMPLETED"
  steps : d.stepsInDeclarationOrder.map (fun step => (step.id.asStr, step.stateId.asStr)) =
    request.stages.map fun stage => (trim stage.id, stageStateId stage)
  moves : d.transitions.map (fun t => (t.fromState.asStr, t.toState.asStr)) =
    (places request).zip (places request).tail

/-- The move out of a stage waits for the stage to be completed, and the last one for the
approval too if there is to be one. -/
structure Gated (k : Nat) (stage : StageIntent) (t : CeremonyTransition) : Prop where
  own : ∃ (guardName : GuardName) (stepId : StepId),
    guardName.asStr = completion (trim stage.id) ∧ stepId.asStr = trim stage.id ∧
      Requires d t guardName (.stepStatus stepId .completed)
  human : ∀ guardName, Requires d t guardName .humanApproval ↔
    k + 1 = request.stages.length ∧
      ∃ approval ∈ request.finalApproval, guardName.asStr = trim approval.guardName
  others : ∀ guardName, t.requiredGuards.contains guardName = true →
    guardName.asStr = completion (trim stage.id) ∨ Requires d t guardName .humanApproval

/-- Everybody may do what the intent says they do, and nobody has nothing to do. -/
structure Staffed : Prop where
  roles : ∀ roleId, d.roles.contains roleId = true ↔ roleId.asStr ∈ participantIds request
  owners : ∀ stage ∈ request.stages, ∃ owner : RoleId, owner.asStr = trim stage.ownerRoleId ∧
    ∀ stepId : StepId, stepId.asStr = trim stage.id → d.roleAllows owner (.step stepId) = true
  movers : ∀ (k : Nat) (stage : StageIntent) (t : CeremonyTransition),
    request.stages[k]? = some stage → d.transitions[k]? = some t →
      ∃ mover : RoleId, mover.asStr = request.transitionOwner k stage ∧
        d.roleAllows mover (.transition t.trigger) = true
  busy : ∀ roleId role, d.roles.get? roleId = some role → ∃ action, role.allows action = true

/-- An approval is asked for and has not been given. -/
def Awaits (context : CeremonyContext) : Prop :=
  ∃ approval ∈ request.finalApproval, ∀ guardName : GuardName,
    guardName.asStr = trim approval.guardName → context.isGuardApproved guardName = false

/-- The ceremony is over. -/
def Completes (p : Performance) : Prop :=
  p.session.currentState.asStr = "COMPLETED" ∧ p.session.isCompleted d = true

/-- The session is in the state of the last stage, and its approval lets it end there and then. -/
structure Stops (crew : Crew) (p : Performance) : Prop where
  here : request.stageStateIds.getLast? = some p.session.currentState.asStr
  underway : p.session.isCompleted d = false
  approved : ∀ (approval : FinalApprovalIntent) (guardName : GuardName) (approvedBy : RoleId)
    (kind : AuditActorKind) (now : OffsetDateTime) (u : Unit) (session : CeremonyInstance),
    request.finalApproval = some approval → guardName.asStr = trim approval.guardName →
    Succeeds (CeremonyInstance.approveGuard d guardName approvedBy kind now) p.session u session →
    ∀ n, ∃ q, conduct crew d (n + 1) ⟨session, p.performed⟩ = .ok q ∧
      q.performed = p.performed ∧ Completes d q

/-- Every stage is run once and in order, and the ceremony ends, or stops for its approval. -/
def RunsThrough : Prop :=
  ∀ (crew : Crew) (id : CeremonyId) (context : CeremonyContext) (now : OffsetDateTime)
    (bound : Option CeremonyDefinitionDigest) (fuel : Nat), request.stages.length ≤ fuel →
    ∃ p, conduct crew d fuel ⟨CeremonyInstance.opened id d context now bound, []⟩ = .ok p ∧
      p.performed.map Text.asStr = stageIds request ∧
      (¬ Awaits request context → Completes d p) ∧
      (Awaits request context → Stops request d crew p)

end Designed

section Sound

variable {request : EmbeddedDesignCeremonyRequest} {document : CeremonyDocument}
  {draft : CeremonyDefinitionDraft} {d : CeremonyDefinition} {k : Nat} {stage : StageIntent}

variable (h : Accepted request) (hw : Written request document) (hr : ReadOff document draft)
  (hd : draft.publish = .ok d)

include h hw hr hd

theorem linear_of_publish : Linear request d := by
  constructor
  · exact places_nodup h
  · exact fun stateId => contains_state h hw hr hd
  · exact initial_named h hw hr hd
  · exact fun stateId => isTerminalState_iff h hw hr hd
  · rw [steps_published hd, ← List.zip_map', ← List.zip_map', steps_named hw hr,
      steps_placed h hw hr]
    rfl
  · rw [transitions_published hd]
    apply List.ext_getElem?
    intro k
    cases hstage : request.stages[k]? with
    | none =>
      have hlength := length_transitions hw hr
      rw [List.getElem?_eq_none_iff] at hstage
      rw [List.getElem?_eq_none (by rw [List.length_map]; omega), List.getElem?_eq_none]
      simpa [places, EmbeddedDesignCeremonyRequest.stageStateIds] using hstage
    | some stage =>
      obtain ⟨t, ht, hmoves⟩ := transition_of_stage h hw hr hstage
      rw [List.getElem?_map, ht, Option.map_some, hmoves.fromState, hmoves.toState]
      symm
      rw [List.getElem?_zip_eq_some, List.getElem?_tail]
      exact ⟨getElem?_places hstage, getElem?_nextPlace hstage⟩

theorem gated_of_publish {t : CeremonyTransition} (hstage : request.stages[k]? = some stage)
    (ht : d.transitions[k]? = some t) : Gated request d k stage t := by
  rw [transitions_published hd] at ht
  obtain ⟨other, hother, hmoves⟩ := stage_of_transition h hw hr ht
  obtain rfl := Option.some.inj (hstage.symm.trans hother)
  have hmem := List.mem_of_getElem? hstage
  obtain ⟨step, -, hid⟩ := exists_step hw hr hmem
  have hhuman {approval : FinalApprovalIntent} (hafter : request.approvalAfter k = some approval)
      {guardName : GuardName} (hname : guardName.asStr = trim approval.guardName) :
      Requires d t guardName .humanApproval := by
    refine ⟨(hmoves.guards guardName).mpr (mem_transitionGuards.mpr
      (Or.inr ⟨approval, hafter, hname⟩)), ?_⟩
    exact humanGuard_published h hw hr hd (approvalAfter_eq_some.mp hafter).2 hname
  constructor
  · obtain ⟨guard, -, hname⟩ := guard_named h hw hr hstage
      (mem_stageGuards.mpr (Or.inl ⟨rfl, rfl⟩))
    refine ⟨guard.name, step.id, hname, hid, ?_, ?_⟩
    · exact (hmoves.guards guard.name).mpr (mem_transitionGuards.mpr (Or.inl hname))
    · exact completionGuard_published h hw hr hd hmem hid hname
  · intro guardName
    constructor
    · rintro ⟨hrequired, guard, hget, hcondition⟩
      rcases mem_transitionGuards.mp ((hmoves.guards guardName).mp hrequired) with hname |
        ⟨approval, hafter, hname⟩
      · obtain ⟨other, hother, hstatus⟩ := completionGuard_published h hw hr hd hmem hid hname
        rw [Option.some.inj (hget.symm.trans hother), hstatus] at hcondition
        simp at hcondition
      · obtain ⟨hlast, happroval⟩ := approvalAfter_eq_some.mp hafter
        exact ⟨hlast, approval, happroval, hname⟩
    · rintro ⟨hlast, approval, happroval, hname⟩
      exact hhuman (approvalAfter_eq_some.mpr ⟨hlast, happroval⟩) hname
  · intro guardName hrequired
    rcases mem_transitionGuards.mp ((hmoves.guards guardName).mp hrequired) with hname |
      ⟨approval, hafter, hname⟩
    · exact Or.inl hname
    · exact Or.inr (hhuman hafter hname)

theorem staffed_of_publish : Staffed request d := by
  constructor
  · intro roleId
    refine (contains_collected (new_ok hd).2.2.1.roles).trans ?_
    rw [← roles_named hw hr, ← List.mem_map_of_injective asStr_injective, List.map_map]
    rfl
  · intro stage hstage
    obtain ⟨role, hrole, hid, hallows⟩ := owner_allowed hw hr h hstage
    refine ⟨role.id, hid, fun stepId hname => ?_⟩
    rw [(role_published hd hrole).2]
    exact hallows stepId hname
  · intro k stage t hstage ht
    rw [transitions_published hd] at ht
    obtain ⟨other, hother, hmoves⟩ := stage_of_transition h hw hr ht
    obtain rfl := Option.some.inj (hstage.symm.trans hother)
    obtain ⟨role, hrole, hid, hallows⟩ := mover_allowed hw hr h hstage
    refine ⟨role.id, hid, ?_⟩
    rw [(role_published hd hrole).2]
    exact hallows t.trigger hmoves.trigger
  · intro roleId role _
    obtain ⟨entry, hentry⟩ := List.exists_mem_of_ne_nil _ role.nonempty
    exact ⟨entry.1, OrdMap.contains_iff.mpr ⟨entry.2, OrdMap.mem_entries.mp hentry⟩⟩

theorem runsThrough_of_publish : RunsThrough request d := by
  obtain ⟨finish, gate, hfinish, hgate, hchain⟩ := chain_of_publish h hw hr hd
  have hnonempty := hchain.nonempty
  have hnames := steps_named hw hr
  have hcount : draft.steps.length = request.stages.length := by
    simpa [stageIds] using congrArg List.length hnames
  have hopen (context : CeremonyContext) :
      Open draft.steps gate context (draft.steps.length - 1) ↔ ¬ Awaits request context := by
    constructor
    · rintro hopen ⟨approval, happroval, hclosed⟩
      obtain ⟨guardName, hguard, hname⟩ := (hgate _).mpr ⟨approval, happroval, rfl⟩
      have happroved := hopen (by omega) guardName hguard
      rw [hclosed guardName hname] at happroved
      simp at happroved
    · intro hawaits _ guardName hguard
      obtain ⟨approval, happroval, hname⟩ := (hgate _).mp ⟨guardName, hguard, rfl⟩
      by_contra hclosed
      refine hawaits ⟨approval, happroval, fun other hother => ?_⟩
      rw [Text.ext (hother.trans hname.symm)]
      exact Bool.eq_false_of_not_eq_true hclosed
  intro crew id context now bound fuel hfuel
  have hopened : Stands crew d draft.steps context 0 0
      ⟨CeremonyInstance.opened id d context now bound, []⟩ := stands_opened hchain id now bound
  obtain ⟨p, hconduct, hends, hstops⟩ := conduct_chain hchain fuel hnonempty (by omega) hopened
  have hcompletes {q : Performance} (hq : Finished d draft.steps finish q) : Completes d q :=
    ⟨by rw [hq.here, hfinish], hq.completed⟩
  have hperformed : p.performed = draft.steps.map CeremonyStep.id := by
    by_cases ho : Open draft.steps gate context (draft.steps.length - 1)
    · exact (hends ho).performed
    · rw [(hstops ho).performed, List.take_length]
  refine ⟨p, hconduct, ?_, fun hawaits => ?_, fun hawaits => ?_⟩
  · rw [hperformed, List.map_map]
    exact hnames
  · exact hcompletes (hends ((hopen context).mpr hawaits))
  · have hstands := hstops fun ho => (hopen context).mp ho hawaits
    constructor
    · have hhere := congrArg (Option.map Text.asStr) hstands.here
      rw [← List.getElem?_map, List.map_map] at hhere
      rw [← steps_placed h hw hr, List.getLast?_eq_getElem?, List.length_map]
      exact hhere
    · exact not_completed hchain hstands (List.getElem?_eq_getElem (Nat.sub_one_lt_of_lt hnonempty))
    · intro approval guardName approvedBy kind at' u session happroval hname hsucceeds n
      have honly : ∀ other ∈ gate, other = guardName := by
        intro other hother
        obtain ⟨same, hsame, hnamed⟩ := (hgate _).mp ⟨other, hother, rfl⟩
        obtain rfl := Option.some.inj (happroval.symm.trans hsame)
        exact Text.ext (hnamed.trans hname.symm)
      obtain ⟨q, hq, hfinished⟩ := conduct_approved hchain hstands honly hsucceeds n
      exact ⟨q, hq, by rw [hfinished.performed, hperformed], hcompletes hfinished⟩

end Sound

/-- Whatever design is accepted, its draft has nothing against it, publishes as one line of stages
with the guards and the roles the intent asked for, and runs through. -/
theorem designed_ceremonies_sound (yaml : Yaml) (hyaml : yaml.Lossless)
    (request : EmbeddedDesignCeremonyRequest) (designed : DesignedCeremonyDraft yaml)
    (h : request.design yaml = some (.ok designed)) :
    designed.draft.analyze.findings = [] ∧
    ∃ d, designed.draft.publish = .ok d ∧ Linear request d ∧
      (∀ (k : Nat) (stage : StageIntent) (t : CeremonyTransition), request.stages[k]? = some stage →
        d.transitions[k]? = some t → Gated request d k stage t) ∧
      Staffed request d ∧ RunsThrough request d := by
  obtain ⟨haccepted, document, hwritten, hread⟩ := design_ok hyaml h
  obtain ⟨d, hd⟩ := new_of_wellFormed designed.draft.name designed.draft.version
    designed.draft.description (wellFormed haccepted hwritten hread)
  obtain ⟨finish, gate, -, -, hchain⟩ := chain_of_publish haccepted hwritten hread hd
  refine ⟨?_, d, hd, linear_of_publish haccepted hwritten hread hd, fun k stage t hstage ht => ?_,
    staffed_of_publish haccepted hwritten hread hd, runsThrough_of_publish haccepted hwritten hread hd⟩
  · have hfindings := hchain.findings
    rw [← analyze_of_publish hd]
    exact hfindings
  · exact gated_of_publish haccepted hwritten hread hd hstage ht

section Rehearsal

open Choreographer.SessionFacts

def keyOf (stepId : StepId) : IdempotencyKey :=
  ⟨stepId.asStr, TextRule.check_ok.mpr ⟨stepId.trim_asStr.symm, stepId.asStr_ne_empty,
    stepId.size_le, fun _ hc => noControl_of_isSnakeCase (stepId.allowed_of_mem hc)⟩⟩

theorem keyOf_injective : Function.Injective keyOf := by
  intro stepId other hkey
  exact Text.ext (congrArg (fun key : IdempotencyKey => key.asStr) hkey)

theorem completed_observable :
    StepStatus.completed ≠ .pending ∧ StepStatus.completed ≠ .inProgress := by decide

theorem instant_lasts : (⟨0, 0⟩ : OffsetDateTime) < ⟨1, 0⟩ := by decide

def helpers : Crew where
  handle _ _ := ⟨.completed, StepOutput.empty, none, completed_observable, rfl⟩
  completes _ _ := rfl
  lease _ stepId := ⟨⟨"studio", by decide⟩, keyOf stepId, ⟨0, 0⟩, ⟨1, 0⟩, instant_lasts⟩
  keyed _ _ _ _ hkey := keyOf_injective hkey
  clock _ := ⟨0, 0⟩

theorem sketch_awaits : Awaits sketch CeremonyContext.empty := by
  refine ⟨_, rfl, fun guardName _ => ?_⟩
  rfl

/-- The sketch is drawn and looked at, and waits for its approval. -/
theorem designed_ceremonies_sound_sketch : ∃ designed d p,
    sketch.design verbatim = some (.ok designed) ∧ designed.draft.analyze.findings = [] ∧
    designed.draft.publish = .ok d ∧
    conduct helpers d 2 ⟨CeremonyInstance.opened ⟨"easel", by decide⟩ d CeremonyContext.empty ⟨0, 0⟩
      none, []⟩ = .ok p ∧
    p.performed.map Text.asStr = ["draw", "look"] ∧
    p.session.currentState.asStr = "LOOK" ∧ p.session.isCompleted d = false := by
  obtain ⟨designed, hdesigned⟩ := sketch_designed
  obtain ⟨hfindings, d, hd, -, -, -, hruns⟩ :=
    designed_ceremonies_sound verbatim verbatim_lossless sketch designed hdesigned
  obtain ⟨p, hconduct, hperformed, -, hstops⟩ := hruns helpers ⟨"easel", by decide⟩
    CeremonyContext.empty ⟨0, 0⟩ none 2 (by decide)
  have hstopped := hstops sketch_awaits
  have hlast : sketch.stageStateIds.getLast? = some "LOOK" := by decide
  have hnames : stageIds sketch = ["draw", "look"] := by decide
  exact ⟨designed, d, p, hdesigned, hfindings, hd, hconduct, hperformed.trans hnames,
    Option.some.inj (hstopped.here.symm.trans hlast), hstopped.underway⟩

end Rehearsal

end Choreographer.DesignedRuns
