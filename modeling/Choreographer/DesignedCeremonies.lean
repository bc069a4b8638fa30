import Choreographer.DesignedDrafts
import Choreographer.Reachability
import Choreographer.SessionFacts

namespace Choreographer.DesignedCeremonies

open Choreographer.Lib.SortedMaps Choreographer.Lib.Updates
open Choreographer.Texts Choreographer.Values Choreographer.Steps Choreographer.DefinitionParts
open Choreographer.Definition Choreographer.Acceptance Choreographer.Drafts Choreographer.Designs
open Choreographer.SessionFacts Choreographer.DesignedDrafts

section Names

/-- A text of the characters a step is named with. -/
def Snake (s : String) : Prop := ∀ c ∈ s.toList, isSnakeCase c = true

theorem Snake.append {s t : String} (hs : Snake s) (ht : Snake t) : Snake (s ++ t) := by
  intro c hc
  rw [String.toList_append, List.mem_append] at hc
  exact hc.elim (hs c) (ht c)

theorem snake_completion {s : String} (h : Snake s) : Snake (completion s) :=
  h.append (List.all_eq_true.mp (by decide))

theorem forall_snake {P : Char → Prop} [DecidablePred P]
    (h : ∀ n < 128, isSnakeCase (Char.ofNat n) = true → P (Char.ofNat n)) {c : Char}
    (hc : isSnakeCase c = true) : P c := by
  have hlt : c.toNat < 128 := by
    simp only [isSnakeCase, isAsciiLowercase, isAsciiDigit, Bool.or_eq_true, Bool.and_eq_true,
      decide_eq_true_eq, beq_iff_eq] at hc
    rcases hc with (⟨-, hhigh⟩ | ⟨-, hhigh⟩) | rfl
    · have hhigh : c.toNat ≤ 122 := hhigh
      omega
    · have hhigh : c.toNat ≤ 57 := hhigh
      omega
    · decide
  have hchar := h c.toNat hlt
  rw [Char.ofNat_toNat] at hchar
  exact hchar hc

theorem trim_snake {s : String} (h : Snake s) : trim s = s :=
  trim_of_unspaced fun c hc =>
    forall_snake (P := fun c => isWhitespace c = false) (by decide) (h c hc)

theorem trim_uppercase {s : String} (h : Snake s) :
    trim (toAsciiUppercase s) = toAsciiUppercase s := by
  apply trim_of_unspaced
  intro c hc
  rw [toAsciiUppercase, String.toList_ofList, List.mem_map] at hc
  obtain ⟨a, ha, rfl⟩ := hc
  exact forall_snake (P := fun c => isWhitespace c.toUpper = false) (by decide) (h a ha)

theorem lowercase_uppercase {s : String} (h : Snake s) :
    toAsciiLowercase (toAsciiUppercase s) = s := by
  rw [toAsciiLowercase, toAsciiUppercase, String.toList_ofList, List.map_map]
  have hmap : s.toList.map (Char.toLower ∘ Char.toUpper) = s.toList := by
    conv_rhs => rw [← List.map_id s.toList]
    apply List.map_congr_left
    intro c hc
    exact forall_snake (P := fun c => c.toUpper.toLower = c) (by decide) (h c hc)
  rw [hmap, String.ofList_toList]

theorem completion_inj {s t : String} (h : completion s = completion t) : s = t := by
  have hlist := congrArg String.toList h
  simp only [completion, String.toList_append] at hlist
  exact String.toList_inj.mp (List.append_cancel_right hlist)

theorem intoCondition_completionGuard {s : String} (h : Snake s) {condition : GuardCondition}
    (hparse : (completionGuard s).intoCondition = .ok condition) :
    ∃ stepId : StepId, stepId.asStr = s ∧ condition = .stepStatus stepId .completed := by
  have hlist : (completionGuard s).check.toList =
      's' :: "tep_status".toList ++ ':' :: (s.toList ++ ':' :: "COMPLETED".toList) := by
    simp only [completionGuard, String.toList_append, List.append_assoc]
    rfl
  have hmanual : (completionGuard s).check ≠ "manual_approval" := by
    intro he
    rw [he] at hlist
    simp at hlist
  have hall : (completionGuard s).check ≠ "all_steps_completed" := by
    intro he
    rw [he] at hlist
    simp at hlist
  have hcolon : ':' ∉ s.toList := fun hmem => absurd (h ':' hmem) (by decide)
  have hsplit : (completionGuard s).check.toList.splitOn ':' =
      ["step_status".toList, s.toList, "COMPLETED".toList] := by
    have hparts : ([':'].intercalate ["step_status".toList, s.toList,
        "COMPLETED".toList]).splitOn ':' = ["step_status".toList, s.toList, "COMPLETED".toList] :=
      List.splitOn_intercalate ':' (by simp [hcolon]) (by simp)
    rw [← hparts, hlist]
    simp [List.intercalate]
  have hautomated : (completionGuard s).guardType ≠ "human" := by
    intro he
    simp [completionGuard] at he
  rw [GuardDocument.intoCondition, if_neg (not_or.mpr ⟨hautomated, hmanual⟩), if_neg hall,
    parseStepStatusGuard, hsplit] at hparse
  simp only [List.map_cons, List.map_nil, String.ofList_toList, if_true, except_bind_eq_ok]
    at hparse
  obtain ⟨stepId, hid, status, hstatus, hdone⟩ := hparse
  refine ⟨stepId, by rw [text_new_ok hid, trim_snake h], ?_⟩
  rw [show readStatus "COMPLETED" = .ok .completed from rfl] at hstatus
  obtain rfl := Except.ok.inj hstatus
  exact (Except.ok.inj hdone).symm

section Actions

variable {stepIds : OrdSet StepId} {triggers : OrdSet TransitionTrigger} {action : RoleAction}

theorem new_asStr {rule : TextRule} {t u : Text rule} (h : Text.new t.asStr = .ok u) : u = t :=
  Text.ext (by rw [text_new_ok h, Text.trim_asStr])

theorem toRoleAction_step {stepId : StepId} (hmem : stepId ∈ stepIds.keys)
    (h : toRoleAction stepIds triggers stepId.asStr = .ok action) : action = .step stepId := by
  have hstep : (stepIds.keys.any fun other => other.asStr = stepId.asStr) = true :=
    List.any_eq_true.mpr ⟨stepId, hmem, by simp⟩
  simp only [toRoleAction, hstep] at h
  split at h
  · obtain ⟨other, hnew, rfl⟩ := except_map_eq_ok.mp h
    rw [new_asStr hnew]
  all_goals simp_all

theorem toRoleAction_transition {trigger : TransitionTrigger} (hmem : trigger ∈ triggers.keys)
    (h : toRoleAction stepIds triggers trigger.asStr = .ok action) :
    action = .transition trigger := by
  have htrigger : (triggers.keys.any fun other => other.asStr = trigger.asStr) = true :=
    List.any_eq_true.mpr ⟨trigger, hmem, by simp⟩
  simp only [toRoleAction, htrigger] at h
  split at h
  · simp_all
  · obtain ⟨other, hnew, rfl⟩ := except_map_eq_ok.mp h
    rw [new_asStr hnew]
  all_goals simp_all

theorem toRoleAction_capability {raw : String} {capability : RoleAction}
    (hlabel : fromCapabilityLabel raw = some capability)
    (h : toRoleAction stepIds triggers raw = .ok action) : action = capability := by
  simp only [toRoleAction, hlabel] at h
  split at h
  · simp_all
  · simp_all
  · next hsome =>
    rw [← Except.ok.inj h, Option.some.inj hsome]
  all_goals simp_all

end Actions

end Names

section Stages

variable {request : EmbeddedDesignCeremonyRequest} {k : Nat} {stage : StageIntent}

theorem map_numbered {β : Type} (f : StageIntent → β) (stages : List StageIntent) :
    (numbered 0 stages).map (fun p => f p.2) = stages.map f := by
  apply List.ext_getElem?
  intro k
  rw [List.getElem?_map, List.getElem?_map, getElem?_numbered, Option.map_map]
  rfl

theorem mem_numbered {p : Nat × StageIntent} :
    p ∈ numbered 0 request.stages ↔ request.stages[p.1]? = some p.2 := by
  obtain ⟨k, stage⟩ := p
  simp only [numbered, Nat.zero_add, List.mem_mapIdx, Prod.mk.injEq]
  rw [List.getElem?_eq_some_iff]
  constructor
  · rintro ⟨k, hk, rfl, rfl⟩
    exact ⟨hk, rfl⟩
  · rintro ⟨hk, rfl⟩
    exact ⟨k, hk, rfl, rfl⟩

theorem snake_stage (h : Accepted request) (hstage : stage ∈ request.stages) :
    Snake (trim stage.id) := by
  obtain ⟨stepId, hid⟩ := (h.stages stage hstage).named
  rw [← text_new_ok hid]
  exact fun c hc => stepId.allowed_of_mem hc

theorem trim_stageStateId (h : Accepted request) (hstage : stage ∈ request.stages) :
    trim (stageStateId stage) = stageStateId stage := trim_uppercase (snake_stage h hstage)

theorem trim_completion (h : Accepted request) (hstage : stage ∈ request.stages) :
    trim (completion (trim stage.id)) = completion (trim stage.id) :=
  trim_snake (snake_completion (snake_stage h hstage))

theorem trim_transitionTrigger (h : Accepted request) (hstage : stage ∈ request.stages) :
    trim (request.transitionTrigger k stage) = request.transitionTrigger k stage := by
  unfold EmbeddedDesignCeremonyRequest.transitionTrigger
  split
  · exact trim_trim _
  · exact trim_completion h hstage

def places (request : EmbeddedDesignCeremonyRequest) : List String :=
  request.stageStateIds ++ ["COMPLETED"]

theorem lowercase_stageStateId (h : Accepted request) (hstage : stage ∈ request.stages) :
    toAsciiLowercase (stageStateId stage) = trim stage.id :=
  lowercase_uppercase (snake_stage h hstage)

theorem places_nodup (h : Accepted request) : (places request).Nodup := by
  have hlower : request.stageStateIds.map toAsciiLowercase = stageIds request := by
    rw [EmbeddedDesignCeremonyRequest.stageStateIds, List.map_map]
    exact List.map_congr_left fun stage hstage => lowercase_stageStateId h hstage
  have hstates : request.stageStateIds.Nodup := by
    apply List.Nodup.of_map toAsciiLowercase
    rw [hlower]
    exact h.distinct
  rw [places, List.nodup_append']
  refine ⟨hstates, List.nodup_singleton _, ?_⟩
  intro name hname hlast
  obtain rfl := List.mem_singleton.mp hlast
  have hmem : toAsciiLowercase "COMPLETED" ∈ stageIds request := by
    rw [← hlower]
    exact List.mem_map_of_mem hname
  have hfree := h.unreserved _ hmem
  revert hfree
  decide

theorem stageStateId_ne_completed (h : Accepted request) (hstage : stage ∈ request.stages) :
    stageStateId stage ≠ "COMPLETED" := by
  have hnodup := places_nodup h
  rw [places, List.nodup_append'] at hnodup
  intro he
  exact hnodup.2.2 (List.mem_map_of_mem hstage) (by simp [he])

theorem stageState_ne_completed (h : Accepted request) {name : String}
    (hname : name ∈ request.stageStateIds) : name ≠ "COMPLETED" := by
  obtain ⟨stage, hstage, rfl⟩ := List.mem_map.mp hname
  exact stageStateId_ne_completed h hstage

def nextPlace (request : EmbeddedDesignCeremonyRequest) (k : Nat) : String :=
  request.stageStateIds[k + 1]?.getD "COMPLETED"

theorem getElem?_places (hstage : request.stages[k]? = some stage) :
    (places request)[k]? = some (stageStateId stage) := by
  obtain ⟨hk, -⟩ := List.getElem?_eq_some_iff.mp hstage
  have hlength : request.stageStateIds.length = request.stages.length := List.length_map _
  rw [places, List.getElem?_append_left (by omega), EmbeddedDesignCeremonyRequest.stageStateIds,
    List.getElem?_map, hstage]
  rfl

theorem getElem?_nextPlace (hstage : request.stages[k]? = some stage) :
    (places request)[k + 1]? = some (nextPlace request k) := by
  obtain ⟨hk, -⟩ := List.getElem?_eq_some_iff.mp hstage
  have hlength : request.stageStateIds.length = request.stages.length := List.length_map _
  unfold places nextPlace
  by_cases hlast : k + 1 < request.stageStateIds.length
  · rw [List.getElem?_append_left hlast, List.getElem?_eq_getElem hlast]
    rfl
  · have hnone : request.stageStateIds[k + 1]? = none := List.getElem?_eq_none (by omega)
    rw [List.getElem?_append_right (by omega), hnone,
      show k + 1 - request.stageStateIds.length = 0 by omega]
    rfl

theorem approvalAfter_eq_some {approval : FinalApprovalIntent} :
    request.approvalAfter k = some approval ↔
      k + 1 = request.stages.length ∧ request.finalApproval = some approval := by
  unfold EmbeddedDesignCeremonyRequest.approvalAfter
  split
  · next hlast => simp [hlast]
  · next hlast => simp [hlast]

theorem mem_transitionGuards {name : String} : name ∈ request.transitionGuards k stage ↔
    name = completion (trim stage.id) ∨
      ∃ approval, request.approvalAfter k = some approval ∧ name = trim approval.guardName := by
  unfold EmbeddedDesignCeremonyRequest.transitionGuards
  cases request.approvalAfter k with
  | none => simp
  | some approval => simp

theorem mem_stageGuards {p : Nat × StageIntent} {name : String} {doc : GuardDocument} :
    (name, doc) ∈ stageGuards request p ↔
      name = completion (trim p.2.id) ∧ doc = completionGuard (trim p.2.id) ∨
      ∃ approval, request.approvalAfter p.1 = some approval ∧ name = trim approval.guardName ∧
        doc = humanGuard := by
  simp only [stageGuards, List.mem_cons, Prod.mk.injEq, List.mem_map, Option.mem_toList,
    eq_comm (a := name), eq_comm (a := doc)]

theorem stageGuards_agree (h : Accepted request) {p q : Nat × StageIntent}
    (hp : p ∈ numbered 0 request.stages) (hq : q ∈ numbered 0 request.stages) {name : String}
    {doc doc' : GuardDocument} (hdoc : (name, doc) ∈ stageGuards request p)
    (hdoc' : (name, doc') ∈ stageGuards request q) : doc' = doc := by
  have hmem {r : Nat × StageIntent} (hr : r ∈ numbered 0 request.stages) :
      completion (trim r.2.id) ∈ (stageIds request).map completion :=
    List.mem_map_of_mem (List.mem_map_of_mem (List.mem_of_getElem? (mem_numbered.mp hr)))
  rcases mem_stageGuards.mp hdoc with ⟨hname, rfl⟩ | ⟨approval, happroval, hname, rfl⟩
  · rcases mem_stageGuards.mp hdoc' with ⟨hname', rfl⟩ | ⟨approval', happroval', hname', rfl⟩
    · rw [completion_inj (hname'.symm.trans hname)]
    · have hfree := (h.approval approval' (approvalAfter_eq_some.mp happroval').2).guardFree
      rw [← hname', hname] at hfree
      exact absurd (hmem hp) hfree
  · rcases mem_stageGuards.mp hdoc' with ⟨hname', rfl⟩ | ⟨approval', happroval', hname', rfl⟩
    · have hfree := (h.approval approval (approvalAfter_eq_some.mp happroval).2).guardFree
      rw [← hname, hname'] at hfree
      exact absurd (hmem hq) hfree
    · rfl

theorem transitionOwner_participates (h : Accepted request) (hstage : stage ∈ request.stages) :
    request.transitionOwner k stage ∈ participantIds request := by
  unfold EmbeddedDesignCeremonyRequest.transitionOwner
  cases happroval : request.approvalAfter k with
  | none => exact (h.stages stage hstage).owned
  | some approval => exact (h.approval approval (approvalAfter_eq_some.mp happroval).2).known

theorem trim_nextPlace (h : Accepted request) : trim (nextPlace request k) = nextPlace request k := by
  unfold nextPlace
  cases hnext : request.stageStateIds[k + 1]? with
  | none => decide
  | some name =>
    obtain ⟨stage, hstage, rfl⟩ := List.mem_map.mp (List.mem_of_getElem? hnext)
    exact trim_stageStateId h hstage

end Stages

section Drafts

variable {request : EmbeddedDesignCeremonyRequest} {document : CeremonyDocument}
  {draft : CeremonyDefinitionDraft} {k : Nat} {stage : StageIntent}

/-- What the move out of a stage is. -/
structure MovesOut (request : EmbeddedDesignCeremonyRequest) (k : Nat) (stage : StageIntent)
    (t : CeremonyTransition) : Prop where
  fromState : t.fromState.asStr = stageStateId stage
  toState : t.toState.asStr = nextPlace request k
  trigger : t.trigger.asStr = request.transitionTrigger k stage
  guards : ∀ guardName, t.requiredGuards.contains guardName = true ↔
    guardName.asStr ∈ request.transitionGuards k stage

def stateKind (doc : StateDocument) : CeremonyStateKind :=
  if doc.initial then .initial else if doc.terminal then .terminal else .intermediate

/-- What a guard checks. -/
def Checks (request : EmbeddedDesignCeremonyRequest) (guard : CeremonyGuard) : Prop :=
  (∃ stage ∈ request.stages, guard.name.asStr = completion (trim stage.id) ∧
    ∃ stepId : StepId, stepId.asStr = trim stage.id ∧
      guard.condition = .stepStatus stepId .completed) ∨
  ∃ approval ∈ request.finalApproval, guard.name.asStr = trim approval.guardName ∧
    guard.condition = .humanApproval

variable (h : Accepted request) (hw : Written request document) (hr : ReadOff document draft)

include hw hr

theorem length_transitions : draft.transitions.length = request.stages.length := by
  have hlength := congrArg List.length (map_eq_of_mapM_ok hr.transitions)
  rw [List.length_map, List.length_map, hw.transitions] at hlength
  simpa [numbered] using hlength.symm

theorem steps_named : draft.steps.map (fun step => step.id.asStr) = stageIds request := by
  obtain ⟨retryPolicy, timeout, -, hsteps⟩ := hr.steps
  have hview (doc : StepDocument) (step : CeremonyStep)
      (hdomain : doc.intoDomain retryPolicy timeout = .ok step) : step.id.asStr = trim doc.id := by
    simp only [StepDocument.intoDomain, except_bind_eq_ok] at hdomain
    obtain ⟨id, hid, _, -, _, -, _, -, hdone⟩ := hdomain
    rw [← Except.ok.inj hdone, text_new_ok hid]
  have hlist : document.steps.map (fun doc => trim doc.id) =
      request.stages.map fun stage => trim (trim stage.id) := by
    rw [hw.steps, List.map_map]
    exact map_numbered (fun stage => trim (trim stage.id)) request.stages
  rw [map_of_mapM_ok hview hsteps, hlist]
  simp only [trim_trim, stageIds]

theorem stage_of_step {step : CeremonyStep} (hstep : draft.steps[k]? = some step) :
    ∃ stage, request.stages[k]? = some stage ∧ step.id.asStr = trim stage.id := by
  have hname : (stageIds request)[k]? = some step.id.asStr := by
    rw [← steps_named hw hr, List.getElem?_map, hstep]
    rfl
  rw [stageIds, List.getElem?_map] at hname
  obtain ⟨stage, hstage, hid⟩ := Option.map_eq_some_iff.mp hname
  exact ⟨stage, hstage, hid.symm⟩

theorem exists_step (hstage : stage ∈ request.stages) :
    ∃ step ∈ draft.steps, step.id.asStr = trim stage.id := by
  have hmem : trim stage.id ∈ draft.steps.map fun step => step.id.asStr := by
    rw [steps_named hw hr]
    exact List.mem_map_of_mem hstage
  exact List.mem_map.mp hmem

include h

theorem transition_of_stage (hstage : request.stages[k]? = some stage) :
    ∃ t, draft.transitions[k]? = some t ∧ MovesOut request k stage t := by
  have hmem := List.mem_of_getElem? hstage
  have hdocument : document.transitions[k]? = some (request.transitionDocument k stage) := by
    rw [hw.transitions, List.getElem?_map, getElem?_numbered, hstage]
    rfl
  obtain ⟨t, ht, hdomain⟩ := getElem?_of_mapM_ok hr.transitions hdocument
  simp only [TransitionDocument.intoDomain, EmbeddedDesignCeremonyRequest.transitionDocument,
    except_bind_eq_ok] at hdomain
  obtain ⟨fromState, hfrom, toState, hto, trigger, htrigger, guards, hguards, hdone⟩ := hdomain
  obtain rfl := Except.ok.inj hdone
  refine ⟨_, ht, ?_, ?_, ?_, fun guardName => ?_⟩
  · rw [text_new_ok hfrom, trim_stageStateId h hmem]
  · rw [text_new_ok hto]
    exact trim_nextPlace h
  · rw [text_new_ok htrigger, trim_transitionTrigger h hmem]
  · have hnames : guards.map Text.asStr = request.transitionGuards k stage := by
      rw [map_of_mapM_ok (fun _ _ => text_new_ok) hguards]
      unfold EmbeddedDesignCeremonyRequest.transitionGuards
      split
      · simp [trim_completion h hmem, trim_trim]
      · simp [trim_completion h hmem]
    rw [← OrdMap.mem_keys, OrdSet.mem_keys_ofList, ← hnames,
      List.mem_map_of_injective fun _ _ => Text.ext]

theorem stage_of_transition {t : CeremonyTransition} (ht : draft.transitions[k]? = some t) :
    ∃ stage, request.stages[k]? = some stage ∧ MovesOut request k stage t := by
  obtain ⟨hk, -⟩ := List.getElem?_eq_some_iff.mp ht
  rw [length_transitions hw hr] at hk
  have hstage := List.getElem?_eq_getElem hk
  obtain ⟨t', ht', hmoves⟩ := transition_of_stage h hw hr hstage
  obtain rfl := Option.some.inj (ht.symm.trans ht')
  exact ⟨_, hstage, hmoves⟩

theorem steps_placed : draft.steps.map (fun step => step.stateId.asStr) = request.stageStateIds := by
  obtain ⟨retryPolicy, timeout, -, hsteps⟩ := hr.steps
  have hview (doc : StepDocument) (step : CeremonyStep)
      (hdomain : doc.intoDomain retryPolicy timeout = .ok step) :
      step.stateId.asStr = trim doc.state := by
    simp only [StepDocument.intoDomain, except_bind_eq_ok] at hdomain
    obtain ⟨_, -, state, hstate, _, -, _, -, hdone⟩ := hdomain
    rw [← Except.ok.inj hdone, text_new_ok hstate]
  have hlist : document.steps.map (fun doc => trim doc.state) =
      request.stages.map fun stage => trim (stageStateId stage) := by
    rw [hw.steps, List.map_map]
    exact map_numbered (fun stage => trim (stageStateId stage)) request.stages
  rw [map_of_mapM_ok hview hsteps, hlist]
  exact List.map_congr_left fun stage hstage => trim_stageStateId h hstage

theorem states_read : draft.states.map (fun state => (state.id.asStr, state.kind)) =
    request.writeStates.map fun doc => (doc.id, stateKind doc) := by
  have hview (doc : StateDocument) (state : CeremonyState) (hdomain : doc.intoDomain = .ok state) :
      (state.id.asStr, state.kind) = (trim doc.id, stateKind doc) := by
    unfold StateDocument.intoDomain at hdomain
    split at hdomain
    · simp at hdomain
    · obtain ⟨id, hid, hdone⟩ := except_bind_eq_ok.mp hdomain
      rw [← Except.ok.inj hdone, text_new_ok hid]
      rfl
  rw [map_of_mapM_ok hview hr.states, hw.states]
  apply List.map_congr_left
  intro doc hdoc
  rw [EmbeddedDesignCeremonyRequest.writeStates, List.mem_append, List.mem_singleton,
    List.mem_mapIdx] at hdoc
  obtain ⟨k, hk, rfl⟩ | rfl := hdoc
  · obtain ⟨stage, hstage, hid⟩ := List.mem_map.mp (List.getElem_mem hk)
    rw [← hid]
    simp only [trim_stageStateId h hstage]
  · rfl

theorem states_named : draft.states.map (fun state => state.id.asStr) = places request := by
  have hids := congrArg (List.map Prod.fst) (states_read h hw hr)
  rw [List.map_map, List.map_map] at hids
  refine Eq.trans hids ?_
  rw [EmbeddedDesignCeremonyRequest.writeStates, List.map_append, places]
  congr 1
  apply List.ext_getElem?
  intro k
  rw [List.getElem?_map, List.getElem?_mapIdx, Option.map_map]
  exact Option.map_id_apply

theorem state_cases {state : CeremonyState} (hs : state ∈ draft.states) :
    (∃ k, request.stageStateIds[k]? = some state.id.asStr ∧
      state.kind = if k = 0 then .initial else .intermediate) ∨
    state.id.asStr = "COMPLETED" ∧ state.kind = .terminal := by
  have hmem : (state.id.asStr, state.kind) ∈
      request.writeStates.map fun doc => (doc.id, stateKind doc) := by
    rw [← states_read h hw hr]
    exact List.mem_map_of_mem hs
  obtain ⟨doc, hdoc, hpair⟩ := List.mem_map.mp hmem
  obtain ⟨hid, hkind⟩ := Prod.mk.inj hpair
  rw [EmbeddedDesignCeremonyRequest.writeStates, List.mem_append, List.mem_singleton,
    List.mem_mapIdx] at hdoc
  obtain ⟨k, hk, rfl⟩ | rfl := hdoc
  · refine Or.inl ⟨k, ?_, ?_⟩
    · rw [List.getElem?_eq_getElem hk]
      exact congrArg some hid
    · rw [← hkind]
      simp [stateKind]
  · exact Or.inr ⟨hid.symm, hkind.symm⟩

theorem terminal_iff {state : CeremonyState} (hs : state ∈ draft.states) :
    state.isTerminal = true ↔ state.id.asStr = "COMPLETED" := by
  simp only [CeremonyState.isTerminal, decide_eq_true_eq]
  rcases state_cases h hw hr hs with ⟨k, hk, hkind⟩ | ⟨hid, hkind⟩
  · obtain ⟨stage, hstage, hid⟩ := List.mem_map.mp (List.mem_of_getElem? hk)
    rw [hkind, ← hid]
    simp only [stageStateId_ne_completed h hstage, iff_false]
    split <;> simp
  · simp [hid, hkind]

theorem initial_iff {state : CeremonyState} (hs : state ∈ draft.states) :
    state.isInitial = true ↔ (places request)[0]? = some state.id.asStr := by
  simp only [CeremonyState.isInitial, decide_eq_true_eq]
  have hsome : 0 < request.stageStateIds.length := by
    rw [EmbeddedDesignCeremonyRequest.stageStateIds, List.length_map]
    exact List.length_pos_iff.mpr h.someStage
  have hfirst : (places request)[0]? = request.stageStateIds[0]? :=
    List.getElem?_append_left hsome
  have hnodup := places_nodup h
  rw [places, List.nodup_append'] at hnodup
  rw [hfirst]
  rcases state_cases h hw hr hs with ⟨k, hk, hkind⟩ | ⟨hid, hkind⟩
  · by_cases hzero : k = 0
    · subst hzero
      simp [hkind, hk]
    · obtain ⟨hlt, -⟩ := List.getElem?_eq_some_iff.mp hk
      simp only [hkind, hzero, if_false, reduceCtorEq, false_iff]
      intro heq
      have hsame : request.stageStateIds[0]? = request.stageStateIds[k]? := heq.trans hk.symm
      exact hzero ((List.getElem?_inj hsome hnodup.1).mp hsame).symm
  · simp only [hkind, reduceCtorEq, false_iff, hid]
    intro heq
    exact hnodup.2.2 (List.mem_of_getElem? heq) (by simp)

omit hr in
theorem mem_guards {name : String} {doc : GuardDocument} :
    (name, doc) ∈ document.guards.entries ↔
      ∃ p ∈ numbered 0 request.stages, (name, doc) ∈ stageGuards request p := by
  rw [OrdMap.mem_entries, hw.guards, OrdMap.get?_ofList_of_agree, List.mem_flatMap]
  intro doc' hdoc hdoc'
  obtain ⟨p, hp, hdoc⟩ := List.mem_flatMap.mp hdoc
  obtain ⟨q, hq, hdoc'⟩ := List.mem_flatMap.mp hdoc'
  exact stageGuards_agree h hp hq hdoc hdoc'

omit hr in
theorem trim_guardName {name : String} {doc : GuardDocument}
    (hentry : (name, doc) ∈ document.guards.entries) : trim name = name := by
  obtain ⟨p, hp, hmem⟩ := (mem_guards h hw).mp hentry
  rcases mem_stageGuards.mp hmem with ⟨rfl, -⟩ | ⟨approval, -, rfl, -⟩
  · exact trim_completion h (List.mem_of_getElem? (mem_numbered.mp hp))
  · exact trim_trim _

theorem guards_named : draft.guards.map (fun guard => guard.name.asStr) = document.guards.keys := by
  have hview (entry : String × GuardDocument) (guard : CeremonyGuard)
      (hdomain : GuardDocument.intoDomain entry.1 entry.2 = .ok guard) :
      guard.name.asStr = trim entry.1 := by
    simp only [GuardDocument.intoDomain, except_bind_eq_ok] at hdomain
    obtain ⟨_, -, name, hname, hdone⟩ := hdomain
    rw [← Except.ok.inj hdone, text_new_ok hname]
  rw [map_of_mapM_ok hview hr.guards, OrdMap.keys]
  exact List.map_congr_left fun entry hentry => trim_guardName h hw hentry

omit hr in
theorem checks_of_entry {name : String} {doc : GuardDocument} {guard : CeremonyGuard}
    (hentry : (name, doc) ∈ document.guards.entries)
    (hdomain : GuardDocument.intoDomain name doc = .ok guard) :
    guard.name.asStr = name ∧ Checks request guard := by
  have htrim := trim_guardName h hw hentry
  obtain ⟨p, hp, hmem⟩ := (mem_guards h hw).mp hentry
  simp only [GuardDocument.intoDomain, except_bind_eq_ok] at hdomain
  obtain ⟨condition, hcondition, guardName, hname, hdone⟩ := hdomain
  obtain rfl := Except.ok.inj hdone
  have hnamed : guardName.asStr = name := by rw [text_new_ok hname, htrim]
  refine ⟨hnamed, ?_⟩
  rcases mem_stageGuards.mp hmem with ⟨rfl, rfl⟩ | ⟨approval, happroval, rfl, rfl⟩
  · have hstage := List.mem_of_getElem? (mem_numbered.mp hp)
    exact Or.inl ⟨p.2, hstage, hnamed, intoCondition_completionGuard (snake_stage h hstage) hcondition⟩
  · refine Or.inr ⟨approval, (approvalAfter_eq_some.mp happroval).2, hnamed, ?_⟩
    exact (Except.ok.inj hcondition).symm

theorem guard_checks {guard : CeremonyGuard} (hguard : guard ∈ draft.guards) :
    Checks request guard := by
  obtain ⟨entry, hentry, hdomain⟩ := (mem_of_mapM_ok hr.guards).mp hguard
  exact (checks_of_entry h hw hentry hdomain).2

theorem guard_named {name : String} {doc : GuardDocument} (hstage : request.stages[k]? = some stage)
    (hmem : (name, doc) ∈ stageGuards request (k, stage)) :
    ∃ guard ∈ draft.guards, guard.name.asStr = name := by
  have hentry := (mem_guards h hw).mpr ⟨(k, stage), mem_numbered.mpr hstage, hmem⟩
  obtain ⟨guard, hguard, hdomain⟩ := exists_of_mapM_ok hr.guards hentry
  exact ⟨guard, hguard, (checks_of_entry h hw hentry hdomain).1⟩

end Drafts

section Roles

variable {request : EmbeddedDesignCeremonyRequest} {document : CeremonyDocument}
  {draft : CeremonyDefinitionDraft}

def knownSteps (draft : CeremonyDefinitionDraft) : OrdSet StepId :=
  OrdSet.ofList (draft.steps.map CeremonyStep.id)

def knownTriggers (draft : CeremonyDefinitionDraft) : OrdSet TransitionTrigger :=
  OrdSet.ofList (draft.transitions.map CeremonyTransition.trigger)

/-- What the intent lets a role do, by name. -/
def Permits (request : EmbeddedDesignCeremonyRequest) (roleId action : String) : Prop :=
  Capable request roleId action ∨ Assigns request (numbered 0 request.stages) roleId action

/-- A role of the document and what is read of it. -/
structure RoleRead (request : EmbeddedDesignCeremonyRequest) (draft : CeremonyDefinitionDraft)
    (roleId : String) (role : CeremonyRole) : Prop where
  id : role.id.asStr = roleId
  allows : ∀ action, role.allows action = true ↔ ∃ raw, Permits request roleId raw ∧
    toRoleAction (knownSteps draft) (knownTriggers draft) raw = .ok action
  means : ∀ raw, Permits request roleId raw →
    ∃ action, toRoleAction (knownSteps draft) (knownTriggers draft) raw = .ok action

variable (hw : Written request document) (hr : ReadOff document draft)

include hw

theorem trim_role {doc : RoleDocument} (hdoc : doc ∈ document.roles) : trim doc.id = doc.id := by
  have hmem : doc.id ∈ participantIds request := by
    rw [← hw.roles]
    exact List.mem_map_of_mem hdoc
  obtain ⟨participant, -, hid⟩ := List.mem_map.mp hmem
  rw [← hid, trim_trim]

theorem roleRead_of_document {doc : RoleDocument} {role : CeremonyRole} (hdoc : doc ∈ document.roles)
    (hdomain : doc.intoDomain (knownSteps draft) (knownTriggers draft) = .ok role) :
    RoleRead request draft doc.id role := by
  simp only [RoleDocument.intoDomain, except_bind_eq_ok] at hdomain
  obtain ⟨id, hid, actions, hactions, hrole⟩ := hdomain
  unfold CeremonyRole.new at hrole
  split at hrole
  · simp at hrole
  · obtain rfl := Except.ok.inj hrole
    refine ⟨by rw [text_new_ok hid, trim_role hw hdoc], fun action => ?_, fun raw hraw => ?_⟩
    · rw [CeremonyRole.allows, ← OrdMap.mem_keys, OrdSet.mem_keys_ofList, mem_of_mapM_ok hactions]
      simp only [hw.actions doc hdoc, Permits]
    · obtain ⟨action, -, hmeans⟩ :=
        exists_of_mapM_ok hactions ((hw.actions doc hdoc raw).mpr hraw)
      exact ⟨action, hmeans⟩

include hr

theorem roles_named : draft.roles.map (fun role => role.id.asStr) = participantIds request := by
  have hview (doc : RoleDocument) (role : CeremonyRole)
      (hdomain : doc.intoDomain (knownSteps draft) (knownTriggers draft) = .ok role) :
      role.id.asStr = trim doc.id := by
    simp only [RoleDocument.intoDomain, except_bind_eq_ok] at hdomain
    obtain ⟨id, hid, _, -, hrole⟩ := hdomain
    unfold CeremonyRole.new at hrole
    split at hrole
    · simp at hrole
    · rw [← Except.ok.inj hrole, text_new_ok hid]
  rw [map_of_mapM_ok hview hr.roles, ← hw.roles]
  exact List.map_congr_left fun doc hdoc => trim_role hw hdoc

theorem roleRead_of_mem {role : CeremonyRole} (hrole : role ∈ draft.roles) :
    RoleRead request draft role.id.asStr role := by
  obtain ⟨doc, hdoc, hdomain⟩ := (mem_of_mapM_ok hr.roles).mp hrole
  have hread := roleRead_of_document hw hdoc hdomain
  rwa [hread.id]

theorem role_of_participant {roleId : String} (hmem : roleId ∈ participantIds request) :
    ∃ role ∈ draft.roles, RoleRead request draft roleId role := by
  rw [← roles_named hw hr] at hmem
  obtain ⟨role, hrole, rfl⟩ := List.mem_map.mp hmem
  exact ⟨role, hrole, roleRead_of_mem hw hr hrole⟩

theorem mem_knownSteps {stage : StageIntent} (hstage : stage ∈ request.stages) :
    ∃ stepId ∈ (knownSteps draft).keys, stepId.asStr = trim stage.id := by
  obtain ⟨step, hstep, hid⟩ := exists_step hw hr hstage
  exact ⟨step.id, OrdSet.mem_keys_ofList.mpr (List.mem_map_of_mem hstep), hid⟩

theorem mem_knownTriggers (h : Accepted request) {k : Nat} {stage : StageIntent}
    (hstage : request.stages[k]? = some stage) :
    ∃ trigger ∈ (knownTriggers draft).keys, trigger.asStr = request.transitionTrigger k stage := by
  obtain ⟨t, ht, hmoves⟩ := transition_of_stage h hw hr hstage
  exact ⟨t.trigger, OrdSet.mem_keys_ofList.mpr (List.mem_map_of_mem (List.mem_of_getElem? ht)),
    hmoves.trigger⟩

theorem action_known (h : Accepted request) {roleId raw : String} {action : RoleAction}
    (hpermits : Permits request roleId raw)
    (hmeans : toRoleAction (knownSteps draft) (knownTriggers draft) raw = .ok action) :
    (∃ stepId ∈ (knownSteps draft).keys, action = .step stepId) ∨
      (∃ trigger ∈ (knownTriggers draft).keys, action = .transition trigger) ∨
      action = .requestIntervention ∨ action = .respondToIntervention := by
  rcases hpermits with ⟨participant, -, -, hcapable⟩ | ⟨p, hp, ⟨-, rfl⟩ | ⟨-, rfl⟩⟩
  · obtain ⟨capability, -, rfl⟩ := List.mem_map.mp hcapable
    cases capability with
    | requestIntervention =>
      exact Or.inr (Or.inr (Or.inl (toRoleAction_capability rfl hmeans)))
    | respondToIntervention =>
      exact Or.inr (Or.inr (Or.inr (toRoleAction_capability rfl hmeans)))
  · obtain ⟨stepId, hmem, hname⟩ :=
      mem_knownSteps hw hr (List.mem_of_getElem? (mem_numbered.mp hp))
    rw [← hname] at hmeans
    exact Or.inl ⟨stepId, hmem, toRoleAction_step hmem hmeans⟩
  · obtain ⟨trigger, hmem, hname⟩ := mem_knownTriggers hw hr h (mem_numbered.mp hp)
    rw [← hname] at hmeans
    exact Or.inr (Or.inl ⟨trigger, hmem, toRoleAction_transition hmem hmeans⟩)

theorem owner_allowed (h : Accepted request) {stage : StageIntent} (hstage : stage ∈ request.stages) :
    ∃ role ∈ draft.roles, role.id.asStr = trim stage.ownerRoleId ∧
      ∀ stepId : StepId, stepId.asStr = trim stage.id → role.allows (.step stepId) = true := by
  obtain ⟨role, hrole, hread⟩ := role_of_participant hw hr (h.stages stage hstage).owned
  obtain ⟨k, hk⟩ := List.mem_iff_getElem?.mp hstage
  have hpermits : Permits request (trim stage.ownerRoleId) (trim stage.id) :=
    Or.inr ⟨(k, stage), mem_numbered.mpr hk, Or.inl ⟨rfl, rfl⟩⟩
  obtain ⟨action, hmeans⟩ := hread.means _ hpermits
  refine ⟨role, hrole, hread.id, fun stepId hname => ?_⟩
  obtain ⟨known, hmem, hknown⟩ := mem_knownSteps hw hr hstage
  obtain rfl : known = stepId := Text.ext (hknown.trans hname.symm)
  rw [hread.allows]
  refine ⟨_, hpermits, ?_⟩
  rw [← hname] at hmeans ⊢
  rw [hmeans, toRoleAction_step hmem hmeans]

theorem mover_allowed (h : Accepted request) {k : Nat} {stage : StageIntent}
    (hstage : request.stages[k]? = some stage) :
    ∃ role ∈ draft.roles, role.id.asStr = request.transitionOwner k stage ∧
      ∀ trigger : TransitionTrigger, trigger.asStr = request.transitionTrigger k stage →
        role.allows (.transition trigger) = true := by
  obtain ⟨role, hrole, hread⟩ := role_of_participant hw hr
    (transitionOwner_participates h (List.mem_of_getElem? hstage))
  have hpermits : Permits request (request.transitionOwner k stage)
      (request.transitionTrigger k stage) :=
    Or.inr ⟨(k, stage), mem_numbered.mpr hstage, Or.inr ⟨rfl, rfl⟩⟩
  obtain ⟨action, hmeans⟩ := hread.means _ hpermits
  refine ⟨role, hrole, hread.id, fun trigger hname => ?_⟩
  obtain ⟨known, hmem, hknown⟩ := mem_knownTriggers hw hr h hstage
  obtain rfl : known = trigger := Text.ext (hknown.trans hname.symm)
  rw [hread.allows]
  refine ⟨_, hpermits, ?_⟩
  rw [← hname] at hmeans ⊢
  rw [hmeans, toRoleAction_transition hmem hmeans]

end Roles

section Published

variable {request : EmbeddedDesignCeremonyRequest} {document : CeremonyDocument}
  {draft : CeremonyDefinitionDraft}

theorem nodup_of_named {rule : TextRule} {α : Type} {name : α → Text rule} {l : List α}
    (h : (l.map fun a => (name a).asStr).Nodup) : (l.map name).Nodup := by
  apply List.Nodup.of_map Text.asStr
  rwa [List.map_map]

theorem mem_of_named {rule : TextRule} {α : Type} {name : α → Text rule} {l : List α}
    {t : Text rule} (h : t.asStr ∈ l.map fun a => (name a).asStr) : t ∈ l.map name := by
  obtain ⟨a, ha, hname⟩ := List.mem_map.mp h
  exact List.mem_map.mpr ⟨a, ha, Text.ext hname⟩

variable (h : Accepted request) (hw : Written request document) (hr : ReadOff document draft)

include h hw hr

theorem inputs_unique : (draft.inputs.map CeremonyInputDefinition.name).Nodup := by
  have hinputs := hr.inputs
  rw [hw.inputs] at hinputs
  simp only [InputsDocument.intoDomain, except_bind_eq_ok] at hinputs
  obtain ⟨required, hrequired, optional, hoptional, hdone⟩ := hinputs
  have hview (requirement : InputRequirement) (raw : String) (input : CeremonyInputDefinition)
      (hnew : ((Text.new raw).map fun name => (⟨name, requirement⟩ : CeremonyInputDefinition)) =
        .ok input) : input.name.asStr = trim raw := by
    obtain ⟨name, hname, rfl⟩ := except_map_eq_ok.mp hnew
    exact text_new_ok hname
  apply nodup_of_named
  rw [← Except.ok.inj hdone, List.map_append, map_of_mapM_ok (hview .required) hrequired,
    map_of_mapM_ok (hview .optional) hoptional]
  simpa [Function.comp_def, trim_trim] using h.inputs

omit h in
theorem outputs_unique : (draft.outputs.map CeremonyOutputDefinition.name).Nodup := by
  have hview (raw : String) (output : CeremonyOutputDefinition)
      (hnew : CeremonyOutputDefinition.mk <$> Text.new raw = .ok output) :
      output.name.asStr = trim raw := by
    obtain ⟨name, hname, rfl⟩ := except_map_eq_ok.mp hnew
    exact text_new_ok hname
  have htrim : ∀ name ∈ document.outputs.keys, trim name = name := by
    intro name hname
    rw [hw.outputs, OrdMap.mem_keys] at hname
    obtain ⟨value, hvalue⟩ := OrdMap.mem_of_contains_ofList hname
    obtain ⟨output, -, hpair⟩ := List.mem_map.mp hvalue
    rw [← (Prod.mk.inj hpair).1, trim_trim]
  apply nodup_of_named
  rw [map_of_mapM_ok hview hr.outputs, List.map_congr_left htrim, List.map_id']
  exact document.outputs.nodup_keys

theorem stateId_mem {stateId : StateId} (hmem : stateId.asStr ∈ places request) :
    stateId ∈ draft.states.map CeremonyState.id :=
  mem_of_named (by rwa [states_named h hw hr])

omit h in
theorem stepId_mem {stepId : StepId} (hmem : stepId.asStr ∈ stageIds request) :
    stepId ∈ draft.steps.map CeremonyStep.id :=
  mem_of_named (by rwa [steps_named hw hr])

theorem guardName_mem {k : Nat} {stage : StageIntent} (hstage : request.stages[k]? = some stage)
    {guardName : GuardName} (hmem : guardName.asStr ∈ request.transitionGuards k stage) :
    guardName ∈ draft.guards.map CeremonyGuard.name := by
  have hentry : ∃ doc, (guardName.asStr, doc) ∈ stageGuards request (k, stage) := by
    rcases mem_transitionGuards.mp hmem with hname | ⟨approval, happroval, hname⟩
    · exact ⟨_, mem_stageGuards.mpr (Or.inl ⟨hname, rfl⟩)⟩
    · exact ⟨_, mem_stageGuards.mpr (Or.inr ⟨approval, happroval, hname, rfl⟩)⟩
  obtain ⟨doc, hdoc⟩ := hentry
  obtain ⟨guard, hguard, hname⟩ := guard_named h hw hr hstage hdoc
  exact List.mem_map.mpr ⟨guard, hguard, Text.ext hname⟩

theorem transitions_leave :
    draft.transitions.map (fun t => t.fromState.asStr) = request.stageStateIds := by
  apply List.ext_getElem?
  intro k
  rw [List.getElem?_map, EmbeddedDesignCeremonyRequest.stageStateIds, List.getElem?_map]
  cases hstage : request.stages[k]? with
  | none =>
    have hlength := length_transitions hw hr
    rw [List.getElem?_eq_none_iff] at hstage
    rw [List.getElem?_eq_none (by omega)]
    rfl
  | some stage =>
    obtain ⟨t, ht, hmoves⟩ := transition_of_stage h hw hr hstage
    rw [ht, Option.map_some, Option.map_some, hmoves.fromState]

theorem mem_transition {t : CeremonyTransition} (ht : t ∈ draft.transitions) :
    ∃ k stage, request.stages[k]? = some stage ∧ MovesOut request k stage t := by
  obtain ⟨k, hk⟩ := List.mem_iff_getElem?.mp ht
  obtain ⟨stage, hstage, hmoves⟩ := stage_of_transition h hw hr hk
  exact ⟨k, stage, hstage, hmoves⟩

theorem one_initial : ∃! state, state ∈ draft.states ∧ state.isInitial = true := by
  have hlength : 0 < (places request).length := by simp [places]
  obtain ⟨first, hfirst⟩ : ∃ first, (places request)[0]? = some first :=
    ⟨_, List.getElem?_eq_getElem hlength⟩
  have hmem := List.mem_of_getElem? hfirst
  rw [← states_named h hw hr] at hmem
  obtain ⟨state, hs, hid⟩ := List.mem_map.mp hmem
  have hname : (places request)[0]? = some state.id.asStr := by rw [hfirst, hid]
  refine ⟨state, ⟨hs, (initial_iff h hw hr hs).mpr hname⟩, ?_⟩
  rintro other ⟨ho, hinitial⟩
  have hother := (initial_iff h hw hr ho).mp hinitial
  have hnodup : (draft.states.map fun state => state.id.asStr).Nodup := by
    rw [states_named h hw hr]
    exact places_nodup h
  exact List.inj_on_of_nodup_map hnodup ho hs (Option.some.inj (hother.symm.trans hname))

theorem step_places {step : CeremonyStep} (hstep : step ∈ draft.steps) :
    step.stateId.asStr ∈ request.stageStateIds := by
  rw [← steps_placed h hw hr]
  exact List.mem_map_of_mem hstep

theorem wellFormed : WellFormed draft.inputs draft.outputs draft.states draft.transitions draft.steps
    draft.guards draft.roles where
  inputs_unique := inputs_unique h hw hr
  outputs_unique := outputs_unique hw hr
  states_unique := nodup_of_named (by rw [states_named h hw hr]; exact places_nodup h)
  steps_unique := nodup_of_named (by rw [steps_named hw hr]; exact h.distinct)
  guards_unique := nodup_of_named (by rw [guards_named h hw hr]; exact document.guards.nodup_keys)
  roles_unique := nodup_of_named (by rw [roles_named hw hr]; exact h.roles)
  one_initial := one_initial h hw hr
  endpoints := by
    intro t ht
    obtain ⟨k, stage, hstage, hmoves⟩ := mem_transition h hw hr ht
    constructor
    · apply stateId_mem h hw hr
      rw [hmoves.fromState, places, List.mem_append]
      exact Or.inl (List.mem_map_of_mem (List.mem_of_getElem? hstage))
    · apply stateId_mem h hw hr
      rw [hmoves.toState]
      exact List.mem_of_getElem? (getElem?_nextPlace hstage)
  guarded := by
    intro t ht guardName hguard
    obtain ⟨k, stage, hstage, hmoves⟩ := mem_transition h hw hr ht
    exact guardName_mem h hw hr hstage ((hmoves.guards guardName).mp hguard)
  placed := by
    intro step hstep
    apply stateId_mem h hw hr
    rw [places, List.mem_append]
    exact Or.inl (step_places h hw hr hstep)
  watched := by
    intro guard hguard stepId hwatch
    rcases guard_checks h hw hr hguard with ⟨stage, hstage, -, id, hid, hcondition⟩ |
      ⟨approval, -, -, hcondition⟩
    · rw [hcondition] at hwatch
      obtain rfl := Option.some.inj hwatch
      apply stepId_mem hw hr
      rw [hid]
      exact List.mem_map_of_mem hstage
    · rw [hcondition] at hwatch
      simp [GuardCondition.referencedStepId] at hwatch
  step_actions := by
    intro role hrole stepId hallows
    obtain ⟨raw, hpermits, hmeans⟩ := ((roleRead_of_mem hw hr hrole).allows _).mp hallows
    rcases action_known hw hr h hpermits hmeans with ⟨known, hmem, haction⟩ | ⟨_, -, haction⟩ |
      haction | haction
    · obtain rfl := RoleAction.step.inj haction
      exact OrdSet.mem_keys_ofList.mp hmem
    all_goals simp at haction
  transition_actions := by
    intro role hrole trigger hallows
    obtain ⟨raw, hpermits, hmeans⟩ := ((roleRead_of_mem hw hr hrole).allows _).mp hallows
    rcases action_known hw hr h hpermits hmeans with ⟨_, -, haction⟩ | ⟨known, hmem, haction⟩ |
      haction | haction
    · simp at haction
    · obtain rfl := RoleAction.transition.inj haction
      exact OrdSet.mem_keys_ofList.mp hmem
    all_goals simp at haction
  terminal := by
    intro state hstate hterminal
    have hname := (terminal_iff h hw hr hstate).mp hterminal
    constructor
    · intro t ht hfrom
      obtain ⟨k, stage, hstage, hmoves⟩ := mem_transition h hw hr ht
      apply stageStateId_ne_completed h (List.mem_of_getElem? hstage)
      rw [← hmoves.fromState, hfrom, hname]
    · intro step hstep hplace
      apply stageState_ne_completed h (step_places h hw hr hstep)
      rw [hplace, hname]
  unambiguous := by
    apply List.Nodup.of_map fun key : StateId × TransitionTrigger => key.1.asStr
    rw [List.map_map]
    have hleave := transitions_leave h hw hr
    have hnodup := (List.nodup_append'.mp (places_nodup h)).1
    rw [← hleave] at hnodup
    exact hnodup

end Published

end Choreographer.DesignedCeremonies
