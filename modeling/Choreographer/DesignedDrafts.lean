import Choreographer.Designs

namespace Choreographer.DesignedDrafts

open Choreographer.Lib.SortedMaps Choreographer.Lib.Updates
open Choreographer.Texts Choreographer.Values Choreographer.Steps Choreographer.DefinitionParts
open Choreographer.Definition Choreographer.Drafts Choreographer.Designs

section Gate

variable {α : Type} {e : String} {u : Unit}

@[simp] theorem told_eq_ok {x : Except DomainError α} {a : α} : told x = .ok a ↔ x = .ok a :=
  mapError_eq_ok

theorem text_new_ok {rule : TextRule} {raw : String} {t : Text rule} (h : Text.new raw = .ok t) :
    t.asStr = trim raw := (TextRule.check_ok.mp (Text.new_eq_ok.mp h)).1

theorem asStr_of_new_trim {rule : TextRule} {raw : String} {t : Text rule}
    (h : Text.new (trim raw) = .ok t) : t.asStr = trim raw := by
  rw [text_new_ok h, trim_trim]

theorem rejectDuplicatesAfter_ok {field : String} {values : List String} {seen : OrdSet String} :
    rejectDuplicatesAfter field seen values = .ok u ↔
      values.Nodup ∧ ∀ value ∈ values, seen.contains value = false := by
  induction values generalizing seen with
  | nil => simp [rejectDuplicatesAfter]
  | cons value rest ih =>
    rw [rejectDuplicatesAfter]
    split
    · next h => simp [h]
    · next h =>
      rw [ih, List.nodup_cons]
      simp only [OrdSet.contains_add, Bool.or_eq_false_iff, decide_eq_false_iff_not,
        List.mem_cons, forall_eq_or_imp, h, true_and]
      constructor
      · rintro ⟨hnodup, hfresh⟩
        exact ⟨⟨fun hmem => (hfresh value hmem).1 rfl, hnodup⟩, fun v hv => (hfresh v hv).2⟩
      · rintro ⟨⟨hnot, hnodup⟩, hunseen⟩
        exact ⟨hnodup, fun v hv => ⟨fun he => hnot (he ▸ hv), hunseen v hv⟩⟩

theorem rejectDuplicates_ok {field : String} {values : List String} :
    rejectDuplicates values field = .ok u ↔ values.Nodup := by
  rw [rejectDuplicates, rejectDuplicatesAfter_ok]
  simp [OrdMap.contains]

theorem validateNames_ok {values : List String} {field : String}
    {make : String → Except DomainError α} (h : validateNames values field make = .ok u) :
    (values.map trim).Nodup := by
  obtain ⟨_, -, h⟩ := except_bind_eq_ok.mp h
  exact rejectDuplicates_ok.mp h

theorem rejectOverlap_ok {left right : List String} {leftName rightName : String}
    (h : rejectOverlap left right leftName rightName = .ok u) :
    ∀ value ∈ right.map trim, value ∉ left.map trim := by
  unfold rejectOverlap at h
  split at h
  · next hnone =>
    intro value hvalue
    simpa using List.find?_eq_none.mp hnone value hvalue
  · simp at h

/-- What the gate makes sure of for one stage. -/
structure StageAccepted (participants : List String) (stage : StageIntent) : Prop where
  named : ∃ stepId : StepId, Text.new stage.id = .ok stepId
  owned : trim stage.ownerRoleId ∈ participants
  instructed : trim stage.instructions ≠ ""
  handled : ∃ kind : StepHandlerKind, Text.new stage.handler = .ok kind
  staffed : stage.numAgents ≠ 0

theorem validateStage_ok {participants : List String} {index : Nat} {stage : StageIntent}
    {stageId : String} (h : validateStage participants index stage = .ok stageId) :
    StageAccepted participants stage ∧ stageId = trim stage.id := by
  simp only [validateStage, requireNonBlank, except_bind_eq_ok, told_eq_ok, require_eq_ok] at h
  obtain ⟨stepId, hid, _, -, _, howned, _, hinstructed, kind, hkind, _, hstaffed, _, -, hdone⟩ := h
  refine ⟨⟨⟨stepId, hid⟩, by simpa using howned, by simpa using hinstructed, ⟨kind, hkind⟩,
    by simpa using hstaffed⟩, ?_⟩
  rw [← Except.ok.inj hdone, text_new_ok hid]

theorem validateStages_ok {participants : List String} {index : Nat} {stages : List StageIntent}
    {stageIds : List String} (h : validateStages participants index stages = .ok stageIds) :
    (∀ stage ∈ stages, StageAccepted participants stage) ∧
      stageIds = stages.map fun stage => trim stage.id := by
  induction stages generalizing index stageIds with
  | nil =>
    obtain rfl := Except.ok.inj h
    simp
  | cons stage rest ih =>
    simp only [validateStages, except_bind_eq_ok] at h
    obtain ⟨stageId, hstage, restIds, hrest, hdone⟩ := h
    obtain ⟨haccepted, rfl⟩ := validateStage_ok hstage
    obtain ⟨hall, rfl⟩ := ih hrest
    refine ⟨List.forall_mem_cons.mpr ⟨haccepted, hall⟩, (Except.ok.inj hdone).symm⟩

theorem validateCollisions_ok {stageIds : List String} (h : validateCollisions stageIds = .ok u) :
    ∀ stageId ∈ stageIds, stageId ∉ stageIds.map completion ∧ isCapability stageId = false := by
  unfold validateCollisions at h
  split at h
  · next hnone =>
    intro stageId hmem
    have hfree := List.find?_eq_none.mp hnone stageId hmem
    simpa using hfree
  · simp at h

/-- What the gate makes sure of for the approval at the end. -/
structure ApprovalAccepted (participants stageIds : List String) (approval : FinalApprovalIntent) :
    Prop where
  known : trim approval.roleId ∈ participants
  guardFree : trim approval.guardName ∉ stageIds.map completion
  triggerFree : trim approval.trigger ∉ stageIds.map completion
  noStage : trim approval.trigger ∉ stageIds
  noCapability : isCapability (trim approval.trigger) = false

theorem validateApproval_ok {participants stageIds : List String} {approval : FinalApprovalIntent}
    (h : validateApproval participants stageIds approval = .ok u) :
    ApprovalAccepted participants stageIds approval := by
  simp only [validateApproval, except_bind_eq_ok, told_eq_ok, require_eq_ok] at h
  obtain ⟨_, -, _, hknown, _, -, _, -, _, hguard, htrigger⟩ := h
  simp only [Bool.not_eq_true', Bool.or_eq_false_iff, List.contains_eq_mem,
    decide_eq_false_iff_not, decide_eq_true_eq] at hknown hguard htrigger
  exact ⟨hknown, hguard, htrigger.1.1, htrigger.1.2, htrigger.2⟩

theorem forM_ok {f : α → Except String Unit} {l : List α} (h : l.forM f = .ok u) :
    ∀ a ∈ l, f a = .ok () := by
  induction l with
  | nil => simp
  | cons a rest ih =>
    rw [List.forM_eq_forM, List.forM_cons, except_bind_eq_ok] at h
    obtain ⟨_, hfirst, hrest⟩ := h
    exact List.forall_mem_cons.mpr ⟨hfirst, ih hrest⟩

def participantIds (request : EmbeddedDesignCeremonyRequest) : List String :=
  request.participants.map fun participant => trim participant.roleId

def stageIds (request : EmbeddedDesignCeremonyRequest) : List String :=
  request.stages.map fun stage => trim stage.id

/-- What is true of a design that passes the gate. -/
structure Accepted (request : EmbeddedDesignCeremonyRequest) : Prop where
  someStage : request.stages ≠ []
  inputs : (request.requiredInputs.map trim ++ request.optionalInputs.map trim).Nodup
  roles : (participantIds request).Nodup
  stages : ∀ stage ∈ request.stages, StageAccepted (participantIds request) stage
  distinct : (stageIds request).Nodup
  unreserved : ∀ stageId ∈ stageIds request, eqIgnoreAsciiCase stageId "completed" = false
  separate : ∀ stageId ∈ stageIds request,
    stageId ∉ (stageIds request).map completion ∧ isCapability stageId = false
  approval : ∀ approval ∈ request.finalApproval,
    ApprovalAccepted (participantIds request) (stageIds request) approval
  active : ∀ participant ∈ request.participants, participant.capabilities ≠ [] ∨
    request.ownsStage (trim participant.roleId) = true ∨
    request.ownsApproval (trim participant.roleId) = true

theorem validateIntent_ok {request : EmbeddedDesignCeremonyRequest}
    (h : request.validateIntent = .ok u) : Accepted request := by
  simp only [EmbeddedDesignCeremonyRequest.validateIntent, except_bind_eq_ok, told_eq_ok,
    require_eq_ok] at h
  obtain ⟨_, -, _, -, _, -, _, -, _, -, _, hstages, _, -, _, -, _, hrequired, _, hoptional, _, -,
    _, hoverlap, ids, hids, _, hroles, stages, hvalid, _, hdistinct, _, hreserved, _, hcollide, _,
    happroval, hactive⟩ := h
  have hparticipants : ids.map Text.asStr = participantIds request := by
    rw [map_of_mapM_ok (fun _ _ => text_new_ok) hids, List.map_map]
    rfl
  rw [hparticipants] at hroles hvalid happroval
  obtain ⟨haccepted, rfl⟩ := validateStages_ok hvalid
  constructor
  · simpa using hstages
  · rw [List.nodup_append']
    exact ⟨validateNames_ok hrequired, validateNames_ok hoptional,
      fun value hleft hright => rejectOverlap_ok hoverlap value hright hleft⟩
  · exact rejectDuplicates_ok.mp hroles
  · exact haccepted
  · exact rejectDuplicates_ok.mp hdistinct
  · simpa [stageIds] using hreserved
  · exact validateCollisions_ok hcollide
  · intro approval hsome
    rw [Option.mem_def.mp hsome] at happroval
    exact validateApproval_ok happroval
  · intro participant hmem
    have hone := forM_ok hactive participant hmem
    simp only [EmbeddedDesignCeremonyRequest.validateParticipant, require_eq_ok] at hone
    by_cases hcapable : participant.capabilities = []
    · simp only [hcapable, List.isEmpty_nil, Bool.true_and, Bool.not_and, Bool.not_not,
        Bool.or_eq_true] at hone
      exact Or.inr hone
    · exact Or.inl hcapable

end Gate

section Documents

variable {request : EmbeddedDesignCeremonyRequest} {index : Nat} {stages : List StageIntent}
  {before after : Topology}

theorem grant_eq_some {roleId action : String} {actions actions' : Buckets} :
    grant roleId action actions = some actions' ↔ ∃ bucket, actions.get? roleId = some bucket ∧
      actions' = actions.insert roleId (OrdSet.add action bucket) := by
  simp only [grant, Option.bind_eq_bind, Option.bind_eq_some_iff, Option.pure_def,
    Option.some.injEq, eq_comm (a := actions')]

/-- What a role may do. -/
def MayDo (actions : Buckets) (roleId action : String) : Prop :=
  ∃ bucket, actions.get? roleId = some bucket ∧ bucket.contains action = true

theorem mayDo_grant {roleId action : String} {actions actions' : Buckets}
    (h : grant roleId action actions = some actions') (r a : String) :
    MayDo actions' r a ↔ MayDo actions r a ∨ (r = roleId ∧ a = action) := by
  obtain ⟨bucket, hbucket, rfl⟩ := grant_eq_some.mp h
  unfold MayDo
  rw [OrdMap.get?_insert]
  by_cases hr : r = roleId
  · subst hr
    simp [hbucket, OrdSet.contains_add, or_comm]
  · simp [hr]

theorem contains_grant {roleId action : String} {actions actions' : Buckets}
    (h : grant roleId action actions = some actions') (r : String) :
    actions'.contains r = actions.contains r := by
  obtain ⟨bucket, hbucket, rfl⟩ := grant_eq_some.mp h
  rw [OrdMap.contains_insert]
  by_cases hr : r = roleId
  · simp [hr, OrdMap.contains, hbucket]
  · simp [hr]

def numbered (index : Nat) (stages : List StageIntent) : List (Nat × StageIntent) :=
  stages.mapIdx fun k stage => (index + k, stage)

theorem numbered_cons (index : Nat) (stage : StageIntent) (stages : List StageIntent) :
    numbered index (stage :: stages) = (index, stage) :: numbered (index + 1) stages := by
  simp only [numbered, List.mapIdx_cons, Nat.add_zero, List.cons.injEq, true_and]
  congr 1
  funext k stage
  rw [Nat.add_assoc, Nat.add_comm 1]

theorem getElem?_numbered {k : Nat} : (numbered 0 stages)[k]? = stages[k]?.map fun s => (k, s) := by
  simp [numbered]

/-- Who may do what by the stages. -/
def Assigns (request : EmbeddedDesignCeremonyRequest) (stages : List (Nat × StageIntent))
    (roleId action : String) : Prop :=
  ∃ p ∈ stages, (roleId = trim p.2.ownerRoleId ∧ action = trim p.2.id) ∨
    (roleId = request.transitionOwner p.1 p.2 ∧ action = request.transitionTrigger p.1 p.2)

theorem writeStages_some (h : request.writeStages index stages before = some after) :
    after.transitions = before.transitions ++
        (numbered index stages).map (fun p => request.transitionDocument p.1 p.2) ∧
      after.steps = before.steps ++ (numbered index stages).map (fun p => stepDocument p.1 p.2) ∧
      after.guards = (numbered index stages).foldl
        (fun guards p => request.withStageGuards p.1 p.2 guards) before.guards ∧
      (∀ r, after.actions.contains r = before.actions.contains r) ∧
      ∀ r a, MayDo after.actions r a ↔
        MayDo before.actions r a ∨ Assigns request (numbered index stages) r a := by
  induction stages generalizing index before with
  | nil =>
    obtain rfl := Option.some.inj h
    simp [numbered, Assigns]
  | cons stage rest ih =>
    simp only [EmbeddedDesignCeremonyRequest.writeStages,
      EmbeddedDesignCeremonyRequest.writeStage, Option.bind_eq_bind, Option.bind_eq_some_iff] at h
    obtain ⟨middle, ⟨first, hfirst, second, hsecond, hmiddle⟩, h⟩ := h
    obtain rfl := Option.some.inj hmiddle
    obtain ⟨htransitions, hsteps, hguards, hroles, hactions⟩ := ih h
    rw [numbered_cons]
    refine ⟨?_, ?_, ?_, fun r => ?_, fun r a => ?_⟩
    · rw [htransitions, List.map_cons, List.append_assoc, List.singleton_append]
    · rw [hsteps, List.map_cons, List.append_assoc, List.singleton_append]
    · rw [hguards, List.foldl_cons]
    · rw [hroles, contains_grant hsecond, contains_grant hfirst]
    · rw [hactions, mayDo_grant hsecond, mayDo_grant hfirst]
      simp only [Assigns, List.mem_cons, exists_eq_or_imp, or_assoc]

theorem writeRoles_some {roleIds : List String} {actions : Buckets} {roles : List RoleDocument}
    (hnodup : roleIds.Nodup) (h : writeRoles roleIds actions = some roles) :
    roles.map RoleDocument.id = roleIds ∧
      ∀ role ∈ roles, ∃ bucket, actions.get? role.id = some bucket ∧
        role.allowedActions = bucket.keys := by
  induction roleIds generalizing actions roles with
  | nil =>
    obtain rfl := Option.some.inj h
    simp
  | cons roleId rest ih =>
    simp only [writeRoles, Option.bind_eq_bind, Option.bind_eq_some_iff] at h
    obtain ⟨bucket, hbucket, others, hothers, hdone⟩ := h
    obtain rfl := Option.some.inj hdone
    obtain ⟨hnot, hnodup⟩ := List.nodup_cons.mp hnodup
    obtain ⟨hids, hall⟩ := ih hnodup hothers
    refine ⟨by simp [hids], List.forall_mem_cons.mpr ⟨⟨bucket, hbucket, rfl⟩, fun role hrole => ?_⟩⟩
    obtain ⟨own, hown, hactions⟩ := hall role hrole
    rw [OrdMap.get?_erase] at hown
    split_ifs at hown
    exact ⟨own, hown, hactions⟩

/-- What a role may do by itself. -/
def Capable (request : EmbeddedDesignCeremonyRequest) (roleId action : String) : Prop :=
  ∃ participant ∈ request.participants, trim participant.roleId = roleId ∧
    action ∈ participant.capabilities.map ParticipantCapability.asAction

theorem mayDo_buckets (hnodup : (participantIds request).Nodup) (roleId action : String) :
    MayDo request.capabilityBuckets roleId action ↔ Capable request roleId action := by
  unfold MayDo EmbeddedDesignCeremonyRequest.capabilityBuckets
  have hget (bucket : OrdSet String) : (OrdMap.ofList (request.participants.map fun participant =>
      (trim participant.roleId,
        OrdSet.ofList (participant.capabilities.map ParticipantCapability.asAction)))).get? roleId =
          some bucket ↔ ∃ participant ∈ request.participants, trim participant.roleId = roleId ∧
            OrdSet.ofList (participant.capabilities.map ParticipantCapability.asAction) = bucket := by
    rw [OrdMap.get?_ofList_of_agree, List.mem_map]
    · simp only [Prod.mk.injEq]
    · intro w hv hw
      obtain ⟨p, hp, hpv⟩ := List.mem_map.mp hv
      obtain ⟨q, hq, hqw⟩ := List.mem_map.mp hw
      obtain ⟨hp₁, rfl⟩ := Prod.mk.inj hpv
      obtain ⟨hq₁, rfl⟩ := Prod.mk.inj hqw
      rw [List.inj_on_of_nodup_map hnodup hp hq (hp₁.trans hq₁.symm)]
  constructor
  · rintro ⟨bucket, hbucket, hmem⟩
    obtain ⟨participant, hp, hrole, rfl⟩ := (hget bucket).mp hbucket
    exact ⟨participant, hp, hrole, OrdSet.mem_keys_ofList.mp (OrdMap.mem_keys.mpr hmem)⟩
  · rintro ⟨participant, hp, hrole, hmem⟩
    exact ⟨_, (hget _).mpr ⟨participant, hp, hrole, rfl⟩,
      OrdMap.mem_keys.mp (OrdSet.mem_keys_ofList.mpr hmem)⟩

def stageGuards (request : EmbeddedDesignCeremonyRequest) (p : Nat × StageIntent) :
    List (String × GuardDocument) :=
  (completion (trim p.2.id), completionGuard (trim p.2.id)) ::
    (request.approvalAfter p.1).toList.map fun approval => (trim approval.guardName, humanGuard)

theorem foldl_withStageGuards (stages : List (Nat × StageIntent))
    (guards : OrdMap String GuardDocument) :
    stages.foldl (fun guards p => request.withStageGuards p.1 p.2 guards) guards =
      (stages.flatMap (stageGuards request)).foldl (fun m e => m.insert e.1 e.2) guards := by
  induction stages generalizing guards with
  | nil => rfl
  | cons p rest ih =>
    rw [List.foldl_cons, ih, List.flatMap_cons, List.foldl_append]
    congr 1
    unfold EmbeddedDesignCeremonyRequest.withStageGuards stageGuards
    cases request.approvalAfter p.1 with
    | none => rfl
    | some approval => rfl

/-- The document of a design says what the design says. -/
structure Written (request : EmbeddedDesignCeremonyRequest) (document : CeremonyDocument) :
    Prop where
  inputs : document.inputs = ⟨request.requiredInputs.map trim, request.optionalInputs.map trim⟩
  outputs : document.outputs = OrdMap.ofList (request.outputs.map fun output =>
    (trim output, .object [("type", .string "object")]))
  states : document.states = request.writeStates
  steps : document.steps = (numbered 0 request.stages).map fun p => stepDocument p.1 p.2
  transitions : document.transitions =
    (numbered 0 request.stages).map fun p => request.transitionDocument p.1 p.2
  guards : document.guards = OrdMap.ofList ((numbered 0 request.stages).flatMap (stageGuards request))
  roles : document.roles.map RoleDocument.id = participantIds request
  actions : ∀ role ∈ document.roles, ∀ action, action ∈ role.allowedActions ↔
    Capable request role.id action ∨ Assigns request (numbered 0 request.stages) role.id action

theorem written_of_intoDocument {document : CeremonyDocument}
    (hnodup : (participantIds request).Nodup) (h : request.intoDocument = some document) :
    Written request document := by
  simp only [EmbeddedDesignCeremonyRequest.intoDocument, Option.bind_eq_bind,
    Option.bind_eq_some_iff] at h
  obtain ⟨topology, htopology, roles, hroles, hdone⟩ := h
  obtain rfl := Option.some.inj hdone
  obtain ⟨htransitions, hsteps, hguards, -, hactions⟩ := writeStages_some htopology
  obtain ⟨hids, hbuckets⟩ := writeRoles_some hnodup hroles
  constructor
  · rfl
  · rfl
  · rfl
  · simpa using hsteps
  · simpa using htransitions
  · dsimp only at hguards ⊢
    rw [hguards, foldl_withStageGuards]
    rfl
  · exact hids
  · intro role hrole action
    obtain ⟨bucket, hbucket, hkeys⟩ := hbuckets role hrole
    have hmay : MayDo topology.actions role.id action ↔ action ∈ role.allowedActions := by
      simp [MayDo, hbucket, hkeys, OrdMap.mem_keys]
    rw [← hmay, hactions, mayDo_buckets hnodup]

end Documents

section Reading

/-- A draft as it is read off a document. -/
structure ReadOff (document : CeremonyDocument) (draft : CeremonyDefinitionDraft) : Prop where
  steps : ∃ retryPolicy timeout, document.defaultPolicy.intoDomain = .ok retryPolicy ∧
    document.steps.mapM (StepDocument.intoDomain retryPolicy timeout) = .ok draft.steps
  transitions : document.transitions.mapM TransitionDocument.intoDomain = .ok draft.transitions
  guards : (document.guards.entries.mapM fun entry => GuardDocument.intoDomain entry.1 entry.2) =
    .ok draft.guards
  roles : document.roles.mapM (RoleDocument.intoDomain
    (OrdSet.ofList (draft.steps.map CeremonyStep.id))
    (OrdSet.ofList (draft.transitions.map CeremonyTransition.trigger))) = .ok draft.roles
  inputs : document.inputs.intoDomain = .ok draft.inputs
  outputs : (document.outputs.keys.mapM fun name => CeremonyOutputDefinition.mk <$> Text.new name) =
    .ok draft.outputs
  states : document.states.mapM StateDocument.intoDomain = .ok draft.states

theorem readOff_of_intoDraft {document : CeremonyDocument} {draft : CeremonyDefinitionDraft}
    (h : document.reread.intoDraft = .ok draft) : ReadOff document draft := by
  simp only [CeremonyDefinitionDocument.intoDraft, CeremonyDocument.reread, Option.map_some,
    Option.getD_some, except_bind_eq_ok] at h
  obtain ⟨retryPolicy, hpolicy, timeout, -, steps, hsteps, transitions, htransitions, guards,
    hguards, roles, hroles, name, -, version, -, description, -, inputs, hinputs, outputs, houtputs,
    states, hstates, hdone⟩ := h
  obtain rfl := Except.ok.inj hdone
  exact ⟨⟨retryPolicy, timeout, hpolicy, hsteps⟩, htransitions, hguards, hroles, hinputs, houtputs,
    hstates⟩

end Reading

section Design

variable {request : EmbeddedDesignCeremonyRequest} {yaml : Yaml}
  {designed : DesignedCeremonyDraft yaml}

theorem design_ok (hyaml : yaml.Lossless) (h : request.design yaml = some (.ok designed)) :
    Accepted request ∧
      ∃ document, Written request document ∧ ReadOff document designed.draft := by
  unfold EmbeddedDesignCeremonyRequest.design at h
  split at h
  · simp at h
  · next hvalid =>
    obtain ⟨document, hdocument, hrender⟩ := Option.map_eq_some_iff.mp h
    have haccepted := validateIntent_ok hvalid
    refine ⟨haccepted, document, written_of_intoDocument haccepted.roles hdocument, ?_⟩
    obtain ⟨text, htext, hread⟩ := hyaml document
    simp only [EmbeddedDesignCeremonyRequest.render, parseDraftStr, except_bind_eq_ok,
      mapError_eq_ok, okOr_eq_ok] at hrender
    obtain ⟨written, hwritten, draft, ⟨read, hreread, hdraft⟩, hdone⟩ := hrender
    obtain rfl := Except.ok.inj (hwritten.symm.trans htext)
    obtain rfl := Option.some.inj (hreread.symm.trans hread)
    rw [← Except.ok.inj hdone]
    exact readOff_of_intoDraft hdraft

theorem step_of_stage (hyaml : yaml.Lossless) (h : request.design yaml = some (.ok designed))
    {index : Nat} {stage : StageIntent} (hstage : request.stages[index]? = some stage) :
    StageAccepted (participantIds request) stage ∧
      ∃ step, designed.draft.steps[index]? = some step ∧ step.id.asStr = trim stage.id ∧
        step.handlerConfig.entries = stageConfig stage index := by
  obtain ⟨haccepted, document, hwritten, hread⟩ := design_ok hyaml h
  refine ⟨haccepted.stages stage (List.mem_of_getElem? hstage), ?_⟩
  obtain ⟨retryPolicy, timeout, -, hsteps⟩ := hread.steps
  have hdocument : document.steps[index]? = some (stepDocument index stage) := by
    rw [hwritten.steps, List.getElem?_map, getElem?_numbered, hstage]
    rfl
  obtain ⟨step, hstep, hdomain⟩ := getElem?_of_mapM_ok hsteps hdocument
  simp only [StepDocument.intoDomain, except_bind_eq_ok] at hdomain
  obtain ⟨id, hid, _, -, _, -, config, hconfig, hdone⟩ := hdomain
  refine ⟨step, hstep, ?_⟩
  rw [← Except.ok.inj hdone]
  exact ⟨asStr_of_new_trim hid, Attributes.new_eq_ok hconfig⟩

end Design

section Sketch

def verbatim : Yaml := ⟨CeremonyDocument, .ok, fun document => some document.reread⟩

theorem verbatim_lossless : verbatim.Lossless := fun document => ⟨document, rfl, rfl⟩

def sketch : EmbeddedDesignCeremonyRequest where
  name := "art"
  objective := "Compose"
  outputs := ["review"]
  participants := [{ roleId := "W", capabilities := [.respondToIntervention] }, { roleId := "A" }]
  stages := [{ id := "draw", ownerRoleId := "W", instructions := "Draw" },
    { id := "look", ownerRoleId := "A", instructions := "Look", numAgents := 2, reviewRounds := 1 }]
  finalApproval := some { roleId := "A" }

theorem sketch_designed : ∃ designed, sketch.design verbatim = some (.ok designed) := by
  have hsome : ((sketch.design verbatim).bind Except.toOption).isSome = true := by decide +kernel
  obtain ⟨designed, hdesigned⟩ := Option.isSome_iff_exists.mp hsome
  obtain ⟨result, hresult, hok⟩ := Option.bind_eq_some_iff.mp hdesigned
  cases result with
  | error e => simp [Except.toOption] at hok
  | ok other => exact ⟨other, hresult⟩

end Sketch

end Choreographer.DesignedDrafts
