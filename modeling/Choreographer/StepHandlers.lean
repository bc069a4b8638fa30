import Choreographer.DeliberationSteps
import Choreographer.DeliberationStreams
import Choreographer.EvidenceGates
import Choreographer.JsonTexts
import Choreographer.Lib.Runs
import Choreographer.Testimony
import Choreographer.UseCases

namespace Choreographer.StepHandlers

open Choreographer.Lib.SortedMaps Choreographer.Lib.Updates Choreographer.Lib.Programs
open Choreographer.Lib.Padding Choreographer.Lib.Runs
open Choreographer.Texts Choreographer.Values Choreographer.Contracts Choreographer.Steps
open Choreographer.DefinitionParts Choreographer.Definition Choreographer.Agenda
open Choreographer.Instance Choreographer.Operations Choreographer.Deliberations
open Choreographer.Deliberate Choreographer.WinnerSelection Choreographer.CouncilRuns
open Choreographer.DeliberationStreams Choreographer.StepConfig Choreographer.DeliberationSteps
open Choreographer.JsonTexts
open Choreographer.DesignedDrafts (text_new_ok)
open Choreographer.EvidenceGates (jsonNat)
open Choreographer.SessionJournal (CeremonyStepHandlerRequest CeremonyStepContribution)
open Choreographer.SessionJournal (CeremonyTranscript)
open Choreographer.Testimony (enter warden owner hazard fenced cleared)
open Choreographer.UseCases (handlerRequest)

section Brief

variable (floats : Floats)

def winnerContentKey : String := "winner_content"

def maxRenderedContributionLen : Nat := 4000

def truncate (text : String) (max : Nat) : String :=
  if text.toList.length ≤ max then text else String.ofList (text.toList.take max) ++ "…"

def valueText (value : Value) : String := String.ofList (write floats value)

/-- What was put into the session when it began. A flag is no part of the brief. -/
def briefLine (entry : String × Value) : String :=
  match entry.2 with
  | .bool _ => ""
  | .string text => "- " ++ entry.1 ++ ": " ++ truncate text maxRenderedContributionLen ++ "\n"
  | value =>
    "- " ++ entry.1 ++ ": " ++ truncate (valueText floats value) maxRenderedContributionLen ++ "\n"

def renderBrief (attributes : Attributes) : String :=
  String.join (attributes.entries.entries.map (briefLine floats))

def saidBy (contribution : CeremonyStepContribution) : String :=
  ((contribution.output.attributes.get winnerContentKey).bind Value.asStr).getD
    "(no content recorded)"

def contributionLine (contribution : CeremonyStepContribution) : String :=
  "- " ++ contribution.roleId.asStr ++ " (" ++ contribution.stepId.asStr ++ "): " ++
    truncate (saidBy contribution) maxRenderedContributionLen ++ "\n"

/-- A request is for those who made it and those it is put to. An executor without a role
sees them all. -/
def isVisible (roleId : Option RoleId) (item : CeremonyIntervention) : Bool :=
  match roleId with
  | none => true
  | some roleId => decide (item.requestedBy = roleId) || item.target.accepts roleId

def targetText : CeremonyInterventionTarget → String
  | .table => "the whole table"
  | .roles roleIds => String.intercalate ", " (roleIds.keys.map Text.asStr)

def statusLabel : CeremonyInterventionStatus → String
  | .opened => "open"
  | .closed => "closed"

def kindLabel : CeremonyInterventionKind → String
  | .opinion => "opinion"
  | .investigation => "investigation"
  | .action => "action"

def renderInterventionDetails (label : String) (details : Attributes) : String :=
  if details.entries.entries.isEmpty then ""
  else "    " ++ label ++ ": " ++
    truncate (valueText floats (.object details.entries.entries)) maxRenderedContributionLen ++ "\n"

def responseText (response : CeremonyInterventionResponse) : String :=
  "  - " ++ response.roleId.asStr ++ " responded: " ++
    truncate response.content.message.asStr maxRenderedContributionLen ++ "\n" ++
    renderInterventionDetails floats "response details" response.content.details

def requestLine (item : CeremonyIntervention) : String :=
  "- [" ++ statusLabel item.status ++ "] " ++ kindLabel item.kind ++ " requested by " ++
    item.requestedBy.asStr ++ " for " ++ targetText item.target ++ ": " ++
    truncate item.request.message.asStr maxRenderedContributionLen ++ "\n"

def interventionText (item : CeremonyIntervention) : String :=
  requestLine item ++ (renderInterventionDetails floats "request details" item.request.details ++
    String.join (item.responses.map (responseText floats)))

def renderInterventions (request : CeremonyStepHandlerRequest) : String :=
  let visible := request.interventions.filter (isVisible request.roleId)
  if visible.isEmpty then ""
  else "\nLive participant requests:\n" ++ String.join (visible.map (interventionText floats))

def openingLine (request : CeremonyStepHandlerRequest) : String :=
  match request.roleId with
  | some role => "You are acting as " ++ role.asStr ++ " in the \"" ++
      request.definitionName.asStr ++ "\" ceremony (current stage: " ++
      request.currentState.asStr ++ ").\n"
  | none => "You are a participant in the \"" ++ request.definitionName.asStr ++
      "\" ceremony (current stage: " ++ request.currentState.asStr ++ ").\n"

def missionText (attributes : Attributes) : String :=
  let brief := renderBrief floats attributes
  if brief = "" then "" else "\nMission brief:\n" ++ brief

def meetingText (request : CeremonyStepHandlerRequest) (config : DeliberationStepConfig) : String :=
  if config.seePrior && !request.transcript.isEmpty then
    "\nThe meeting so far:\n" ++ String.join (request.transcript.map contributionLine)
  else ""

def descriptionText (request : CeremonyStepHandlerRequest) (config : DeliberationStepConfig) :
    String :=
  openingLine request ++ missionText floats request.context.attributes ++
    meetingText request config ++ renderInterventions floats request ++ "\nYour task now: " ++
    config.taskDescription.asStr

def buildDescription (request : CeremonyStepHandlerRequest) (config : DeliberationStepConfig) :
    Except DomainError TaskDescription :=
  TaskDescription.new (descriptionText floats request config)

end Brief

section Handler

variable (floats : Floats)

def taskIdText (request : CeremonyStepHandlerRequest) : String :=
  "ceremony-" ++ request.instanceId.asStr ++ "-" ++ request.stepId.asStr ++ "-" ++
    request.attempt.get.val.repr

def taskIdFrom (request : CeremonyStepHandlerRequest) : Except DomainError TaskId :=
  Text.new (taskIdText request)

def taskAttributes (request : CeremonyStepHandlerRequest) (config : DeliberationStepConfig) :
    OrdMap String Value :=
  request.context.attributes.entries
    |>.insert "ceremony.instance_id" (.string request.instanceId.asStr)
    |>.insert "ceremony.definition_name" (.string request.definitionName.asStr)
    |>.insert "ceremony.definition_version" (.string request.definitionVersion.asStr)
    |>.insert "ceremony.current_state" (.string request.currentState.asStr)
    |>.insert "ceremony.step_id" (.string request.stepId.asStr)
    |>.insert "ceremony.handler_kind" (.string request.handlerKind.asStr)
    |>.insert "ceremony.deliberation_specialty" (.string config.specialty.asStr)
    |>.insert "ceremony.attempt" (jsonNat request.attempt.get.val)

def constraintsFrom (config : DeliberationStepConfig) : TaskConstraints :=
  ⟨config.rounds.get, config.numAgents.map NumAgents.get, config.outputContract⟩

def taskFrom (request : CeremonyStepHandlerRequest) (config : DeliberationStepConfig) :
    Except DomainError Task := do
  let id ← taskIdFrom request
  let description ← buildDescription floats request config
  let attributes ← Attributes.new (taskAttributes request config)
  pure ⟨id, request.boundSpecialty.getD config.specialty, description.asStr, constraintsFrom config,
    attributes, none, ⟨none, none, none, Attributes.empty⟩⟩

def outputAttributes (request : CeremonyStepHandlerRequest) (winnerProposalId : ProposalId)
    (winnerContent : String) (candidatesTotal : Nat) : OrdMap String Value :=
  OrdMap.ofList [("task_id", .string (taskIdText request)),
    ("winner_proposal_id", .string winnerProposalId.asStr),
    (winnerContentKey, .string winnerContent),
    ("candidates_total", jsonNat candidatesTotal)]

def executeStep (self : DeliberateUseCase) (request : CeremonyStepHandlerRequest) :
    Council.Run StepResult := do
  let config ← checked (DeliberationStepConfig.fromRequest request)
  let task ← checked (taskFrom floats request config)
  let output ← deliberate self task
  let ranked ← checked output.deliberation.rankedOutcomes
  let winner ← checked (okOr (ranked.find? fun c => c.proposal.id = output.winnerProposalId)
    (.invariantViolated "ceremony step winner proposal is missing from ranked outcomes"))
  let attributes ← checked (Attributes.new (outputAttributes request output.winnerProposalId
    winner.proposal.content ranked.length))
  checked (StepResult.completed ⟨attributes⟩)

end Handler

section TaskIds

theorem toList_taskIdText (request : CeremonyStepHandlerRequest) :
    (taskIdText request).toList = "ceremony-".toList ++ request.instanceId.asStr.toList ++
      '-' :: request.stepId.asStr.toList ++ '-' :: request.attempt.get.val.repr.toList := by
  simp [taskIdText]

theorem dash_notMem_stepId (stepId : StepId) : '-' ∉ stepId.asStr.toList := by
  intro h
  have hallowed := stepId.allowed_of_mem h
  exact absurd hallowed (by decide)

/-- The id of a task starts with a letter and ends with a digit, so that nothing of it is
trimmed away. -/
theorem trim_taskIdText (request : CeremonyStepHandlerRequest) :
    trim (taskIdText request) = taskIdText request := by
  rw [← String.toList_inj, toList_trim, toList_taskIdText]
  have hne : request.attempt.get.val.repr.toList ≠ [] := by
    rw [Nat.toList_repr]
    exact Nat.toDigits_ne_nil
  obtain ⟨digits, last, hlast⟩ := (List.eq_nil_or_concat' _).resolve_left hne
  have hdigit := between_of_mem_repr (n := request.attempt.get.val) (c := last) (by simp [hlast])
  have hspace : isWhitespace last = false :=
    isWhitespace_of_between (by omega) (by omega)
  have hfirst : isWhitespace 'c' = false := by decide
  have hstrip := strip_bounded hfirst hspace ("eremony-".toList ++
    request.instanceId.asStr.toList ++ '-' :: request.stepId.asStr.toList ++ '-' :: digits)
  rw [hlast]
  have hwhole : "ceremony-".toList ++ request.instanceId.asStr.toList ++
      '-' :: request.stepId.asStr.toList ++ '-' :: (digits ++ [last]) =
      'c' :: ("eremony-".toList ++ request.instanceId.asStr.toList ++
        '-' :: request.stepId.asStr.toList ++ '-' :: digits ++ [last]) := by
    simp
  rw [hwhole, hstrip]

theorem taskIdText_inj {request request' : CeremonyStepHandlerRequest}
    (h : taskIdText request = taskIdText request') :
    request.instanceId = request'.instanceId ∧ request.stepId = request'.stepId ∧
      request.attempt = request'.attempt := by
  rw [← String.toList_inj, toList_taskIdText, toList_taskIdText] at h
  have hdash (n : Nat) : '-' ∉ n.repr.toList := notMem_repr (by decide) n
  obtain ⟨hfront, hattempt⟩ := last_sep_split (hdash _) (hdash _) h
  obtain ⟨hinstance, hstep⟩ :=
    last_sep_split (dash_notMem_stepId _) (dash_notMem_stepId _) hfront
  refine ⟨Text.ext (String.toList_inj.mp (List.append_cancel_left hinstance)),
    Text.ext (String.toList_inj.mp hstep), ?_⟩
  exact StepAttempt.ext_val (repr_injective (String.toList_inj.mp hattempt))

end TaskIds

section Outputs

variable {floats : Floats} {self : DeliberateUseCase} {request : CeremonyStepHandlerRequest}

theorem taskFrom_ok {config : DeliberationStepConfig} {task : Task}
    (h : taskFrom floats request config = .ok task) :
    taskIdFrom request = .ok task.id ∧ task.description = descriptionText floats request config ∧
      task.constraints = constraintsFrom config := by
  simp only [taskFrom, except_bind_eq_ok] at h
  obtain ⟨id, hid, description, hdescription, attributes, -, h⟩ := h
  obtain rfl := Except.ok.inj h
  exact ⟨hid, TaskDescription.new_eq_ok.mp hdescription, rfl⟩

theorem asStr_of_taskIdFrom {taskId : TaskId} (h : taskIdFrom request = .ok taskId) :
    taskId.asStr = taskIdText request := by
  rw [text_new_ok h, trim_taskIdText]

theorem found_of_sealed {d : Deliberation} {ts : List Tuple} {id : ProposalId} {c : RankedOutcome}
    (h : Sealed d ts) (hfound : (numbered ts).find? (fun c => c.proposal.id = id) = some c) :
    c.proposal.id = id ∧ d.proposals.get? id = some c.proposal ∧
      (numbered ts).length = d.proposals.keys.length := by
  have hid : c.proposal.id = id := by simpa using List.find?_some hfound
  obtain ⟨t, ht, hproposal, -⟩ := exists_of_mem_numbered (List.mem_of_find?_eq_some hfound)
  refine ⟨hid, ?_, ?_⟩
  · rw [← hid, hproposal, h.id_eq ht]
    exact (h.stored t ht).1
  · rw [← h.all.length_eq, h.ranking, numbered, List.length_mapIdx, List.length_map]

end Outputs

/-- What a step records of its deliberation can be looked up. Under the task it names,
which is that of no other attempt, step or session, the deliberation is kept; the winner
it names is the first of the ranking, and what it says is what that proposal says. Where
the step has a contract, the winner meets it. -/
theorem step_output_on_file {floats : Floats} {self : DeliberateUseCase}
    {request : CeremonyStepHandlerRequest} {result : StepResult} {w w' : World}
    (h : Returns exec (executeStep floats self request).run w (.ok result) w') :
    ∃ config taskId d ts proposal, DeliberationStepConfig.fromRequest request = .ok config ∧
      taskIdFrom request = .ok taskId ∧
      (∀ request', taskIdFrom request' = .ok taskId → request'.instanceId = request.instanceId ∧
        request'.stepId = request.stepId ∧ request'.attempt = request.attempt) ∧
      w'.repository.get? taskId = some d ∧ d.taskId = taskId ∧ Sealed d ts ∧
      d.ranking.head? = some proposal.id ∧ d.proposals.get? proposal.id = some proposal ∧
      (config.outputContract.isSome = true → Valid d proposal.id) ∧
      result.status = .completed ∧
      result.output.attributes.entries = OrdMap.ofList [("task_id", .string taskId.asStr),
        ("winner_proposal_id", .string proposal.id.asStr),
        (winnerContentKey, .string proposal.content),
        ("candidates_total", jsonNat d.proposals.keys.length)] := by
  obtain ⟨config, _, hrun₁, h₁⟩ := returns_bind_ok.mp h
  obtain ⟨hconfig, rfl⟩ := returns_ofExcept.mp hrun₁
  obtain ⟨task, _, hrun₂, h₂⟩ := returns_bind_ok.mp h₁
  obtain ⟨htask, rfl⟩ := returns_ofExcept.mp hrun₂
  obtain ⟨out, v, hdeliberate, h₃⟩ := returns_bind_ok.mp h₂
  obtain ⟨ranked, _, hrun₃, h₄⟩ := returns_bind_ok.mp h₃
  obtain ⟨hranked, rfl⟩ := returns_ofExcept.mp hrun₃
  obtain ⟨winner, _, hrun₄, h₅⟩ := returns_bind_ok.mp h₄
  obtain ⟨hwinner, rfl⟩ := returns_ofExcept.mp hrun₄
  obtain ⟨attributes, _, hrun₅, h₆⟩ := returns_bind_ok.mp h₅
  obtain ⟨hattributes, rfl⟩ := returns_ofExcept.mp hrun₅
  obtain ⟨hresult, rfl⟩ := returns_ofExcept.mp h₆
  obtain ⟨htaskId, -, hconstraints⟩ := taskFrom_ok htask.symm
  obtain ⟨_, c, hclosed, hstored, hpick, hpicked⟩ := deliberate_ok hdeliberate
  have hfirst := head_of_closed hclosed hpick
  have hvalid : config.outputContract.isSome = true → Valid out.deliberation c.proposal.id := by
    intro hsome
    obtain ⟨contract, hcontract⟩ := Option.isSome_iff_exists.mp hsome
    have hc : task.constraints.outputContract = some contract := by
      rw [hconstraints, constraintsFrom, hcontract]
    obtain ⟨sorted, hsealed, rfl, hsorted⟩ := hclosed.contract hc
    exact (bestValid hsealed hsorted hc hpick).2.1
  obtain ⟨hid, _, ts, hsealed, -⟩ := hclosed
  obtain rfl := Except.ok.inj (hranked.trans hsealed.rankedOutcomes)
  obtain ⟨hown, hproposal, htotal⟩ := found_of_sealed hsealed (okOr_eq_ok.mp hwinner.symm)
  have hsame : winner.proposal.id = c.proposal.id := hown.trans hpicked
  refine ⟨config, task.id, out.deliberation, ts, winner.proposal, hconfig.symm, htaskId, ?_, hstored,
    hid, hsealed, hsame ▸ hfirst, hown ▸ hproposal, hsame ▸ hvalid, ?_, ?_⟩
  · intro request' hrequest'
    refine taskIdText_inj ?_
    rw [← asStr_of_taskIdFrom hrequest', ← asStr_of_taskIdFrom htaskId]
  · obtain rfl := Except.ok.inj hresult
    rfl
  · obtain rfl := Except.ok.inj hresult
    change attributes.entries = _
    rw [Attributes.new_eq_ok hattributes.symm, outputAttributes, asStr_of_taskIdFrom htaskId, ← hown,
      htotal]

section Requests

variable {floats : Floats} {self : DeliberateUseCase} {d : CeremonyDefinition}
variable {i i' : CeremonyInstance} {roleId : RoleId}

/-- Calls that change nothing of what the agents of a role are told: the requests they
touch are not put to that role and were not made by it. A start, a result, a reason or a
deferral is no part of the brief, and neither is who stands in for another role. -/
def Unheard (roleId : RoleId) (i : CeremonyInstance) : Operation → Prop
  | .requestIntervention _ requestedBy _ target _ _ _ =>
    requestedBy ≠ roleId ∧ target.accepts roleId = false
  | .respondToIntervention id _ _ _ | .respondToInterventionWithEvidence id _ _ _
  | .closeIntervention id _ _ =>
    ∀ item ∈ i.interventions, item.id = id → isVisible (some roleId) item = false
  | .bindParticipant other _ _ => other ≠ roleId
  | .approveGuard .. | .applyTransition .. => False
  | _ => True

/-- Two sessions that look alike to the agents of a role. -/
structure Alike (roleId : RoleId) (i i' : CeremonyInstance) : Prop where
  ident : ident i' = ident i
  state : i'.currentState = i.currentState
  context : i'.context = i.context
  bound : i'.boundSpecialty roleId = i.boundSpecialty roleId
  visible : i'.interventions.filter (isVisible (some roleId)) =
    i.interventions.filter (isVisible (some roleId))

theorem Alike.refl (roleId : RoleId) (i : CeremonyInstance) : Alike roleId i i :=
  ⟨rfl, rfl, rfl, rfl, rfl⟩

theorem Alike.trans {i'' : CeremonyInstance} (h : Alike roleId i i') (h' : Alike roleId i' i'') :
    Alike roleId i i'' where
  ident := h'.ident.trans h.ident
  state := h'.state.trans h.state
  context := h'.context.trans h.context
  bound := h'.bound.trans h.bound
  visible := h'.visible.trans h.visible

theorem visible_replaced {before after : List CeremonyIntervention}
    {item item' : CeremonyIntervention} (hitem : i.interventions = before ++ item :: after)
    (hidden : isVisible (some roleId) item = false) (hby : item'.requestedBy = item.requestedBy)
    (htarget : item'.target = item.target) :
    (before ++ item' :: after).filter (isVisible (some roleId)) =
      i.interventions.filter (isVisible (some roleId)) := by
  have hidden' : isVisible (some roleId) item' = false := by
    rw [← hidden, isVisible, isVisible, hby, htarget]
  simp [hitem, List.filter_append, hidden, hidden']

theorem alike_effect {op : Operation} (h : Effect d i op i') (hunheard : Unheard roleId i op) :
    Alike roleId i i' := by
  have hident := h.ident
  cases h with
  | requestIntervention =>
    refine ⟨hident, rfl, rfl, rfl, ?_⟩
    obtain ⟨hby, htarget⟩ := hunheard
    rw [List.filter_append, List.filter_cons_of_neg, List.filter_nil, List.append_nil]
    simp [isVisible, CeremonyIntervention.openWithProvenance, hby, htarget]
  | respond active allowed hitem hid =>
    refine ⟨hident, rfl, rfl, rfl, ?_⟩
    exact visible_replaced hitem (hunheard _ (by simp [hitem]) hid) rfl rfl
  | respondWithEvidence active allowed hitem hid =>
    refine ⟨hident, rfl, rfl, rfl, ?_⟩
    exact visible_replaced hitem (hunheard _ (by simp [hitem]) hid) rfl rfl
  | closeIntervention active allowed hitem hid =>
    refine ⟨hident, rfl, rfl, rfl, ?_⟩
    exact visible_replaced hitem (hunheard _ (by simp [hitem]) hid) rfl rfl
  | bindParticipant =>
    refine ⟨hident, rfl, rfl, ?_, rfl⟩
    rw [CeremonyInstance.boundSpecialty, OrdMap.get?_insert_ne _ (Ne.symm hunheard)]
    rfl
  | approveGuard => exact hunheard.elim
  | applyTransition => exact hunheard.elim
  | _ => exact ⟨hident, rfl, rfl, rfl, rfl⟩

theorem alike_run (d : CeremonyDefinition) (roleId : RoleId) (ops : List Operation)
    (i : CeremonyInstance)
    (h : ∀ before op later, ops = before ++ op :: later →
      Unheard roleId (runAll d before i) op) : Alike roleId i (runAll d ops i) := by
  induction ops using List.reverseRecOn with
  | nil => exact .refl roleId i
  | append_singleton ops op ih =>
    obtain ⟨hops, hop⟩ := forall_split_concat.mp h
    rw [runAll_concat]
    apply (ih hops).trans
    obtain ⟨_, -, hafter⟩ | ⟨-, heffect⟩ := after_cases d op (runAll d ops i)
    · rw [hafter]
      exact .refl roleId _
    · exact alike_effect heffect hop

theorem executeStep_visible (request : CeremonyStepHandlerRequest)
    {interventions : List CeremonyIntervention}
    (h : interventions.filter (isVisible request.roleId) =
      request.interventions.filter (isVisible request.roleId)) :
    executeStep floats self { request with interventions := interventions } =
      executeStep floats self request := by
  have hrender : renderInterventions floats { request with interventions := interventions } =
      renderInterventions floats request := by
    rw [renderInterventions, renderInterventions, h]
  have htask (config : DeliberationStepConfig) :
      taskFrom floats { request with interventions := interventions } config =
        taskFrom floats request config := by
    rw [taskFrom, taskFrom, buildDescription, buildDescription, descriptionText, descriptionText,
      hrender]
    rfl
  rw [executeStep, executeStep]
  simp only [htask]
  rfl

theorem join_map_split {α : Type} (f : α → String) {xs : List α} {x : α} (h : x ∈ xs) :
    ∃ front rest, String.join (xs.map f) = front ++ f x ++ rest := by
  obtain ⟨before, after, rfl⟩ := List.append_of_mem h
  refine ⟨String.join (before.map f), String.join (after.map f), ?_⟩
  rw [List.map_append, List.map_cons, String.join_append, String.join_cons, String.append_assoc]

theorem told_of_visible {request : CeremonyStepHandlerRequest} {config : DeliberationStepConfig}
    {item : CeremonyIntervention} (hitem : item ∈ request.interventions)
    (hvisible : isVisible request.roleId item = true) : ∃ front rest,
      descriptionText floats request config = front ++ interventionText floats item ++ rest := by
  have hmem : item ∈ request.interventions.filter (isVisible request.roleId) :=
    List.mem_filter.mpr ⟨hitem, hvisible⟩
  obtain ⟨front, rest, hsplit⟩ := join_map_split (interventionText floats) hmem
  have hrender : renderInterventions floats request =
      "\nLive participant requests:\n" ++ (front ++ interventionText floats item ++ rest) := by
    rw [renderInterventions, if_neg (by simpa using List.ne_nil_of_mem hmem), hsplit]
  refine ⟨openingLine request ++ missionText floats request.context.attributes ++
    meetingText request config ++ "\nLive participant requests:\n" ++ front,
    rest ++ "\nYour task now: " ++ config.taskDescription.asStr, ?_⟩
  rw [descriptionText, hrender]
  simp only [String.append_assoc]

end Requests

/-- The agents of a role are told of the requests it made and of those put to it, and
nothing of the others. However many calls the rest of the table makes on requests of their
own, the step that the role runs does the same; and every request the role may see is in
its brief, with the answers it got. -/
theorem requests_told_to_their_parties {floats : Floats} {self : DeliberateUseCase}
    {d : CeremonyDefinition} {i : CeremonyInstance} {roleId : RoleId} {ops : List Operation}
    (step : CeremonyStep) (attempt : StepAttempt) (transcript : CeremonyTranscript)
    (h : ∀ before op later, ops = before ++ op :: later →
      Unheard roleId (runAll d before i) op) :
    let request (i : CeremonyInstance) :=
      handlerRequest i step attempt transcript i.interventions roleId
    executeStep floats self (request (runAll d ops i)) = executeStep floats self (request i) ∧
      ∀ item ∈ (runAll d ops i).interventions, isVisible (some roleId) item = true →
        ∀ config task, taskFrom floats (request (runAll d ops i)) config = .ok task →
          ∃ front rest, task.description = front ++ interventionText floats item ++ rest := by
  intro request
  constructor
  · have hsame := alike_run d roleId ops i h
    have hrequest : request (runAll d ops i) =
        { request i with interventions := (runAll d ops i).interventions } := by
      obtain ⟨hid, hname, hversion, -⟩ : (runAll d ops i).id = i.id ∧
          (runAll d ops i).definitionName = i.definitionName ∧
          (runAll d ops i).definitionVersion = i.definitionVersion ∧
          (runAll d ops i).boundDefinition = i.boundDefinition := by
        simpa [ident] using hsame.ident
      simp only [request, handlerRequest, hid, hname, hversion, hsame.state, hsame.context,
        hsame.bound]
    rw [hrequest]
    exact executeStep_visible _ hsame.visible
  · intro item hitem hvisible config task htask
    rw [(taskFrom_ok htask).2.1]
    exact told_of_visible hitem hvisible

section Whispers

def rounds : StepId := ⟨"rounds", by decide⟩

def roundsStep : CeremonyStep :=
  ⟨rounds, fenced, ⟨"council_deliberation", by decide⟩, Attributes.empty,
    RetryPolicy.singleAttempt, none⟩

def patrol : CeremonyDefinition :=
  (CeremonyDefinition.new ⟨"patrol", by decide⟩ versionOne none [] []
    [⟨fenced, .initial⟩, ⟨cleared, .terminal⟩] [⟨fenced, cleared, enter, OrdMap.empty⟩]
    [roundsStep] []
    [⟨warden, OrdSet.ofList [.transition enter, .requestIntervention, .respondToIntervention],
      by decide⟩, ⟨owner, OrdSet.ofList [.step rounds], by decide⟩]).toOption.get (by decide +kernel)

def note : CeremonyInterventionContent := ⟨⟨"mind the beam", by decide⟩, Attributes.empty⟩

def noted : Operation :=
  .requestIntervention hazard warden .opinion (.roles (OrdSet.ofList [warden])) note none ⟨1, 0⟩

def whispers : List Operation := [noted, .closeIntervention hazard warden ⟨2, 0⟩]

def site : CeremonyInstance :=
  CeremonyInstance.opened ⟨"site-8", by decide⟩ patrol CeremonyContext.empty ⟨0, 0⟩ none

theorem whispers_unheard : ∀ before op later, whispers = before ++ op :: later →
    Unheard owner (runAll patrol before site) op := by
  simp only [whispers, forall_split_cons]
  refine ⟨⟨by decide, by decide⟩, ?_, forall_split_nil⟩
  rintro item hitem -
  have hitems : (runAll patrol [noted] site).interventions.map (isVisible (some owner)) =
      [false] := rfl
  have hmem := List.mem_map_of_mem (f := isVisible (some owner)) hitem
  rw [hitems] at hmem
  exact List.mem_singleton.mp hmem

theorem requests_told_to_their_parties_whispers :
    (runAll patrol whispers site).interventions.map CeremonyIntervention.status = [.closed] ∧
    executeStep zeroFloats useCase (handlerRequest (runAll patrol whispers site) roundsStep
      StepAttempt.first [] (runAll patrol whispers site).interventions owner) =
    executeStep zeroFloats useCase (handlerRequest site roundsStep StepAttempt.first []
      site.interventions owner) := by
  refine ⟨rfl, ?_⟩
  exact (requests_told_to_their_parties roundsStep StepAttempt.first [] whispers_unheard).1

end Whispers

section Gathering

def gathering : CeremonyStepHandlerRequest where
  instanceId := ⟨"retro-7", by decide⟩
  definitionName := ⟨"retro", by decide⟩
  definitionVersion := versionOne
  currentState := ⟨"talk", by decide⟩
  stepId := ⟨"gather", by decide⟩
  handlerKind := ⟨"council_deliberation", by decide⟩
  handlerConfig := ⟨OrdMap.ofList [("prompt", .string "Why?"),
    ("specialty", .string "triage"), ("rounds", .number (.posInt 0)),
    ("output_contract", .object [("contract_id", .string "retro.cause"),
      ("format", .string "json_object")])], by decide⟩
  context := CeremonyContext.empty
  attempt := StepAttempt.first
  transcript := []
  interventions := []
  roleId := none
  boundSpecialty := none

def causeContract : OutputContract := ⟨"retro.cause", .jsonObject, OrdMap.empty, "", none⟩

def gatheringConfig : DeliberationStepConfig where
  specialty := triage
  taskDescription := ⟨"Why?", by decide⟩
  rounds := ⟨0, by decide⟩
  numAgents := none
  seePrior := true
  outputContract := some causeContract

theorem gathering_config : DeliberationStepConfig.fromRequest gathering = .ok gatheringConfig := rfl

def gatheringTask : Task :=
  posed ⟨"ceremony-retro-7-gather-1", by decide⟩
    (descriptionText zeroFloats gathering gatheringConfig) causeContract
    ⟨taskAttributes gathering gatheringConfig, by decide⟩ ⟨none, none, none, Attributes.empty⟩

def gatheredWorld : World :=
  announcedOn gatheringTask.id gatheringTask.attributes gatheringTask.metadata

theorem gathering_described :
    checkTaskDescription (descriptionText zeroFloats gathering gatheringConfig) = .ok () := by
  refine checkTaskDescription_ok.mpr ⟨?_, ?_⟩
  · decide
  · decide

theorem gathering_task : taskFrom zeroFloats gathering gatheringConfig = .ok gatheringTask := by
  refine except_bind_eq_ok.mpr ⟨gatheringTask.id, rfl, ?_⟩
  refine except_bind_eq_ok.mpr ⟨⟨_, gathering_described⟩, TaskDescription.new_eq_ok.mpr rfl, ?_⟩
  exact except_bind_eq_ok.mpr ⟨gatheringTask.attributes, rfl, rfl⟩

theorem gathering_runs : ∃ result,
    Returns exec (executeStep zeroFloats useCase gathering).run emptyWorld (.ok result)
      gatheredWorld := by
  refine ⟨⟨.completed, ⟨⟨outputAttributes gathering careful "two" 2, by decide⟩⟩, none,
    by decide, by decide⟩, ?_⟩
  refine returns_bind_ok.mpr ⟨gatheringConfig, emptyWorld,
    returns_ofExcept.mpr ⟨gathering_config.symm, rfl⟩, ?_⟩
  refine returns_bind_ok.mpr ⟨gatheringTask, emptyWorld,
    returns_ofExcept.mpr ⟨gathering_task.symm, rfl⟩, ?_⟩
  refine returns_bind_ok.mpr ⟨_, gatheredWorld, posed_runs .., ?_⟩
  exact .done _ _

/-- Two proposals were made, and the one with the lower score has the form that was asked
for. It is the one that the step records. -/
theorem step_output_on_file_gathering : ∃ (result : StepResult) (d : Deliberation)
    (proposal : Proposal),
    gatheredWorld.repository.get? gatheringTask.id = some d ∧ d.proposals.keys.length = 2 ∧
      d.ranking.head? = some proposal.id ∧ Valid d proposal.id ∧
      result.output.attributes.entries = OrdMap.ofList [
        ("task_id", .string gatheringTask.id.asStr),
        ("winner_proposal_id", .string proposal.id.asStr),
        (winnerContentKey, .string proposal.content), ("candidates_total", jsonNat 2)] ∧
      Returns exec (executeStep zeroFloats useCase gathering).run emptyWorld (.ok result)
        gatheredWorld := by
  obtain ⟨result, h⟩ := gathering_runs
  obtain ⟨config, taskId, d, _, proposal, hconfig, htaskId, -, hstored, -, -, hfirst, -, hvalid, -,
    houtput⟩ := step_output_on_file h
  obtain rfl := Except.ok.inj (gathering_config.symm.trans hconfig)
  obtain rfl : gatheringTask.id = taskId := Except.ok.inj htaskId
  have hfile : gatheredWorld.repository.get? gatheringTask.id =
      some (rankedOn gatheringTask.id gatheringTask.attributes [careful, hasty]) :=
    OrdMap.get?_insert_self ..
  obtain rfl := Option.some.inj (hstored.symm.trans hfile)
  exact ⟨result, _, proposal, hfile, rfl, hfirst, hvalid rfl, houtput, h⟩

end Gathering

end Choreographer.StepHandlers
