import Choreographer.DesignedDrafts
import Choreographer.SessionFacts
import Choreographer.SessionJournal
import Choreographer.StepConfig

namespace Choreographer.DeliberationSteps

open Choreographer.Lib.SortedMaps Choreographer.Lib.Updates
open Choreographer.Texts Choreographer.Values Choreographer.Steps Choreographer.DefinitionParts
open Choreographer.Contracts Choreographer.StepConfig Choreographer.SessionJournal
open Choreographer.SessionFacts Choreographer.Drafts Choreographer.Designs
open Choreographer.DesignedDrafts

section Reader

def defaultSupportMinConfidence : Fin 256 := 70

/-- What a deliberation reads off the step it is run for. -/
structure DeliberationStepConfig where
  specialty : Specialty
  taskDescription : TaskDescription
  rounds : Rounds
  numAgents : Option NumAgents
  seePrior : Bool
  outputContract : Option OutputContract

def contextArray (request : CeremonyStepHandlerRequest) (key field : String) :
    Except DomainError (List Value) := do
  let value ← okOr (request.context.attributes.get key) (.emptyField field)
  okOr value.asArray (.invalidCharacters field)

def textUnder (key : String) (item : Value) : Option String :=
  ((asMap item).bind fun entry => entry.get? key).bind Value.asStr

def contextRef (item : Value) : Except DomainError String :=
  okOr (item.asStr.or (textUnder "id" item)) (.invalidCharacters Field.evidenceContextKey)

def contextRefs (request : CeremonyStepHandlerRequest) (key : String) :
    Except DomainError (List String) := do
  let items ← contextArray request key Field.evidenceContextKey
  items.mapM contextRef

def contextBody (item : Value) : Except DomainError (String × String) := do
  let id ← okOr (textUnder "id" item) (.invalidCharacters Field.semanticBodiesKey)
  let text ← okOr (textUnder "text" item) (.invalidCharacters Field.semanticBodiesKey)
  pure (id, text)

def contextBodies (request : CeremonyStepHandlerRequest) (key : String) :
    Except DomainError (List (String × String)) := do
  let items ← contextArray request key Field.semanticBodiesKey
  items.mapM contextBody

def withSemantics (request : CeremonyStepHandlerRequest) (spec : EvidenceGroundingSpec)
    (rule : EvidenceGroundingRule) : Except DomainError EvidenceGroundingRule :=
  match spec.semantic with
  | none => .ok rule
  | some semantic => do
    let key ← okOr (semantic.bodiesContextKey.or spec.contextKey)
      (.emptyField Field.semanticBodiesKey)
    let bodies ← contextBodies request key
    let support ← SemanticSupportRule.new
      (semantic.minConfidence.getD defaultSupportMinConfidence) bodies
    rule.withSemanticSupport support

def withEvidence (request : CeremonyStepHandlerRequest) (outputContract : Option OutputContract)
    (spec : EvidenceGroundingSpec) : Except DomainError OutputContract := do
  let contract ← okOr outputContract (.emptyField Field.outputContract)
  let refs ← match spec.contextKey with
    | none => .ok []
    | some key => contextRefs request key
  let rule ← EvidenceGroundingRule.new spec.claimsField spec.refsField (spec.staticRefs ++ refs)
  let rule ← withSemantics request spec rule
  pure (contract.withEvidenceGrounding rule)

def DeliberationStepConfig.fromRequest (request : CeremonyStepHandlerRequest) :
    Except DomainError DeliberationStepConfig := do
  let config : CeremonyStepConfig := ⟨request.handlerConfig, request.handlerKind⟩
  let outputContract ← config.outputContract
  let outputContract ← match ← config.evidenceGroundingSpec with
    | none => .ok outputContract
    | some spec => some <$> withEvidence request outputContract spec
  let taskDescription ← config.prompt
  let specialty ← config.specialty
  let rounds ← config.rounds
  let numAgents ← config.numAgents
  let seePrior ← config.seePriorSteps
  pure { specialty, taskDescription, rounds, numAgents, seePrior, outputContract }

end Reader

section Stages

variable {stage : StageIntent} {index : Nat} {config : CeremonyStepConfig}

/-- The attributes are the ones that were written for the stage. -/
def WrittenFor (stage : StageIntent) (index : Nat) (config : CeremonyStepConfig) : Prop :=
  config.attributes.entries = stageConfig stage index

theorem get_written (h : WrittenFor stage index config) (key : String) :
    config.attributes.get key =
      if key = "rounds" then
        if 0 < stage.reviewRounds then some (.number (.posInt stage.reviewRounds)) else none
      else if key = "see_prior" then some (.bool (stage.seePrior.getD (0 < index)))
      else if key = "prompt" then some (.string (trim stage.instructions))
      else if key = "num_agents" then some (.number (.posInt stage.numAgents))
      else none := by
  unfold Attributes.get
  rw [h, stageConfig]
  by_cases hrounds : 0 < stage.reviewRounds
  · simp [hrounds, OrdMap.ofList, OrdMap.get?_insert]
  · by_cases hkey : key = "rounds"
    · simp [hrounds, OrdMap.ofList, OrdMap.get?_insert, hkey]
    · simp [hrounds, OrdMap.ofList, OrdMap.get?_insert, hkey]

theorem checkTaskDescription_ok {raw : String} {u : Unit} :
    checkTaskDescription raw = .ok u ↔
      trim raw ≠ "" ∧ raw.utf8ByteSize ≤ maxTaskDescriptionLen := by
  unfold checkTaskDescription
  split_ifs with hblank hlong
  · simp [hblank]
  · simp only [false_iff, not_and]
    omega
  · simp only [true_iff]
    exact ⟨hblank, by omega⟩

theorem TaskDescription.new_eq_ok {raw : String} {t : TaskDescription} :
    TaskDescription.new raw = .ok t ↔ t.asStr = raw := by
  unfold TaskDescription.new
  split
  · next h =>
    obtain ⟨s, hs⟩ := t
    simp [eq_comm]
  · next e h =>
    refine iff_of_false (by simp) ?_
    rintro rfl
    simp [t.valid] at h

theorem prompt_eq_ok (h : WrittenFor stage index config) (hstage : trim stage.instructions ≠ "")
    {t : TaskDescription} : config.prompt = .ok t ↔ t.asStr = trim stage.instructions := by
  rw [CeremonyStepConfig.prompt, get_written h]
  simp [Key.prompt, requiredString, Value.asStr, trim_trim, hstage,
    TaskDescription.new_eq_ok]

theorem optionalU32_posInt {n : U64} {field : String} {value : Option U32} :
    optionalU32 (some (.number (.posInt n))) field = .ok value ↔
      ∃ count, value = some count ∧ count.val = n.val := by
  simp only [optionalU32, Value.asU64, okOr, except_bind_eq_ok, Except.ok.injEq, exists_eq_left']
  split_ifs with hfits
  · simp only [Except.ok.injEq]
    constructor
    · rintro rfl
      exact ⟨_, rfl, rfl⟩
    · rintro ⟨count, rfl, hcount⟩
      exact congrArg some (Fin.ext hcount.symm)
  · refine iff_of_false (by simp) ?_
    rintro ⟨count, -, hcount⟩
    exact hfits (hcount ▸ count.isLt)

theorem Rounds.new_eq_ok {value : U32} {r : Rounds} : Rounds.new value = .ok r ↔ r.get = value := by
  unfold Rounds.new
  split_ifs with hvalid
  · obtain ⟨get, h⟩ := r
    simp [eq_comm]
  · refine iff_of_false (by simp) ?_
    rintro rfl
    exact hvalid r.valid

theorem NumAgents.new_eq_ok {value : U32} {n : NumAgents} :
    NumAgents.new value = .ok n ↔ n.get = value := by
  have hvalid := n.valid
  unfold NumAgents.new
  split_ifs with hmax hzero
  · refine iff_of_false (by simp) ?_
    rintro rfl
    omega
  · refine iff_of_false (by simp) ?_
    rintro rfl
    omega
  · obtain ⟨get, h⟩ := n
    simp [eq_comm]

theorem rounds_eq_ok (h : WrittenFor stage index config) {r : Rounds} :
    config.rounds = .ok r ↔
      r.get.val = if stage.reviewRounds = 0 then 1 else stage.reviewRounds.val := by
  rw [CeremonyStepConfig.rounds, get_written h, if_pos (show Key.rounds = "rounds" from rfl)]
  by_cases hzero : stage.reviewRounds = 0
  · -- nothing is written, and the reader has a default of its own
    rw [if_pos hzero, hzero, if_neg (lt_irrefl 0)]
    change (.ok Rounds.default : Except DomainError Rounds) = .ok r ↔ r.get.val = 1
    obtain ⟨get, hget⟩ := r
    rw [Except.ok.injEq, Rounds.default, Rounds.mk.injEq, eq_comm, Fin.ext_iff]
    rfl
  · rw [if_neg hzero, if_pos (Fin.pos_iff_ne_zero.mpr hzero)]
    simp only [except_bind_eq_ok, optionalU32_posInt]
    constructor
    · rintro ⟨_, ⟨count, rfl, hcount⟩, hnew⟩
      rw [Rounds.new_eq_ok.mp hnew, hcount]
    · intro hr
      exact ⟨some r.get, ⟨r.get, rfl, hr⟩, Rounds.new_eq_ok.mpr rfl⟩

theorem numAgents_eq_ok (h : WrittenFor stage index config) {n : Option NumAgents} :
    config.numAgents = .ok n ↔ ∃ count, n = some count ∧ count.get.val = stage.numAgents.val := by
  rw [CeremonyStepConfig.numAgents, get_written h]
  simp only [Key.numAgents, String.reduceEq, if_false, if_true, except_bind_eq_ok,
    optionalU32_posInt]
  constructor
  · rintro ⟨_, ⟨raw, rfl, hraw⟩, hnew⟩
    obtain ⟨count, hcount, rfl⟩ := except_map_eq_ok.mp hnew
    exact ⟨count, rfl, by rw [NumAgents.new_eq_ok.mp hcount, hraw]⟩
  · rintro ⟨count, rfl, hcount⟩
    exact ⟨some count.get, ⟨count.get, rfl, hcount⟩,
      except_map_eq_ok.mpr ⟨count, NumAgents.new_eq_ok.mpr rfl, rfl⟩⟩

theorem seePriorSteps_written (h : WrittenFor stage index config) :
    config.seePriorSteps = .ok (stage.seePrior.getD (0 < index)) := by
  rw [CeremonyStepConfig.seePriorSteps, get_written h]
  simp [Key.seePrior, optionalBool, Value.asBool, okOr]

theorem specialty_of_handler (kind : StepHandlerKind) :
    ∃ specialty : Specialty, Text.new kind.asStr = .ok specialty := by
  have hcheck : (⟨"specialty", 128, noControl, by decide⟩ : TextRule).check kind.asStr =
      .ok kind.asStr := by
    refine TextRule.check_ok.mpr ⟨kind.trim_asStr.symm, kind.asStr_ne_empty, kind.size_le, ?_⟩
    intro c hc
    have hkind : isHandlerKindChar c = true := kind.allowed_of_mem hc
    simp only [isHandlerKindChar, Bool.or_eq_true, beq_iff_eq] at hkind
    rcases hkind with (hsnake | rfl) | rfl
    · exact noControl_of_isSnakeCase (by simpa [isSnakeCase] using hsnake)
    · decide
    · decide
  exact ⟨⟨kind.asStr, hcheck⟩, Text.new_eq_ok.mpr hcheck⟩

theorem fromRequest_eq_ok {request : CeremonyStepHandlerRequest} {read : DeliberationStepConfig}
    (h : WrittenFor stage index ⟨request.handlerConfig, request.handlerKind⟩)
    (hstage : trim stage.instructions ≠ "") :
    (DeliberationStepConfig.fromRequest request = .ok read) ↔
      Text.new request.handlerKind.asStr = .ok read.specialty ∧
      read.taskDescription.asStr = trim stage.instructions ∧
      read.rounds.get.val = (if stage.reviewRounds = 0 then 1 else stage.reviewRounds.val) ∧
      (∃ count, read.numAgents = some count ∧ count.get.val = stage.numAgents.val) ∧
      read.seePrior = stage.seePrior.getD (0 < index) ∧ read.outputContract = none := by
  have hcontract : (⟨request.handlerConfig, request.handlerKind⟩ :
      CeremonyStepConfig).outputContract = .ok none := by
    rw [CeremonyStepConfig.outputContract, get_written h]
    rfl
  have hevidence : (⟨request.handlerConfig, request.handlerKind⟩ :
      CeremonyStepConfig).evidenceGroundingSpec = .ok none := by
    rw [CeremonyStepConfig.evidenceGroundingSpec, get_written h]
    rfl
  have hspecialty : (⟨request.handlerConfig, request.handlerKind⟩ :
      CeremonyStepConfig).specialty = Text.new request.handlerKind.asStr := by
    rw [CeremonyStepConfig.specialty, get_written h]
    rfl
  unfold DeliberationStepConfig.fromRequest
  simp only [hcontract, hevidence, hspecialty, except_bind_eq_ok, Except.ok.injEq, exists_eq_left',
    prompt_eq_ok h hstage, rounds_eq_ok h, numAgents_eq_ok h, seePriorSteps_written h]
  constructor
  · rintro ⟨description, hprompt, specialty, hspecial, rounds, hrounds, agents, hagents, hdone⟩
    rw [← Except.ok.inj hdone]
    exact ⟨hspecial, hprompt, hrounds, hagents, rfl, rfl⟩
  · rintro ⟨hspecial, hprompt, hrounds, hagents, hprior, hnone⟩
    refine ⟨_, hprompt, _, hspecial, _, hrounds, _, hagents, ?_⟩
    rw [← hprior, ← hnone]
    rfl

/-- What the reader returns is what the stage asks for. -/
def RunsAsAsked (request : CeremonyStepHandlerRequest) (stage : StageIntent) (index : Nat) : Prop :=
  ∃ read, DeliberationStepConfig.fromRequest request = .ok read ∧
    read.taskDescription.asStr = trim stage.instructions ∧
    (∃ count, read.numAgents = some count ∧ count.get.val = stage.numAgents.val) ∧
    read.rounds.get.val = stage.reviewRounds.val ∧
    read.seePrior = stage.seePrior.getD (0 < index)

/-- A stage within what can be run, with a review. -/
def Runnable (stage : StageIntent) : Prop :=
  (trim stage.instructions).utf8ByteSize ≤ maxTaskDescriptionLen ∧
    stage.numAgents.val ≤ maxNumAgents ∧
    0 < stage.reviewRounds.val ∧ stage.reviewRounds.val ≤ maxRounds

instance (stage : StageIntent) : Decidable (Runnable stage) :=
  inferInstanceAs (Decidable (_ ∧ _))

theorem runsAsAsked_iff {request : CeremonyStepHandlerRequest} {participants : List String}
    (h : WrittenFor stage index ⟨request.handlerConfig, request.handlerKind⟩)
    (hstage : StageAccepted participants stage) :
    RunsAsAsked request stage index ↔ Runnable stage := by
  constructor
  · rintro ⟨read, hread, hprompt, ⟨count, hcount, hagents⟩, hrounds, -⟩
    obtain ⟨-, -, hdefault, -, -, -⟩ := (fromRequest_eq_ok h hstage.instructed).mp hread
    have hsize := (checkTaskDescription_ok.mp read.taskDescription.valid).2
    have hmax := read.rounds.valid
    have hfew := count.valid.2
    rw [hprompt] at hsize
    rw [hrounds] at hmax hdefault
    rw [hagents] at hfew
    refine ⟨hsize, hfew, ?_, hmax⟩
    by_cases hzero : stage.reviewRounds = 0
    · rw [if_pos hzero, hzero] at hdefault
      simp at hdefault
    · exact Fin.pos_iff_ne_zero.mpr hzero
  · rintro ⟨hsize, hfew, hpos, hmax⟩
    obtain ⟨specialty, hspecialty⟩ := specialty_of_handler request.handlerKind
    have hblank : trim (trim stage.instructions) ≠ "" := by
      rw [trim_trim]
      exact hstage.instructed
    have hagents : 0 < stage.numAgents.val :=
      Nat.pos_of_ne_zero fun hzero => hstage.staffed (Fin.ext hzero)
    have hnonzero : stage.reviewRounds ≠ 0 := Fin.pos_iff_ne_zero.mp hpos
    have hagentsFit : stage.numAgents.val < 2 ^ 32 := by
      unfold maxNumAgents at hfew
      omega
    have hroundsFit : stage.reviewRounds.val < 2 ^ 32 := by
      unfold maxRounds at hmax
      omega
    refine ⟨{
      specialty
      taskDescription := ⟨trim stage.instructions, checkTaskDescription_ok.mpr ⟨hblank, hsize⟩⟩
      rounds := ⟨⟨stage.reviewRounds.val, hroundsFit⟩, hmax⟩
      numAgents := some ⟨⟨stage.numAgents.val, hagentsFit⟩, hagents, hfew⟩
      seePrior := stage.seePrior.getD (0 < index)
      outputContract := none }, ?_, rfl, ⟨_, rfl, rfl⟩, rfl, rfl⟩
    rw [fromRequest_eq_ok h hstage.instructed, if_neg hnonzero]
    exact ⟨hspecialty, rfl, rfl, ⟨_, rfl, rfl⟩, rfl, rfl⟩

end Stages

/-- The step of a designed stage is read as the stage was meant exactly if the stage asks for a
review, and for no more rounds, agents and words than there may be. -/
theorem designed_stage_runs_iff (yaml : Yaml) (hyaml : yaml.Lossless)
    (request : EmbeddedDesignCeremonyRequest) (designed : DesignedCeremonyDraft yaml)
    (hdesign : request.design yaml = some (.ok designed)) (index : Nat) (stage : StageIntent)
    (hstage : request.stages[index]? = some stage) :
    ∃ step, designed.draft.steps[index]? = some step ∧ step.id.asStr = trim stage.id ∧
      ∀ r : CeremonyStepHandlerRequest, r.handlerKind = step.handlerKind →
        r.handlerConfig = step.handlerConfig → (RunsAsAsked r stage index ↔ Runnable stage) := by
  obtain ⟨haccepted, step, hstep, hid, hconfig⟩ := step_of_stage hyaml hdesign hstage
  refine ⟨step, hstep, hid, fun r _ hr => ?_⟩
  apply runsAsAsked_iff _ haccepted
  rw [WrittenFor, hr, hconfig]

theorem designed_stage_runs_iff_look : ∃ designed step, sketch.design verbatim = some (.ok designed) ∧
    designed.draft.steps[1]? = some step ∧
    ∀ r : CeremonyStepHandlerRequest, r.handlerKind = step.handlerKind →
      r.handlerConfig = step.handlerConfig → RunsAsAsked r
        { id := "look", ownerRoleId := "A", instructions := "Look", numAgents := 2,
          reviewRounds := 1 } 1 := by
  obtain ⟨designed, hdesigned⟩ := sketch_designed
  obtain ⟨step, hstep, -, hruns⟩ := designed_stage_runs_iff verbatim verbatim_lossless sketch designed
    hdesigned 1 _ rfl
  exact ⟨designed, step, hdesigned, hstep, fun r hkind hconfig =>
    (hruns r hkind hconfig).mpr (by decide +kernel)⟩

def called (step : CeremonyStep) : CeremonyStepHandlerRequest where
  instanceId := ⟨"c", by decide⟩
  definitionName := ⟨"art", by decide⟩
  definitionVersion := versionOne
  currentState := step.stateId
  stepId := step.id
  handlerKind := step.handlerKind
  handlerConfig := step.handlerConfig
  context := CeremonyContext.empty
  attempt := StepAttempt.first
  transcript := []
  interventions := []
  roleId := none
  boundSpecialty := none

/-- A stage that asks for no review gets one. -/
theorem unreviewed_stage_is_reviewed : ¬ ∀ (yaml : Yaml), yaml.Lossless →
    ∀ (request : EmbeddedDesignCeremonyRequest) (designed : DesignedCeremonyDraft yaml),
      request.design yaml = some (.ok designed) →
      ∀ (index : Nat) (stage : StageIntent), request.stages[index]? = some stage →
        ∀ step, designed.draft.steps[index]? = some step →
          ∀ r : CeremonyStepHandlerRequest, r.handlerKind = step.handlerKind →
            r.handlerConfig = step.handlerConfig → RunsAsAsked r stage index := by
  intro hall
  obtain ⟨designed, hdesigned⟩ := sketch_designed
  have hdraw : sketch.stages[0]? =
      some { id := "draw", ownerRoleId := "W", instructions := "Draw" } := rfl
  obtain ⟨haccepted, step, hstep, -, hconfig⟩ := step_of_stage verbatim_lossless hdesigned hdraw
  have hruns := hall verbatim verbatim_lossless sketch designed hdesigned 0 _ hdraw step hstep
    (called step) rfl rfl
  have hwritten : WrittenFor _ 0 ⟨(called step).handlerConfig, (called step).handlerKind⟩ := hconfig
  obtain ⟨-, -, hreviewed, -⟩ := (runsAsAsked_iff hwritten haccepted).mp hruns
  exact absurd hreviewed (by decide)

end Choreographer.DeliberationSteps
