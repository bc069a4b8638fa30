import Choreographer.Acceptance

namespace Choreographer.Drafts

open Choreographer.Lib.SortedMaps Choreographer.Lib.Updates
open Choreographer.Texts Choreographer.Values Choreographer.Steps Choreographer.DefinitionParts
open Choreographer.Definition CeremonyDefinitionParts

/-- Everything an analysis found, in the order of its checks. -/
structure CeremonyValidationReport where
  findings : List CeremonyValidationFinding

namespace CeremonyValidationReport

def firstError (self : CeremonyValidationReport) : Option CeremonyValidationFinding :=
  self.findings.find? fun finding => finding.isBlocking

end CeremonyValidationReport

def analyze (definition : CeremonyDefinition) : CeremonyValidationReport :=
  ⟨definition.parts.collectFindings⟩

/-- A definition as it is being written, with nothing asked of it. -/
structure CeremonyDefinitionDraft where
  name : CeremonyName
  version : CeremonyVersion
  description : Option CeremonyDescription
  inputs : List CeremonyInputDefinition
  outputs : List CeremonyOutputDefinition
  states : List CeremonyState
  transitions : List CeremonyTransition
  steps : List CeremonyStep
  guards : List CeremonyGuard
  roles : List CeremonyRole

/-- File items under their keys; the first of a key is kept, the others are duplicates. -/
def index {κ ν : Type} [LinearOrder κ] (key : ν → κ) :
    List ν → OrdMap κ ν → OrdMap κ ν × List κ
  | [], indexed => (indexed, [])
  | item :: rest, indexed =>
    if indexed.contains (key item) then
      let (indexed, duplicates) := index key rest indexed
      (indexed, key item :: duplicates)
    else index key rest (indexed.insert (key item) item)

def pushDuplicates {κ : Type} (duplicates : List κ) (what : String)
    (locus : κ → CeremonyValidationLocus) : List CeremonyValidationFinding :=
  duplicates.map fun key => .error (locus key) (.alreadyExists what)

namespace CeremonyDefinitionDraft

variable (self : CeremonyDefinitionDraft)

def analyze : CeremonyValidationReport :=
  let (_, duplicateInputs) := index CeremonyInputDefinition.name self.inputs OrdMap.empty
  let (_, duplicateOutputs) := index CeremonyOutputDefinition.name self.outputs OrdMap.empty
  let (states, duplicateStates) := index CeremonyState.id self.states OrdMap.empty
  let (steps, duplicateSteps) := index CeremonyStep.id self.steps OrdMap.empty
  let (guards, duplicateGuards) := index CeremonyGuard.name self.guards OrdMap.empty
  let (roles, duplicateRoles) := index CeremonyRole.id self.roles OrdMap.empty
  ⟨pushDuplicates duplicateInputs "ceremony_input" .input ++
    pushDuplicates duplicateOutputs "ceremony_output" .output ++
    pushDuplicates duplicateStates "ceremony_state" .state ++
    pushDuplicates duplicateSteps "ceremony_step" .step ++
    pushDuplicates duplicateGuards "ceremony_guard" .guard ++
    pushDuplicates duplicateRoles "ceremony_role" .role ++
    CeremonyDefinitionParts.collectFindings ⟨states, self.transitions, steps, guards, roles⟩⟩

def publish : Except DomainError CeremonyDefinition :=
  CeremonyDefinition.new self.name self.version self.description self.inputs self.outputs
    self.states self.transitions self.steps self.guards self.roles

end CeremonyDefinitionDraft

section Indexing

variable {κ ν : Type} [LinearOrder κ] {key : ν → κ} {what : String}
  {items : List ν} {start : OrdMap κ ν}

/-- Collecting succeeds with what indexing keeps if there is no duplicate, and fails
otherwise. -/
theorem collect_eq_index : collect key what items start =
    if (index key items start).2 = [] then .ok (index key items start).1
    else .error (.alreadyExists what) := by
  induction items generalizing start with
  | nil => rfl
  | cons item rest ih =>
    rw [collect, index]
    split
    · simp
    · exact ih

theorem index_of_collect {map : OrdMap κ ν} (h : collect key what items start = .ok map) :
    index key items start = (map, []) := by
  rw [collect_eq_index] at h
  split at h
  · next hnone => exact Prod.ext (Except.ok.inj h) hnone
  · simp at h

theorem find_duplicate {e : DomainError} (h : collect key what items start = .error e)
    (locus : κ → CeremonyValidationLocus) (later : List CeremonyValidationFinding) :
    ∃ finding, (pushDuplicates (index key items start).2 what locus ++ later).find?
      (fun finding => finding.isBlocking) = some finding ∧ finding.defect = e := by
  rw [collect_eq_index] at h
  split at h
  · simp at h
  · next hsome =>
    obtain ⟨k, rest, hdup⟩ := List.exists_cons_of_ne_nil hsome
    rw [hdup]
    exact ⟨.error (locus k) (.alreadyExists what), rfl, Except.error.inj h⟩

end Indexing

section Agreement

variable {draft : CeremonyDefinitionDraft} {e : DomainError}

theorem findings_eq (draft : CeremonyDefinitionDraft) : draft.analyze.findings =
    pushDuplicates (index CeremonyInputDefinition.name draft.inputs OrdMap.empty).2
      "ceremony_input" .input ++
    pushDuplicates (index CeremonyOutputDefinition.name draft.outputs OrdMap.empty).2
      "ceremony_output" .output ++
    pushDuplicates (index CeremonyState.id draft.states OrdMap.empty).2 "ceremony_state" .state ++
    pushDuplicates (index CeremonyStep.id draft.steps OrdMap.empty).2 "ceremony_step" .step ++
    pushDuplicates (index CeremonyGuard.name draft.guards OrdMap.empty).2 "ceremony_guard" .guard ++
    pushDuplicates (index CeremonyRole.id draft.roles OrdMap.empty).2 "ceremony_role" .role ++
    CeremonyDefinitionParts.collectFindings ⟨(index CeremonyState.id draft.states OrdMap.empty).1,
      draft.transitions, (index CeremonyStep.id draft.steps OrdMap.empty).1,
      (index CeremonyGuard.name draft.guards OrdMap.empty).1,
      (index CeremonyRole.id draft.roles OrdMap.empty).1⟩ := rfl

@[simp] theorem pushDuplicates_nil {κ : Type} (what : String)
    (locus : κ → CeremonyValidationLocus) : pushDuplicates [] what locus = [] := rfl

theorem firstError_of_publish (h : draft.publish = .error e) :
    ∃ finding, draft.analyze.firstError = some finding ∧ finding.defect = e := by
  unfold CeremonyDefinitionDraft.publish CeremonyDefinition.new at h
  unfold CeremonyValidationReport.firstError
  simp only [findings_eq, List.append_assoc]
  split at h
  · next hi => exact find_duplicate (Except.error.inj h ▸ hi) _ _
  next hi =>
  rw [index_of_collect hi, pushDuplicates_nil, List.nil_append]
  split at h
  · next ho => exact find_duplicate (Except.error.inj h ▸ ho) _ _
  next ho =>
  rw [index_of_collect ho, pushDuplicates_nil, List.nil_append]
  split at h
  · next hst => exact find_duplicate (Except.error.inj h ▸ hst) _ _
  next hst =>
  rw [index_of_collect hst, pushDuplicates_nil, List.nil_append]
  split at h
  · next hsp => exact find_duplicate (Except.error.inj h ▸ hsp) _ _
  next hsp =>
  rw [index_of_collect hsp, pushDuplicates_nil, List.nil_append]
  split at h
  · next hg => exact find_duplicate (Except.error.inj h ▸ hg) _ _
  next hg =>
  rw [index_of_collect hg, pushDuplicates_nil, List.nil_append]
  split at h
  · next hr => exact find_duplicate (Except.error.inj h ▸ hr) _ _
  next hr =>
  rw [index_of_collect hr, pushDuplicates_nil, List.nil_append]
  split at h
  · next hv =>
    obtain rfl := Except.error.inj h
    unfold CeremonyDefinitionParts.validate at hv
    split at hv
    · next finding hfind => exact ⟨finding, hfind, Except.error.inj hv⟩
    · simp at hv
  · simp at h

theorem analyze_of_publish {d : CeremonyDefinition} (h : draft.publish = .ok d) :
    analyze d = draft.analyze := by
  obtain ⟨hi, ho, hp, _⟩ := Acceptance.new_ok h
  have hf := findings_eq draft
  rw [index_of_collect hi, index_of_collect ho, index_of_collect hp.states,
    index_of_collect hp.steps, index_of_collect hp.guards, index_of_collect hp.roles] at hf
  simp only [pushDuplicates_nil, List.nil_append, ← hp.transitions] at hf
  rw [show draft.analyze = ⟨draft.analyze.findings⟩ from rfl, hf]
  rfl

/-- The analysis of a draft says whether it can be published, and if not why, and what
will be said of it afterwards. -/
theorem draft_predicts_publication (draft : CeremonyDefinitionDraft) :
    ((∃ e, draft.publish = .error e) ↔
      ∃ finding ∈ draft.analyze.findings, finding.severity = .error) ∧
    (∀ e, draft.publish = .error e →
      ∃ finding, draft.analyze.firstError = some finding ∧ finding.defect = e) ∧
    ∀ d, draft.publish = .ok d → analyze d = draft.analyze ∧
      ∀ finding ∈ draft.analyze.findings, finding.severity = .warning := by
  have hclean (d : CeremonyDefinition) (h : draft.publish = .ok d) :
      ∀ finding ∈ draft.analyze.findings, finding.isBlocking = false := by
    rw [← analyze_of_publish h]
    exact d.findings_clean
  refine ⟨⟨?_, ?_⟩, fun e => firstError_of_publish, fun d h => ⟨analyze_of_publish h, ?_⟩⟩
  · rintro ⟨e, h⟩
    obtain ⟨finding, hfirst, _⟩ := firstError_of_publish h
    have hblocks := List.find?_some hfirst
    exact ⟨finding, List.mem_of_find?_eq_some hfirst, of_decide_eq_true hblocks⟩
  · rintro ⟨finding, hmem, hsev⟩
    cases h : draft.publish with
    | error e => exact ⟨e, rfl⟩
    | ok d =>
      have hnot := hclean d h finding hmem
      simp [CeremonyValidationFinding.isBlocking, hsev] at hnot
  · intro finding hmem
    have hnot := hclean d h finding hmem
    cases hs : finding.severity with
    | error => simp [CeremonyValidationFinding.isBlocking, hs] at hnot
    | warning => rfl

end Agreement

def muddled : CeremonyDefinitionDraft where
  name := ⟨"muddled", by decide⟩
  version := versionOne
  description := none
  inputs := []
  outputs := []
  states := [⟨⟨"here", by decide⟩, .intermediate⟩, ⟨⟨"here", by decide⟩, .terminal⟩]
  transitions := [⟨⟨"here", by decide⟩, ⟨"nowhere", by decide⟩, ⟨"go", by decide⟩, OrdMap.empty⟩]
  steps := []
  guards := []
  roles := []

theorem draft_predicts_publication_muddled :
    ∃ finding, muddled.analyze.firstError = some finding ∧
      finding.defect = .alreadyExists "ceremony_state" :=
  (draft_predicts_publication muddled).2.1 _ rfl

end Choreographer.Drafts
