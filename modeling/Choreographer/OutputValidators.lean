import Choreographer.EvidenceGates

namespace Choreographer.OutputValidators

open Choreographer.Lib.SortedMaps Choreographer.Lib.Updates
open Choreographer.Texts Choreographer.Values Choreographer.Contracts Choreographer.Deliberations
open Choreographer.EvidenceGates

def reportUnparsed (kind summary : String) (contract : OutputContract) :
    Except DomainError ValidatorReport := do
  let details ← attributes (json [("contract_id", .string contract.contractId)])
  ValidatorReport.new kind false summary details

namespace RequiredFieldsValidator

def kind : String := "output-required-fields"

def missingFields (contract : OutputContract) (object : List (String × Value)) : List String :=
  ((contract.fields.entries.filter fun entry => entry.2.required).filter fun entry =>
    (object.lookup entry.1).isNone).map Prod.fst

def validate (serde : SerdeJson) (proposalContent : String) (constraints : TaskConstraints) :
    Except DomainError ValidatorReport :=
  match constraints.outputContract with
  | none =>
    ValidatorReport.new kind true "no structured output contract configured" Attributes.empty
  | some contract =>
    match parseJsonObject serde proposalContent with
    | .error summary => reportUnparsed kind summary contract
    | .ok object =>
      let missing := missingFields contract object
      if missing.isEmpty then
        ValidatorReport.new kind true "all required fields are present" Attributes.empty
      else do
        let details ← attributes (json [("contract_id", .string contract.contractId),
          ("missing_fields", .array (missing.map .string))])
        ValidatorReport.new kind false
          ("missing required fields: " ++ ", ".intercalate missing) details

end RequiredFieldsValidator

namespace AllowedStringValuesValidator

def kind : String := "output-allowed-string-values"

def allowedJson (rule : OutputFieldRule) : Value :=
  .array (rule.allowedStringValues.keys.map .string)

def violation (object : List (String × Value)) (entry : String × OutputFieldRule) : Option Value :=
  if entry.2.allowedStringValues.keys.isEmpty then none
  else
    match object.lookup entry.1 with
    | none => none
    | some (.string actual) =>
      if entry.2.allowedStringValues.contains actual then none
      else some (json [("field", .string entry.1), ("actual", .string actual),
        ("allowed", allowedJson entry.2)])
    | some other => some (json [("field", .string entry.1),
        ("actual_type", .string (valueTypeName other)), ("allowed", allowedJson entry.2)])

def validate (serde : SerdeJson) (proposalContent : String) (constraints : TaskConstraints) :
    Except DomainError ValidatorReport :=
  match constraints.outputContract with
  | none =>
    ValidatorReport.new kind true "no structured output contract configured" Attributes.empty
  | some contract =>
    match parseJsonObject serde proposalContent with
    | .error summary => reportUnparsed kind summary contract
    | .ok object =>
      let violations := contract.fields.entries.filterMap (violation object)
      if violations.isEmpty then
        ValidatorReport.new kind true
          "all constrained string fields satisfy their allowed value sets" Attributes.empty
      else do
        let details ← attributes (json [("contract_id", .string contract.contractId),
          ("violations", .array violations)])
        ValidatorReport.new kind false
          "one or more constrained string fields violated the contract" details

end AllowedStringValuesValidator

/-- The validator has run and is content. -/
def Passes (r : Except DomainError ValidatorReport) : Prop :=
  ∃ report, r = .ok report ∧ report.passed = true

theorem passes_new {kind summary : String} {passed : Bool} {details : Attributes}
    (hkind : trim kind ≠ "") :
    Passes (ValidatorReport.new kind passed summary details) ↔ passed = true := by
  rw [ValidatorReport.new, dif_neg hkind]
  simp [Passes]

theorem not_passes_failed {kind summary : String} {fields : List (String × Value)} :
    ¬ Passes (do
      let details ← attributes (json fields)
      ValidatorReport.new kind false summary details) := by
  rintro ⟨report, hreport, hpassed⟩
  obtain ⟨details, -, h⟩ := except_bind_eq_ok.mp hreport
  unfold ValidatorReport.new at h
  split_ifs at h
  rw [← Except.ok.inj h] at hpassed
  simp at hpassed

section Fields

variable {serde : SerdeJson} {content : String} {contract : OutputContract}
  {constraints : TaskConstraints}

theorem missingFields_nil {object : List (String × Value)} :
    RequiredFieldsValidator.missingFields contract object = [] ↔
      ∀ name rule, contract.fields.get? name = some rule → rule.required = true →
        (object.lookup name).isSome = true := by
  unfold RequiredFieldsValidator.missingFields
  rw [List.map_eq_nil_iff, List.filter_eq_nil_iff]
  simp only [List.mem_filter, Prod.forall, OrdMap.mem_entries, and_imp, Bool.not_eq_true,
    Option.isNone_eq_false_iff]

theorem passes_requiredFields (h : constraints.outputContract = some contract) :
    Passes (RequiredFieldsValidator.validate serde content constraints) ↔
      ∃ object, parseJsonObject serde content = .ok object ∧
        ∀ name rule, contract.fields.get? name = some rule → rule.required = true →
          (object.lookup name).isSome = true := by
  unfold RequiredFieldsValidator.validate
  simp only [h, ← missingFields_nil]
  cases parseJsonObject serde content with
  | error summary =>
    simp only [reduceCtorEq, false_and, exists_false, iff_false]
    exact not_passes_failed
  | ok object =>
    simp only [Except.ok.injEq, exists_eq_left', List.isEmpty_iff]
    split_ifs with hmissing
    · rw [passes_new (by decide)]
      simp [hmissing]
    · simp only [hmissing, iff_false]
      exact not_passes_failed

theorem violation_eq_none {object : List (String × Value)} {name : String} {rule : OutputFieldRule} :
    AllowedStringValuesValidator.violation object (name, rule) = none ↔
      (rule.allowedStringValues.keys ≠ [] → ∀ value, object.lookup name = some value →
        ∃ actual ∈ rule.allowedStringValues.keys, value = .string actual) := by
  unfold AllowedStringValuesValidator.violation
  simp only [List.isEmpty_iff]
  split_ifs with hempty
  · simp [hempty]
  · cases object.lookup name with
    | none => simp
    | some value =>
      cases value with
      | string actual => simp [hempty, OrdMap.mem_keys]
      | null | bool | number | array | object => simp [hempty]

theorem passes_allowedStringValues (h : constraints.outputContract = some contract) :
    Passes (AllowedStringValuesValidator.validate serde content constraints) ↔
      ∃ object, parseJsonObject serde content = .ok object ∧
        ∀ name rule, contract.fields.get? name = some rule →
          rule.allowedStringValues.keys ≠ [] → ∀ value, object.lookup name = some value →
            ∃ actual ∈ rule.allowedStringValues.keys, value = .string actual := by
  unfold AllowedStringValuesValidator.validate
  simp only [h, ← violation_eq_none]
  cases parseJsonObject serde content with
  | error summary =>
    simp only [reduceCtorEq, false_and, exists_false, iff_false]
    exact not_passes_failed
  | ok object =>
    have hviolations :
        contract.fields.entries.filterMap (AllowedStringValuesValidator.violation object) = [] ↔
          ∀ name rule, contract.fields.get? name = some rule →
            AllowedStringValuesValidator.violation object (name, rule) = none := by
      simp only [List.filterMap_eq_nil_iff, Prod.forall, OrdMap.mem_entries]
    simp only [Except.ok.injEq, exists_eq_left', List.isEmpty_iff, ← hviolations]
    split_ifs with hnone
    · rw [passes_new (by decide)]
      simp [hnone]
    · simp only [hnone, iff_false]
      exact not_passes_failed

end Fields

end Choreographer.OutputValidators
