import Choreographer.Values

namespace Choreographer.Contracts

open Choreographer.Lib.SortedMaps Choreographer.Lib.Updates
open Choreographer.Texts Choreographer.Values

def maxContractIdLen : Nat := 128
def maxFields : Nat := 128
def maxFieldNameLen : Nat := 128
def maxAllowedValuesPerField : Nat := 128
def maxAllowedValueLen : Nat := 256
def maxJsonSchemaLen : Nat := 256 * 1024
def maxAllowedEvidenceRefs : Nat := 1024
def maxEvidenceBodyLen : Nat := 16 * 1024

def validateText (value field : String) (maxLen : Nat) : Except DomainError String :=
  let trimmed := trim value
  if trimmed = "" then .error (.emptyField field)
  else if trimmed.utf8ByteSize > maxLen then
    .error (.fieldTooLong field trimmed.utf8ByteSize maxLen)
  else .ok trimmed

theorem validateText_eq_ok {value field s : String} {maxLen : Nat}
    (h : validateText value field maxLen = .ok s) : s = trim value := by
  unfold validateText at h
  dsimp only at h
  split_ifs at h
  exact (Except.ok.inj h).symm

inductive OutputFormat
  | jsonObject
deriving DecidableEq, Repr

/-- Whether a field has to be there, and which texts it may have. -/
structure OutputFieldRule where
  required : Bool
  allowedStringValues : OrdSet String

namespace OutputFieldRule

def new (required : Bool) (allowedStringValues : List String) :
    Except DomainError OutputFieldRule := do
  let values ← allowedStringValues.mapM fun value =>
    validateText value "output_contract.field.allowed_value" maxAllowedValueLen
  let values := OrdSet.ofList values
  if values.size > maxAllowedValuesPerField then
    .error (.outOfRange "output_contract.field.allowed_values" values.size 0
      maxAllowedValuesPerField)
  else pure ⟨required, values⟩

theorem new_ok {required : Bool} {values : List String} {rule : OutputFieldRule}
    (h : new required values = .ok rule) :
    rule.required = required ∧
      ∀ value, value ∈ rule.allowedStringValues.keys ↔ value ∈ values.map trim := by
  unfold new at h
  obtain ⟨texts, htexts, h⟩ := except_bind_eq_ok.mp h
  dsimp only at h
  split_ifs at h
  obtain rfl := Except.ok.inj h
  refine ⟨rfl, fun value => ?_⟩
  rw [OrdSet.mem_keys_ofList, eq_map_of_mapM_ok (fun _ _ => validateText_eq_ok) htexts]

end OutputFieldRule

/-- What a judge reads, and how sure it has to be. -/
structure SemanticSupportRule where
  minConfidence : Fin 256
  bodies : OrdMap String String

namespace SemanticSupportRule

def validateBody (entry : String × String) : Except DomainError (String × String) := do
  let reference ← validateText entry.1 "output_contract.evidence.semantic_support.body_ref"
    maxAllowedValueLen
  let body ← validateText entry.2 "output_contract.evidence.semantic_support.body"
    maxEvidenceBodyLen
  pure (reference, body)

def new (minConfidence : Fin 256) (bodies : List (String × String)) :
    Except DomainError SemanticSupportRule := do
  if minConfidence > 100 then
    .error (.outOfRange "output_contract.evidence.semantic_support.min_confidence"
      minConfidence.val 0 100)
  else
    let bodies ← bodies.mapM validateBody
    let bodies := OrdMap.ofList bodies
    if bodies.size = 0 then
      .error (.emptyField "output_contract.evidence.semantic_support.bodies")
    else if bodies.size > maxAllowedEvidenceRefs then
      .error (.outOfRange "output_contract.evidence.semantic_support.bodies" bodies.size 1
        maxAllowedEvidenceRefs)
    else pure ⟨minConfidence, bodies⟩

def body (self : SemanticSupportRule) (reference : String) : Option String :=
  self.bodies.get? reference

end SemanticSupportRule

/-- Where the claims are, where each says what it rests on, and what counts. -/
structure EvidenceGroundingRule where
  claimsField : String
  refsField : String
  allowedRefs : OrdSet String
  semanticSupport : Option SemanticSupportRule

namespace EvidenceGroundingRule

def new (claimsField refsField : String) (allowedRefs : List String) :
    Except DomainError EvidenceGroundingRule := do
  let claimsField ← validateText claimsField "output_contract.evidence.claims_field" maxFieldNameLen
  let refsField ← validateText refsField "output_contract.evidence.refs_field" maxFieldNameLen
  let allowedRefs ← allowedRefs.mapM fun reference =>
    validateText reference "output_contract.evidence.allowed_ref" maxAllowedValueLen
  let allowedRefs := OrdSet.ofList allowedRefs
  if allowedRefs.size = 0 then .error (.emptyField "output_contract.evidence.allowed_refs")
  else if allowedRefs.size > maxAllowedEvidenceRefs then
    .error (.outOfRange "output_contract.evidence.allowed_refs" allowedRefs.size 1
      maxAllowedEvidenceRefs)
  else pure ⟨claimsField, refsField, allowedRefs, none⟩

/-- Every allowed reference must have a body the judge can read. -/
def withSemanticSupport (self : EvidenceGroundingRule) (rule : SemanticSupportRule) :
    Except DomainError EvidenceGroundingRule :=
  if self.allowedRefs.keys.any fun reference => !rule.bodies.contains reference then
    .error (.emptyField "output_contract.evidence.semantic_support.bodies")
  else .ok { self with semanticSupport := some rule }

theorem withSemanticSupport_ok {base rule : EvidenceGroundingRule} {support : SemanticSupportRule}
    (h : base.withSemanticSupport support = .ok rule) :
    rule.semanticSupport = some support ∧
      ∀ reference, rule.allowedRefs.contains reference = true →
        ∃ body, support.body reference = some body := by
  unfold withSemanticSupport at h
  split at h
  · simp at h
  · next hall =>
    obtain rfl := Except.ok.inj h
    refine ⟨rfl, fun reference hmem => ?_⟩
    simp only [List.any_eq_true, not_exists, not_and] at hall
    have hbody := hall reference (OrdMap.mem_keys.mpr hmem)
    exact OrdMap.contains_iff.mp (by simpa using hbody)

end EvidenceGroundingRule

structure OutputContract where
  contractId : String
  format : OutputFormat
  fields : OrdMap String OutputFieldRule
  jsonSchema : String
  evidenceGrounding : Option EvidenceGroundingRule

def normalizeOptionalSchema (raw : String) : Except DomainError String :=
  let trimmed := trim raw
  if trimmed = "" then .ok ""
  else if trimmed.utf8ByteSize > maxJsonSchemaLen then
    .error (.fieldTooLong "output_contract.json_schema" trimmed.utf8ByteSize maxJsonSchemaLen)
  else .ok trimmed

namespace OutputContract

def normalizeField (entry : String × OutputFieldRule) :
    Except DomainError (String × OutputFieldRule) := do
  let fieldName ← validateText entry.1 "output_contract.field.name" maxFieldNameLen
  pure (fieldName, entry.2)

def newWithSchema (contractId : String) (format : OutputFormat)
    (fields : OrdMap String OutputFieldRule) (jsonSchema : String) :
    Except DomainError OutputContract := do
  let contractId ← validateText contractId "output_contract.contract_id" maxContractIdLen
  if fields.size > maxFields then
    .error (.outOfRange "output_contract.fields" fields.size 0 maxFields)
  else
    let normalized ← fields.entries.mapM normalizeField
    let jsonSchema ← normalizeOptionalSchema jsonSchema
    pure ⟨contractId, format, OrdMap.ofList normalized, jsonSchema, none⟩

theorem newWithSchema_ok {contractId jsonSchema : String} {format : OutputFormat}
    {fields : OrdMap String OutputFieldRule} {contract : OutputContract}
    (h : newWithSchema contractId format fields jsonSchema = .ok contract) :
    contract.fields = OrdMap.ofList (fields.entries.map fun entry => (trim entry.1, entry.2)) := by
  unfold newWithSchema at h
  obtain ⟨id, -, h⟩ := except_bind_eq_ok.mp h
  split_ifs at h
  obtain ⟨normalized, hnormalized, h⟩ := except_bind_eq_ok.mp h
  obtain ⟨schema, -, h⟩ := except_bind_eq_ok.mp h
  obtain rfl := Except.ok.inj h
  have hnames : normalized = fields.entries.map fun entry => (trim entry.1, entry.2) := by
    apply eq_map_of_mapM_ok _ hnormalized
    intro entry named hentry
    obtain ⟨name, hname, hnamed⟩ := except_bind_eq_ok.mp hentry
    rw [← Except.ok.inj hnamed, validateText_eq_ok hname]
  rw [hnames]

def withEvidenceGrounding (self : OutputContract) (rule : EvidenceGroundingRule) :
    OutputContract := { self with evidenceGrounding := some rule }

end OutputContract

/-- What shapes a deliberation. -/
structure TaskConstraints where
  rounds : U32
  numAgents : Option U32
  outputContract : Option OutputContract

namespace TaskConstraints

def default : TaskConstraints := ⟨1, none, none⟩

def withOutputContract (self : TaskConstraints) (outputContract : OutputContract) :
    TaskConstraints := { self with outputContract := some outputContract }

end TaskConstraints

end Choreographer.Contracts
