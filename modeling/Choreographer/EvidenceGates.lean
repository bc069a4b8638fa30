import Choreographer.Contracts
import Choreographer.Deliberations
import Choreographer.Lib.Programs

namespace Choreographer.EvidenceGates

open Choreographer.Lib.SortedMaps Choreographer.Lib.Updates Choreographer.Lib.Programs
open Choreographer.Texts Choreographer.Values Choreographer.Contracts Choreographer.Deliberations

/-- How JSON is read and written. An unreadable text has an error to show. -/
structure SerdeJson where
  fromStr : String → Except String Value
  toString : Value → String

def json (fields : List (String × Value)) : Value := .object (OrdMap.ofList fields).entries

def jsonNat (n : Nat) : Value := .number (.posInt ⟨n % 2 ^ 64, Nat.mod_lt _ (by simp)⟩)

def valueTypeName : Value → String
  | .null => "null"
  | .bool _ => "boolean"
  | .number _ => "number"
  | .string _ => "string"
  | .array _ => "array"
  | .object _ => "object"

def attributes : Value → Except DomainError Attributes
  | .object entries => Attributes.new (OrdMap.ofList entries)
  | _ => .error (.invariantViolated "validator details must be JSON objects")

section Parsing

def fence : List Char := ['`', '`', '`']

def stripStart (mark s : List Char) : Option (List Char) :=
  if mark.isPrefixOf s then some (s.drop mark.length) else none

def stripEnd (mark s : List Char) : Option (List Char) :=
  if mark.isSuffixOf s then some (s.take (s.length - mark.length)) else none

def splitOnce (c : Char) (s : List Char) : Option (List Char × List Char) :=
  match s.span (· ≠ c) with
  | (_, []) => none
  | (before, _ :: after) => some (before, after)

/-- A payload that is one fenced block is what is inside of the fence. -/
def stripMarkdownFences (content : String) : String :=
  let trimmed := trim content
  match (stripStart fence trimmed.toList).bind (stripEnd fence) with
  | none => trimmed
  | some inner =>
    match splitOnce '\n' inner with
    | some (info, body) =>
      if (trim (String.ofList info)).toList.contains ' ' then trim (String.ofList inner)
      else trim (String.ofList body)
    | none => trim (String.ofList inner)

def parseJsonObject (serde : SerdeJson) (proposalContent : String) :
    Except String (List (String × Value)) :=
  match serde.fromStr (stripMarkdownFences proposalContent) with
  | .error err => .error ("proposal is not valid JSON: " ++ err)
  | .ok (.object object) => .ok object
  | .ok other => .error ("proposal root must be a JSON object, got " ++ valueTypeName other)

end Parsing

section Claims

variable (serde : SerdeJson)

def claimTextPreviewLen : Nat := 80

def takeBytes : Nat → List Char → List Char
  | _, [] => []
  | n, c :: cs => if c.utf8Size ≤ n then c :: takeBytes (n - c.utf8Size) cs else []

def claimText (claim : List (String × Value)) : String :=
  ((claim.lookup "text").bind Value.asStr).getD (serde.toString (.object claim))

def claimPreview (claim : List (String × Value)) : String :=
  let raw := claimText serde claim
  if raw.utf8ByteSize > claimTextPreviewLen then
    String.ofList (takeBytes claimTextPreviewLen raw.toList) ++ "…"
  else raw

def fieldArray (object : List (String × Value)) (field : String) : Option (List Value) :=
  (object.lookup field).bind Value.asArray

def orphanRef (rule : EvidenceGroundingRule) (reference : Value) : Option String :=
  reference.asStr.filter fun id => !rule.allowedRefs.contains id

def notAString (index : Nat) (preview : String) (reference : Value) : Option Value :=
  match reference.asStr with
  | some _ => none
  | none => some (json [("claim_index", jsonNat index), ("claim_preview", .string preview),
      ("problem", .string "evidence ref is not a string"),
      ("actual_type", .string (valueTypeName reference))])

def claimViolations (index : Nat) (claim : Value) (rule : EvidenceGroundingRule) : List Value :=
  match claim.asObject with
  | none => [json [("claim_index", jsonNat index), ("problem", .string "claim is not a JSON object"),
      ("actual_type", .string (valueTypeName claim))]]
  | some claimObject =>
    let preview := claimPreview serde claimObject
    match fieldArray claimObject rule.refsField with
    | none => [json [("claim_index", jsonNat index), ("claim_preview", .string preview),
        ("problem", .string ("refs field `" ++ rule.refsField ++ "` is missing or not an array"))]]
    | some [] => [json [("claim_index", jsonNat index), ("claim_preview", .string preview),
        ("problem", .string "claim cites no evidence")]]
    | some refs =>
      let violations := refs.filterMap (notAString index preview)
      let orphans := refs.filterMap (orphanRef rule)
      if orphans.isEmpty then violations
      else violations ++ [json [("claim_index", jsonNat index), ("claim_preview", .string preview),
        ("problem", .string "evidence refs not present in the allowed pack"),
        ("orphan_refs", .array (orphans.map .string))]]

end Claims

namespace ClaimsEvidenceGroundedValidator

def kind : String := "claims-evidence-grounded"

def validate (serde : SerdeJson) (proposalContent : String) (constraints : TaskConstraints) :
    Except DomainError ValidatorReport :=
  match constraints.outputContract with
  | none => ValidatorReport.new kind true "no evidence grounding configured" Attributes.empty
  | some contract =>
    match contract.evidenceGrounding with
    | none => ValidatorReport.new kind true "no evidence grounding configured" Attributes.empty
    | some rule =>
      match parseJsonObject serde proposalContent with
      | .error summary => do
        let details ← attributes (json [("contract_id", .string contract.contractId)])
        ValidatorReport.new kind false summary details
      | .ok object =>
        match fieldArray object rule.claimsField with
        | none => do
          let details ← attributes (json [("contract_id", .string contract.contractId),
            ("claims_field", .string rule.claimsField)])
          ValidatorReport.new kind false
            ("claims field `" ++ rule.claimsField ++ "` is missing or not an array") details
        | some claims =>
          let violations := (claims.mapIdx fun index claim =>
            claimViolations serde index claim rule).flatten
          if violations.isEmpty then
            ValidatorReport.new kind true
              ("all " ++ toString claims.length ++ " claims grounded in the evidence pack (" ++
                toString rule.allowedRefs.size ++ " allowed refs)") Attributes.empty
          else do
            let details ← attributes (json [("contract_id", .string contract.contractId),
              ("claims_field", .string rule.claimsField), ("refs_field", .string rule.refsField),
              ("violations", .array violations)])
            ValidatorReport.new kind false
              (toString violations.length ++ " of " ++ toString claims.length ++
                " claims lack grounded evidence") details

end ClaimsEvidenceGroundedValidator

structure EvidenceExcerpt where
  reference : String
  body : String

structure SupportVerdict where
  supported : Bool
  confidence : Fin 256
  rationale : String

/-- What the judge is asked. -/
structure Question where
  claimText : String
  evidence : List EvidenceExcerpt

def judging : Interface := ⟨Question, fun _ => Except DomainError SupportVerdict⟩

abbrev Gate := ExceptT DomainError (Prog judging)

def assess (claimText : String) (evidence : List EvidenceExcerpt) : Gate SupportVerdict :=
  ExceptT.mk (Prog.call (I := judging) ⟨claimText, evidence⟩)

section Judging

variable (serde : SerdeJson) (refsField : String) (support : SemanticSupportRule)

def maxJudgedClaims : Nat := 64

def excerptOf (reference : String) : Option EvidenceExcerpt :=
  (support.body reference).map fun body => ⟨reference, body⟩

def citedExcerpts (claim : List (String × Value)) : List EvidenceExcerpt :=
  ((fieldArray claim refsField).map fun refs =>
    (refs.filterMap Value.asStr).filterMap (excerptOf support)).getD []

def accepts (verdict : SupportVerdict) : Bool :=
  verdict.supported && decide (support.minConfidence ≤ verdict.confidence)

def recordVerdict (index : Nat) (preview : String) (excerpts : List EvidenceExcerpt)
    (verdict : SupportVerdict) : Value :=
  json [("claim_index", jsonNat index), ("claim_preview", .string preview),
    ("refs", .array (excerpts.map fun excerpt => .string excerpt.reference)),
    ("supported", .bool verdict.supported), ("confidence", jsonNat verdict.confidence.val),
    ("rationale", .string verdict.rationale)]

def unsupported (index : Nat) (preview : String) (verdict : SupportVerdict) : Value :=
  json [("claim_index", jsonNat index), ("claim_preview", .string preview),
    ("problem", .string (if verdict.supported then
      "supported but confidence " ++ toString verdict.confidence.val ++
        " is below min_confidence " ++ toString support.minConfidence.val
      else "cited evidence does not support the claim"))]

def judgeClaim (index : Nat) (claim : Value) : Gate (List Value × List Value) :=
  match claim.asObject with
  | none => pure ([], [json [("claim_index", jsonNat index),
      ("problem", .string "claim is not a JSON object"),
      ("actual_type", .string (valueTypeName claim))]])
  | some claimObject =>
    let preview := claimPreview serde claimObject
    let excerpts := citedExcerpts refsField support claimObject
    if excerpts.isEmpty then
      pure ([], [json [("claim_index", jsonNat index), ("claim_preview", .string preview),
        ("problem", .string "claim cites no evidence with a judgeable body")]])
    else do
      let verdict ← assess (claimText serde claimObject) excerpts
      pure ([recordVerdict index preview excerpts verdict],
        if accepts support verdict then [] else [unsupported support index preview verdict])

def judgeClaims : Nat → List Value → Gate (List Value × List Value)
  | _, [] => pure ([], [])
  | index, claim :: rest => do
    let (verdicts, violations) ← judgeClaim serde refsField support index claim
    let (moreVerdicts, moreViolations) ← judgeClaims (index + 1) rest
    pure (verdicts ++ moreVerdicts, violations ++ moreViolations)

end Judging

/-- Whether a judge is wired. -/
structure ClaimsEvidenceSupportedValidator where
  judge : Bool

namespace ClaimsEvidenceSupportedValidator

def kind : String := "claims-evidence-supported"

def checked {α : Type} (x : Except DomainError α) : Gate α := ExceptT.mk (Prog.done x)

def validate (self : ClaimsEvidenceSupportedValidator) (serde : SerdeJson)
    (proposalContent : String) (constraints : TaskConstraints) : Gate ValidatorReport :=
  match constraints.outputContract with
  | none => checked (ValidatorReport.new kind true "no semantic support configured" Attributes.empty)
  | some contract =>
    match contract.evidenceGrounding with
    | none =>
      checked (ValidatorReport.new kind true "no semantic support configured" Attributes.empty)
    | some rule =>
      match rule.semanticSupport with
      | none =>
        checked (ValidatorReport.new kind true "no semantic support configured" Attributes.empty)
      | some support =>
        if !self.judge then
          throw (.invariantViolated ("semantic support demanded by the contract but no " ++
            "evidence-support judge is wired (set CHOREO_SUPPORT_JUDGE_ENABLED)"))
        else
          match parseJsonObject serde proposalContent with
          | .error summary => do
            let details ← checked (attributes (json [("contract_id", .string contract.contractId)]))
            checked (ValidatorReport.new kind false summary details)
          | .ok object =>
            match fieldArray object rule.claimsField with
            | none => do
              let details ← checked (attributes (json [
                ("contract_id", .string contract.contractId),
                ("claims_field", .string rule.claimsField)]))
              checked (ValidatorReport.new kind false
                ("claims field `" ++ rule.claimsField ++ "` is missing or not an array") details)
            | some claims =>
              if claims.length > maxJudgedClaims then do
                let details ← checked (attributes (json [
                  ("contract_id", .string contract.contractId)]))
                checked (ValidatorReport.new kind false
                  (toString claims.length ++ " claims exceed the judgeable limit of " ++
                    toString maxJudgedClaims) details)
              else do
                let (verdicts, violations) ← judgeClaims serde rule.refsField support 0 claims
                let details ← checked (attributes (json [
                  ("contract_id", .string contract.contractId),
                  ("min_confidence", jsonNat support.minConfidence.val),
                  ("verdicts", .array verdicts), ("violations", .array violations)]))
                if violations.isEmpty then
                  checked (ValidatorReport.new kind true
                    ("all " ++ toString claims.length ++
                      " claims semantically supported by their cited evidence (min_confidence " ++
                      toString support.minConfidence.val ++ ")") details)
                else
                  checked (ValidatorReport.new kind false
                    (toString violations.length ++ " of " ++ toString claims.length ++
                      " claims lack semantic support from their cited evidence") details)

end ClaimsEvidenceSupportedValidator

/-- A question to the judge and its answer. -/
structure Exchange where
  question : Question
  answer : Except DomainError SupportVerdict

/-- Any judge at all; what is asked and answered is on record. -/
def exec : Semantics judging (List Exchange) := fun question w answer w' =>
  w' = w ++ [⟨question, answer⟩]

section Grounding

variable {serde : SerdeJson} {rule : EvidenceGroundingRule} {index : Nat} {claim : Value}

/-- A claim that cites something, and only what is allowed. -/
def Grounded (rule : EvidenceGroundingRule) (claimObject : List (String × Value))
    (refs : List String) : Prop :=
  fieldArray claimObject rule.refsField = some (refs.map .string) ∧ refs ≠ [] ∧
    ∀ id ∈ refs, rule.allowedRefs.contains id = true

theorem strings_of_filterMap {preview : String} {refs : List Value}
    (hs : refs.filterMap (notAString index preview) = [])
    (ho : refs.filterMap (orphanRef rule) = []) :
    ∃ ids : List String, refs = ids.map .string ∧ ∀ id ∈ ids, rule.allowedRefs.contains id = true := by
  induction refs with
  | nil => exact ⟨[], rfl, by simp⟩
  | cons reference rest ih =>
    rw [List.filterMap_eq_nil_iff, List.forall_mem_cons] at hs ho
    obtain ⟨ids, hids, hall⟩ := ih (List.filterMap_eq_nil_iff.mpr hs.2)
      (List.filterMap_eq_nil_iff.mpr ho.2)
    cases reference with
    | string id =>
      refine ⟨id :: ids, by rw [hids, List.map_cons], List.forall_mem_cons.mpr ⟨?_, hall⟩⟩
      simpa [orphanRef, Value.asStr] using ho.1
    | _ => simp [notAString, Value.asStr] at hs

theorem grounded_of_claimViolations (h : claimViolations serde index claim rule = []) :
    ∃ claimObject refs, claim = .object claimObject ∧ Grounded rule claimObject refs := by
  cases claim with
  | object claimObject =>
    simp only [claimViolations, Value.asObject] at h
    split at h
    · simp at h
    · simp at h
    · next refs hne harray =>
      split at h
      · next horphans =>
        obtain ⟨ids, rfl, hall⟩ := strings_of_filterMap h (List.isEmpty_iff.mp horphans)
        exact ⟨claimObject, ids, rfl, harray, by rintro rfl; exact hne rfl, hall⟩
      · simp at h
  | _ => simp [claimViolations, Value.asObject] at h

theorem ValidatorReport.passed_of_new {kind summary : String} {passed : Bool}
    {details : Attributes} {report : ValidatorReport}
    (h : ValidatorReport.new kind passed summary details = .ok report) : report.passed = passed := by
  unfold ValidatorReport.new at h
  split at h
  · simp at h
  · rw [← Except.ok.inj h]

theorem grounded_of_validate {payload : String} {constraints : TaskConstraints}
    {contract : OutputContract} {report : ValidatorReport}
    (hc : constraints.outputContract = some contract)
    (hr : contract.evidenceGrounding = some rule)
    (h : ClaimsEvidenceGroundedValidator.validate serde payload constraints = .ok report)
    (hp : report.passed = true) :
    ∃ object claims, parseJsonObject serde payload = .ok object ∧
      fieldArray object rule.claimsField = some claims ∧
      ∀ claim ∈ claims, ∃ claimObject refs, claim = .object claimObject ∧
        Grounded rule claimObject refs := by
  simp only [ClaimsEvidenceGroundedValidator.validate, hc, hr] at h
  split at h
  · rw [except_bind_eq_ok] at h
    obtain ⟨details, _, h⟩ := h
    simp [ValidatorReport.passed_of_new h] at hp
  · next object hparse =>
    split at h
    · rw [except_bind_eq_ok] at h
      obtain ⟨details, _, h⟩ := h
      simp [ValidatorReport.passed_of_new h] at hp
    · next claims harray =>
      split at h
      · next hnone =>
        refine ⟨object, claims, hparse, harray, fun claim hclaim => ?_⟩
        obtain ⟨index, hindex⟩ := List.mem_iff_getElem?.mp hclaim
        rw [List.isEmpty_iff, List.flatten_eq_nil_iff] at hnone
        have hclean := hnone (claimViolations serde index claim rule)
          (List.mem_iff_getElem?.mpr ⟨index, by simp [hindex]⟩)
        exact grounded_of_claimViolations hclean
      · rw [except_bind_eq_ok] at h
        obtain ⟨details, _, h⟩ := h
        simp [ValidatorReport.passed_of_new h] at hp

end Grounding

section Support

variable {serde : SerdeJson} {refsField : String} {support : SemanticSupportRule} {index : Nat}
  {w w' : List Exchange}

/-- A claim the judge was asked about, with what it cites, and was sure enough of. -/
def Judged (serde : SerdeJson) (refsField : String) (support : SemanticSupportRule) (claim : Value)
    (exchange : Exchange) : Prop :=
  ∃ claimObject verdict, claim = .object claimObject ∧
    exchange = ⟨⟨claimText serde claimObject, citedExcerpts refsField support claimObject⟩,
      .ok verdict⟩ ∧
    verdict.supported = true ∧ support.minConfidence ≤ verdict.confidence

def Answered (exchanges : List Exchange) : Prop :=
  ∀ exchange ∈ exchanges, ∃ verdict, exchange.answer = .ok verdict

theorem judgeClaim_ok {claim : Value} {verdicts violations : List Value}
    (h : Returns exec (judgeClaim serde refsField support index claim).run w
      (.ok (verdicts, violations)) w') :
    ∃ exchanges, w' = w ++ exchanges ∧ Answered exchanges ∧
      (violations = [] → ∃ exchange, exchanges = [exchange] ∧
        Judged serde refsField support claim exchange) := by
  cases claim with
  | object claimObject =>
    simp only [judgeClaim, Value.asObject] at h
    split at h
    · obtain ⟨hr, rfl⟩ := returns_pure.mp h
      obtain ⟨_, rfl⟩ := Prod.mk.inj (Except.ok.inj hr)
      exact ⟨[], by simp, by simp [Answered], by simp⟩
    · obtain ⟨verdict, v, hv, hrest⟩ := returns_bind_ok.mp h
      obtain rfl := returns_call.mp hv
      obtain ⟨hr, rfl⟩ := returns_pure.mp hrest
      obtain ⟨_, rfl⟩ := Prod.mk.inj (Except.ok.inj hr)
      refine ⟨_, rfl, by simp [Answered], fun hviol => ⟨_, rfl, claimObject, verdict, rfl, rfl, ?_⟩⟩
      split at hviol
      · next hacc => simpa [accepts] using hacc
      · simp at hviol
  | _ =>
    obtain ⟨hr, rfl⟩ := returns_pure.mp h
    obtain ⟨_, rfl⟩ := Prod.mk.inj (Except.ok.inj hr)
    exact ⟨[], by simp, by simp [Answered], by simp⟩

theorem judgeClaims_ok {claims verdicts violations : List Value}
    (h : Returns exec (judgeClaims serde refsField support index claims).run w
      (.ok (verdicts, violations)) w') :
    ∃ exchanges, w' = w ++ exchanges ∧ Answered exchanges ∧
      (violations = [] → List.Forall₂ (Judged serde refsField support) claims exchanges) := by
  induction claims generalizing index verdicts violations w with
  | nil =>
    obtain ⟨_, rfl⟩ := returns_pure.mp h
    exact ⟨[], by simp, by simp [Answered], fun _ => .nil⟩
  | cons claim rest ih =>
    obtain ⟨⟨verdicts₁, violations₁⟩, v, hone, hmore⟩ := returns_bind_ok.mp h
    obtain ⟨⟨verdicts₂, violations₂⟩, v₂, hrest, hpure⟩ := returns_bind_ok.mp hmore
    obtain ⟨hr, rfl⟩ := returns_pure.mp hpure
    obtain ⟨_, rfl⟩ := Prod.mk.inj (Except.ok.inj hr)
    obtain ⟨exchanges₁, rfl, hans₁, hj₁⟩ := judgeClaim_ok hone
    obtain ⟨exchanges₂, rfl, hans₂, hj₂⟩ := ih hrest
    refine ⟨exchanges₁ ++ exchanges₂, by rw [List.append_assoc], ?_, fun hviol => ?_⟩
    · exact List.forall_mem_append.mpr ⟨hans₁, hans₂⟩
    · obtain ⟨h₁, h₂⟩ := List.append_eq_nil_iff.mp hviol
      obtain ⟨exchange, rfl, hj⟩ := hj₁ h₁
      exact .cons hj (hj₂ h₂)

theorem returns_report {kind summary : String} {passed : Bool} {value : Value}
    {report : ValidatorReport}
    (h : Returns exec (do
      let details ← ClaimsEvidenceSupportedValidator.checked (attributes value)
      ClaimsEvidenceSupportedValidator.checked
        (ValidatorReport.new kind passed summary details) : Gate ValidatorReport).run w
      (.ok report) w') : w' = w ∧ report.passed = passed := by
  obtain ⟨details, v, hd, hrest⟩ := returns_bind_ok.mp h
  obtain ⟨_, rfl⟩ := returns_ofExcept.mp hd
  obtain ⟨hnew, rfl⟩ := returns_ofExcept.mp hrest
  exact ⟨rfl, ValidatorReport.passed_of_new hnew.symm⟩

theorem judged_of_validate {self : ClaimsEvidenceSupportedValidator} {payload : String}
    {constraints : TaskConstraints} {contract : OutputContract} {rule : EvidenceGroundingRule}
    {report : ValidatorReport} (hc : constraints.outputContract = some contract)
    (hr : contract.evidenceGrounding = some rule) (hs : rule.semanticSupport = some support)
    (h : Returns exec (self.validate serde payload constraints).run w (.ok report) w') :
    self.judge = true ∧ ∃ exchanges, w' = w ++ exchanges ∧ Answered exchanges ∧
      (report.passed = true → ∃ object claims, parseJsonObject serde payload = .ok object ∧
        fieldArray object rule.claimsField = some claims ∧
        List.Forall₂ (Judged serde rule.refsField support) claims exchanges) := by
  simp only [ClaimsEvidenceSupportedValidator.validate, hc, hr, hs] at h
  split at h
  · exact absurd (returns_done.mp h).1 (by simp)
  · next hjudge =>
    refine ⟨by simpa using hjudge, ?_⟩
    split at h
    · obtain ⟨rfl, hp⟩ := returns_report h
      exact ⟨[], by simp, by simp [Answered], by simp [hp]⟩
    · next object hparse =>
      split at h
      · obtain ⟨rfl, hp⟩ := returns_report h
        exact ⟨[], by simp, by simp [Answered], by simp [hp]⟩
      · next claims harray =>
        split at h
        · obtain ⟨rfl, hp⟩ := returns_report h
          exact ⟨[], by simp, by simp [Answered], by simp [hp]⟩
        · obtain ⟨⟨verdicts, violations⟩, v, hjudged, hrest⟩ := returns_bind_ok.mp h
          obtain ⟨exchanges, rfl, hans, hall⟩ := judgeClaims_ok hjudged
          obtain ⟨details, v₂, hd, hfinal⟩ := returns_bind_ok.mp hrest
          obtain ⟨_, rfl⟩ := returns_ofExcept.mp hd
          split at hfinal
          · next hnone =>
            obtain ⟨_, rfl⟩ := returns_ofExcept.mp hfinal
            exact ⟨exchanges, rfl, hans, fun _ => ⟨object, claims, hparse, harray,
              hall (List.isEmpty_iff.mp hnone)⟩⟩
          · obtain ⟨hnew, rfl⟩ := returns_ofExcept.mp hfinal
            have hp := ValidatorReport.passed_of_new hnew.symm
            exact ⟨exchanges, rfl, hans, by simp [hp]⟩

end Support

/-- A claim that cites allowed evidence, of which the judge has read the text of every
reference in the order they are cited and found that it bears the claim out. -/
def Backed (serde : SerdeJson) (rule : EvidenceGroundingRule) (support : SemanticSupportRule)
    (claim : Value) (exchange : Exchange) : Prop :=
  ∃ claimObject refs, claim = .object claimObject ∧ Grounded rule claimObject refs ∧
    exchange.question.claimText = claimText serde claimObject ∧
    List.Forall₂ (fun reference excerpt => excerpt.reference = reference ∧
      support.body reference = some excerpt.body) refs exchange.question.evidence ∧
    ∃ verdict, exchange.answer = .ok verdict ∧ verdict.supported = true ∧
      support.minConfidence ≤ verdict.confidence

theorem citedExcerpts_of_bodies {support : SemanticSupportRule} {refs : List String}
    (h : ∀ id ∈ refs, ∃ body, support.body id = some body) :
    List.Forall₂ (fun reference excerpt => excerpt.reference = reference ∧
      support.body reference = some excerpt.body) refs (refs.filterMap (excerptOf support)) := by
  induction refs with
  | nil => exact .nil
  | cons id rest ih =>
    rw [List.forall_mem_cons] at h
    obtain ⟨body, hbody⟩ := h.1
    have hexcerpt : excerptOf support id = some ⟨id, body⟩ := by simp [excerptOf, hbody]
    rw [List.filterMap_cons_some hexcerpt]
    exact .cons ⟨rfl, hbody⟩ (ih h.2)

theorem backed {serde : SerdeJson} {rule : EvidenceGroundingRule} {support : SemanticSupportRule}
    {claim : Value} {exchange : Exchange}
    (hbodies : ∀ id, rule.allowedRefs.contains id = true → ∃ body, support.body id = some body)
    (hg : ∃ claimObject refs, claim = .object claimObject ∧ Grounded rule claimObject refs)
    (hj : Judged serde rule.refsField support claim exchange) :
    Backed serde rule support claim exchange := by
  obtain ⟨claimObject, refs, rfl, hgrounded⟩ := hg
  obtain ⟨_, verdict, hobject, rfl, hsupported, hconfidence⟩ := hj
  obtain rfl := Value.object.inj hobject
  refine ⟨claimObject, refs, rfl, hgrounded, rfl, ?_, verdict, rfl, hsupported, hconfidence⟩
  obtain ⟨harray, _, hall⟩ := hgrounded
  have hcited : citedExcerpts rule.refsField support claimObject =
      refs.filterMap (excerptOf support) := by
    have hstrings : (refs.map Value.string).filterMap Value.asStr = refs := by
      rw [List.filterMap_map]
      exact List.filterMap_some
    simp [citedExcerpts, harray, hstrings]
  rw [hcited]
  exact citedExcerpts_of_bodies fun id hid => hbodies id (hall id hid)

theorem fieldArray_eq_some {object : List (String × Value)} {field : String}
    {items : List Value} :
    fieldArray object field = some items ↔ object.lookup field = some (.array items) := by
  unfold fieldArray
  cases object.lookup field with
  | none => simp
  | some value => cases value <;> simp [Value.asArray]

theorem forall_backed {serde : SerdeJson} {rule : EvidenceGroundingRule}
    {support : SemanticSupportRule} {claims : List Value} {exchanges : List Exchange}
    (hbodies : ∀ id, rule.allowedRefs.contains id = true → ∃ body, support.body id = some body)
    (hg : ∀ claim ∈ claims, ∃ claimObject refs, claim = .object claimObject ∧
      Grounded rule claimObject refs)
    (hj : List.Forall₂ (Judged serde rule.refsField support) claims exchanges) :
    List.Forall₂ (Backed serde rule support) claims exchanges := by
  induction hj with
  | nil => exact .nil
  | cons hone _ ih =>
    rw [List.forall_mem_cons] at hg
    exact .cons (backed hbodies hg.1 hone) (ih hg.2)

/-- What passes both gates is backed, claim by claim, and nothing passes the second
one unjudged. -/
theorem evidence_gates_sound (serde : SerdeJson) (self : ClaimsEvidenceSupportedValidator)
    (base rule : EvidenceGroundingRule) (support : SemanticSupportRule) (contract : OutputContract)
    (constraints : TaskConstraints) (payload : String) (w w' : List Exchange)
    (r : Except DomainError ValidatorReport) (hrule : base.withSemanticSupport support = .ok rule)
    (hcontract : constraints.outputContract = some (contract.withEvidenceGrounding rule))
    (hrun : Returns exec (self.validate serde payload constraints).run w r w') :
    (∀ grounded supported,
      ClaimsEvidenceGroundedValidator.validate serde payload constraints = .ok grounded →
      grounded.passed = true → r = .ok supported → supported.passed = true →
      ∃ object claims exchanges, parseJsonObject serde payload = .ok object ∧
        object.lookup rule.claimsField = some (.array claims) ∧ w' = w ++ exchanges ∧
        List.Forall₂ (Backed serde rule support) claims exchanges) ∧
    (self.judge = false → ∀ report, r ≠ .ok report) ∧
    (∀ exchanges exchange e, w' = w ++ exchanges → exchange ∈ exchanges →
      exchange.answer = .error e → ∀ report, r ≠ .ok report) := by
  obtain ⟨hsupport, hbodies⟩ := EvidenceGroundingRule.withSemanticSupport_ok hrule
  refine ⟨?_, ?_, ?_⟩
  · rintro grounded supported hg hgp rfl hsp
    obtain ⟨object, claims, hparse, harray, hground⟩ := grounded_of_validate hcontract rfl hg hgp
    obtain ⟨_, exchanges, hw, _, hjudged⟩ := judged_of_validate hcontract rfl hsupport hrun
    obtain ⟨object', claims', hparse', harray', hall⟩ := hjudged hsp
    obtain rfl := Except.ok.inj (hparse.symm.trans hparse')
    obtain rfl := Option.some.inj (harray.symm.trans harray')
    exact ⟨object, claims, exchanges, hparse, fieldArray_eq_some.mp harray, hw,
      forall_backed hbodies hground hall⟩
  · rintro hunwired report rfl
    obtain ⟨hjudge, _⟩ := judged_of_validate hcontract rfl hsupport hrun
    simp [hunwired] at hjudge
  · rintro exchanges exchange e hw hmem hfailed report rfl
    obtain ⟨_, exchanges', hw', hans, _⟩ := judged_of_validate hcontract rfl hsupport hrun
    obtain rfl := List.append_cancel_left (hw.symm.trans hw')
    obtain ⟨verdict, hok⟩ := hans exchange hmem
    rw [hfailed] at hok
    simp at hok

section Cited

def rising : List (String × Value) :=
  [("evidence_refs", .array [.string "ev-1", .string "ev-2"]), ("text", .string "up")]

def steady : List (String × Value) :=
  [("evidence_refs", .array [.string "ev-2"]), ("rate", .string "flat")]

def steadyText : String := "\x7b\"evidence_refs\":[\"ev-2\"],\"rate\":\"flat\"\x7d"

def citedPayload : String :=
  "\x7b\"claims\":[\x7b\"evidence_refs\":[\"ev-1\",\"ev-2\"],\"text\":\"up\"\x7d," ++
    steadyText ++ "]\x7d"

def citedJson : SerdeJson where
  fromStr s :=
    if s = citedPayload then .ok (.object [("claims", .array [.object rising, .object steady])])
    else .error "expected value at line 1 column 1"
  toString _ := steadyText

def citedBase : EvidenceGroundingRule :=
  ⟨"claims", "evidence_refs", OrdSet.ofList ["ev-1", "ev-2", "ev-3"], none⟩

def citedSupport : SemanticSupportRule :=
  ⟨70, OrdMap.ofList [("ev-1", "it went up"), ("ev-2", "no alarms"), ("ev-3", "a quiet day")]⟩

def citedRule : EvidenceGroundingRule := { citedBase with semanticSupport := some citedSupport }

def citedConstraints : TaskConstraints :=
  TaskConstraints.default.withOutputContract
    ⟨"decision", .jsonObject, OrdMap.empty, "", some citedRule⟩

def stated : Except DomainError SupportVerdict := .ok ⟨true, 90, "stated"⟩

def implied : Except DomainError SupportVerdict := .ok ⟨true, 70, "implied"⟩

def citedExchanges : List Exchange :=
  [⟨⟨"up", [⟨"ev-1", "it went up"⟩, ⟨"ev-2", "no alarms"⟩]⟩, stated⟩,
    ⟨⟨steadyText, [⟨"ev-2", "no alarms"⟩]⟩, implied⟩]

theorem cited_parsed : parseJsonObject citedJson citedPayload =
    .ok [("claims", .array [.object rising, .object steady])] := by
  have hbare : stripMarkdownFences citedPayload = citedPayload := by decide +kernel
  simp [parseJsonObject, hbare, citedJson]

theorem cited_constraints : citedConstraints.outputContract =
    some ⟨"decision", .jsonObject, OrdMap.empty, "", some citedRule⟩ := rfl

theorem cited_grounded : ∃ report,
    ClaimsEvidenceGroundedValidator.validate citedJson citedPayload citedConstraints = .ok report ∧
      report.passed = true := by
  unfold ClaimsEvidenceGroundedValidator.validate
  simp only [cited_constraints, cited_parsed]
  exact ⟨_, rfl, rfl⟩

theorem cited_supported : ∃ report,
    Returns exec (ClaimsEvidenceSupportedValidator.validate ⟨true⟩ citedJson citedPayload
      citedConstraints).run [] (.ok report) citedExchanges ∧ report.passed = true := by
  unfold ClaimsEvidenceSupportedValidator.validate
  simp only [cited_constraints, cited_parsed]
  refine ⟨?report, ?run, ?passed⟩
  case run =>
    refine .ask (a := stated) rfl ?_
    refine .ask (a := implied) rfl ?_
    exact .done _ _
  case passed => rfl

theorem evidence_gates_sound_cited : ∃ claims, claims.length = 2 ∧
    List.Forall₂ (Backed citedJson citedRule citedSupport) claims citedExchanges := by
  obtain ⟨grounded, hg, hgp⟩ := cited_grounded
  obtain ⟨supported, hs, hsp⟩ := cited_supported
  obtain ⟨hbacked, -⟩ := evidence_gates_sound citedJson ⟨true⟩ citedBase citedRule citedSupport
    ⟨"decision", .jsonObject, OrdMap.empty, "", none⟩ citedConstraints citedPayload [] citedExchanges
    (.ok supported) rfl rfl hs
  obtain ⟨object, claims, exchanges, -, -, rfl, hall⟩ := hbacked grounded supported hg hgp rfl hsp
  exact ⟨claims, hall.length_eq, hall⟩

end Cited

end Choreographer.EvidenceGates
