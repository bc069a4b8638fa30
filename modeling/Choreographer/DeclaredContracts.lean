import Choreographer.OutputValidators
import Choreographer.StepConfig

namespace Choreographer.DeclaredContracts

open Choreographer.Lib.SortedMaps Choreographer.Lib.Updates
open Choreographer.Texts Choreographer.Values Choreographer.Contracts Choreographer.Deliberations
open Choreographer.EvidenceGates Choreographer.OutputValidators Choreographer.StepConfig

variable {block : OrdMap String Value} {contract : OutputContract} {key name : String}

section Written

def requiredNames (block : OrdMap String Value) : List String :=
  listed (block.get? Key.requiredFields)

def allowedList (block : OrdMap String Value) (key : String) : Option (List String) :=
  (((block.get? Key.allowedValues).bind asMap).bind fun map => map.get? key).map (listed ∘ some)

/-- The object keeps to the block as it is written. -/
structure Obeys (block : OrdMap String Value) (object : List (String × Value)) : Prop where
  required : ∀ name ∈ requiredNames block, (object.lookup name).isSome = true
  allowed : ∀ key values, allowedList block key = some values → values ≠ [] →
    ∀ value, object.lookup (trim key) = some value → ∃ actual ∈ values, value = .string actual

/-- Both validators together ask for what the block asks for. -/
def Enforced (block : OrdMap String Value) (contract : OutputContract) : Prop :=
  ∀ (serde : SerdeJson) (text : String) (constraints : TaskConstraints),
    constraints.outputContract = some contract →
      (Passes (RequiredFieldsValidator.validate serde text constraints) ∧
        Passes (AllowedStringValuesValidator.validate serde text constraints) ↔
      ∃ object, parseJsonObject serde text = .ok object ∧ Obeys block object)

def Spelled (block : OrdMap String Value) (key : String) : Prop :=
  key ∈ requiredNames block ∨ (allowedList block key).isSome = true

/-- Of the spellings of a name, the last one counts. -/
structure Counts (block : OrdMap String Value) (key : String) : Prop where
  spelled : Spelled block key
  last : ∀ other, Spelled block other → trim other = trim key → other ≤ key

/-- A required name is itself the spelling that counts, and where a name has a list under
some spelling, it is not required twice and the spelling that counts has as narrow a list. -/
structure Unweakened (block : OrdMap String Value) : Prop where
  required : ∀ name ∈ requiredNames block, Counts block name
  allowed : ∀ key, Counts block key → ∀ other values, allowedList block other = some values →
    trim other = trim key → values ≠ [] → (requiredNames block).count key ≤ 1 ∧
      ∃ own, allowedList block key = some own ∧ own ≠ [] ∧ ∀ value ∈ own, value ∈ values

end Written

def finalList (block : OrdMap String Value) (key : String) : List String :=
  if (requiredNames block).count key ≤ 1 then (allowedList block key).getD [] else []

/-- The rule is the one of this spelling. -/
def RuleOf (block : OrdMap String Value) (key : String) (rule : OutputFieldRule) : Prop :=
  Rules rule (decide (key ∈ requiredNames block)) (finalList block key)

section Reading

theorem trim_allowedList {values : List String} (h : allowedList block key = some values) :
    ∀ value ∈ values, trim value = value := by
  obtain ⟨written, -, rfl⟩ := Option.map_eq_some_iff.mp h
  exact fun value hvalue => trim_listed hvalue

theorem readBlock_fields (h : readBlock block = .ok contract) :
    ∃ fields : OrdMap String OutputFieldRule,
      contract.fields = OrdMap.ofList (fields.entries.map fun entry => (trim entry.1, entry.2)) ∧
      ∀ key, (fields.contains key = true ↔ Spelled block key) ∧
        ∀ rule, fields.get? key = some rule → RuleOf block key rule := by
  unfold readBlock at h
  split_ifs at h
  obtain ⟨contractId, -, h⟩ := except_bind_eq_ok.mp h
  obtain ⟨format, -, h⟩ := except_bind_eq_ok.mp h
  obtain ⟨required, hrequired, h⟩ := except_bind_eq_ok.mp h
  obtain ⟨allowed, hallowed, h⟩ := except_bind_eq_ok.mp h
  obtain ⟨fields, hfields, h⟩ := except_bind_eq_ok.mp h
  obtain ⟨-, -, h⟩ := except_bind_eq_ok.mp h
  have hlists : ∀ key, allowed.get? key = allowedList block key := readAllowed_ok hallowed
  have htrimmed : Trimmed allowed := by
    intro key values hkey
    rw [hlists] at hkey
    exact trim_allowedList hkey
  have hnames : required = requiredNames block := stringArray_ok hrequired
  refine ⟨fields, OutputContract.newWithSchema_ok h, fun key => ?_⟩
  have hrules := mergeRules_ok htrimmed hfields key
  rwa [OrdMap.contains, OrdMap.contains, listOf, hlists, hnames] at hrules

theorem rule_counts {rule : OutputFieldRule} (h : readBlock block = .ok contract)
    (hrule : contract.fields.get? name = some rule) :
    ∃ key, Counts block key ∧ trim key = name ∧ RuleOf block key rule := by
  obtain ⟨fields, hfields, hkeys⟩ := readBlock_fields h
  rw [hfields, OrdMap.get?_ofList_map] at hrule
  obtain ⟨key, hkey, rfl, hlast⟩ := hrule
  refine ⟨key, ⟨?_, ?_⟩, rfl, (hkeys key).2 rule hkey⟩
  · exact (hkeys key).1.mp (OrdMap.contains_iff.mpr ⟨rule, hkey⟩)
  · exact fun other hother hsame => hlast other ((hkeys other).1.mpr hother) hsame

theorem rule_of_counts (h : readBlock block = .ok contract) (hkey : Counts block key) :
    ∃ rule, contract.fields.get? (trim key) = some rule ∧ RuleOf block key rule := by
  obtain ⟨fields, hfields, hkeys⟩ := readBlock_fields h
  obtain ⟨rule, hrule⟩ := OrdMap.contains_iff.mp ((hkeys key).1.mpr hkey.spelled)
  refine ⟨rule, ?_, (hkeys key).2 rule hrule⟩
  rw [hfields, OrdMap.get?_ofList_map]
  refine ⟨key, hrule, rfl, fun other hother hsame => ?_⟩
  exact hkey.last other ((hkeys other).1.mp hother) hsame

theorem exists_counts (h : readBlock block = .ok contract) (hkey : Spelled block key) :
    ∃ last, Counts block last ∧ trim last = trim key := by
  obtain ⟨fields, hfields, hkeys⟩ := readBlock_fields h
  obtain ⟨rule, hrule⟩ := OrdMap.contains_iff.mp ((hkeys key).1.mpr hkey)
  have hmem : (trim key, rule) ∈ fields.entries.map fun entry => (trim entry.1, entry.2) :=
    List.mem_map.mpr ⟨(key, rule), OrdMap.mem_entries.mpr hrule, rfl⟩
  rcases OrdMap.get?_foldl_insert (fields.entries.map fun entry => (trim entry.1, entry.2))
      OrdMap.empty (trim key) with ⟨found, -, hfound⟩ | ⟨hnone, -⟩
  · have hget : contract.fields.get? (trim key) = some found := by
      rw [hfields]
      exact hfound
    obtain ⟨last, hcounts, hsame, -⟩ := rule_counts h hget
    exact ⟨last, hcounts, hsame⟩
  · exact absurd hmem (hnone rule)

end Reading

/-- What the two validators ask of an object. -/
def Meets (contract : OutputContract) (object : List (String × Value)) : Prop :=
  ∀ name rule, contract.fields.get? name = some rule →
    (rule.required = true → (object.lookup name).isSome = true) ∧
    (rule.allowedStringValues.keys ≠ [] → ∀ value, object.lookup name = some value →
      ∃ actual ∈ rule.allowedStringValues.keys, value = .string actual)

theorem passes_iff {serde : SerdeJson} {text : String} {constraints : TaskConstraints}
    (h : constraints.outputContract = some contract) :
    Passes (RequiredFieldsValidator.validate serde text constraints) ∧
      Passes (AllowedStringValuesValidator.validate serde text constraints) ↔
    ∃ object, parseJsonObject serde text = .ok object ∧ Meets contract object := by
  rw [passes_requiredFields h, passes_allowedStringValues h]
  constructor
  · rintro ⟨⟨object, hparse, hrequired⟩, ⟨other, hother, hallowed⟩⟩
    obtain rfl := Except.ok.inj (hparse.symm.trans hother)
    exact ⟨object, hparse, fun name rule hrule =>
      ⟨hrequired name rule hrule, hallowed name rule hrule⟩⟩
  · rintro ⟨object, hparse, hmeets⟩
    exact ⟨⟨object, hparse, fun name rule hrule => (hmeets name rule hrule).1⟩,
      ⟨object, hparse, fun name rule hrule => (hmeets name rule hrule).2⟩⟩

theorem finalList_eq {own : List String} (hne : finalList block key ≠ [])
    (hown : own = finalList block key) :
    (requiredNames block).count key ≤ 1 ∧ allowedList block key = some own := by
  unfold finalList at hne hown
  split_ifs at hne hown with hcount
  · refine ⟨hcount, ?_⟩
    cases hlist : allowedList block key with
    | none => simp [hlist] at hne
    | some values => rw [hown, hlist, Option.getD_some]
  · exact absurd rfl hne

theorem meets_of_obeys {object : List (String × Value)} (h : readBlock block = .ok contract)
    (hobeys : Obeys block object) : Meets contract object := by
  intro name rule hrule
  obtain ⟨key, hcounts, rfl, hrules⟩ := rule_counts h hrule
  constructor
  · intro hrequired
    rw [hrules.required_eq, decide_eq_true_iff] at hrequired
    rw [trim_listed hrequired]
    exact hobeys.required key hrequired
  · intro hne value hvalue
    have hfinal : finalList block key ≠ [] := by
      obtain ⟨actual, hactual⟩ := List.exists_mem_of_ne_nil _ hne
      exact List.ne_nil_of_mem ((hrules.mem_values actual).mp hactual)
    obtain ⟨-, hown⟩ := finalList_eq hfinal rfl
    obtain ⟨actual, hactual, heq⟩ := hobeys.allowed key _ hown hfinal value hvalue
    exact ⟨actual, (hrules.mem_values actual).mpr hactual, heq⟩

theorem obeys_of_meets {object : List (String × Value)} (h : readBlock block = .ok contract)
    (hblock : Unweakened block) (hmeets : Meets contract object) : Obeys block object where
  required name hname := by
    obtain ⟨rule, hrule, hrules⟩ := rule_of_counts h (hblock.required name hname)
    rw [trim_listed hname] at hrule
    apply (hmeets name rule hrule).1
    rw [hrules.required_eq, decide_eq_true hname]
  allowed key values hkey hne value hvalue := by
    have hspelled : Spelled block key := .inr (by rw [hkey]; rfl)
    obtain ⟨last, hcounts, hsame⟩ := exists_counts h hspelled
    obtain ⟨rule, hrule, hrules⟩ := rule_of_counts h hcounts
    obtain ⟨hcount, own, hown, hownNe, hnarrow⟩ :=
      hblock.allowed last hcounts key values hkey hsame.symm hne
    have hfinal : finalList block last = own := by
      rw [finalList, if_pos hcount, hown, Option.getD_some]
    obtain ⟨text, htext⟩ := List.exists_mem_of_ne_nil own hownNe
    rw [← hfinal] at htext
    have hlisted : rule.allowedStringValues.keys ≠ [] :=
      List.ne_nil_of_mem ((hrules.mem_values text).mpr htext)
    rw [← hsame] at hvalue
    obtain ⟨actual, hactual, heq⟩ := (hmeets (trim last) rule hrule).2 hlisted value hvalue
    rw [hrules.mem_values, hfinal] at hactual
    exact ⟨actual, hnarrow actual hactual, heq⟩

section Samples

def sampleValue (rule : OutputFieldRule) : Value :=
  match rule.allowedStringValues.keys with
  | [] => .null
  | actual :: _ => .string actual

def sample (contract : OutputContract) : OrdMap String Value := contract.fields.mapValues sampleValue

theorem sampleValue_allowed {rule : OutputFieldRule} (h : rule.allowedStringValues.keys ≠ []) :
    ∃ actual ∈ rule.allowedStringValues.keys, sampleValue rule = .string actual := by
  unfold sampleValue
  cases hkeys : rule.allowedStringValues.keys with
  | nil => exact absurd hkeys h
  | cons actual rest => exact ⟨actual, List.mem_cons_self, rfl⟩

theorem meets_change {object : OrdMap String Value} {rule : OutputFieldRule}
    (hrule : contract.fields.get? name = some rule)
    (hothers : ∀ other, other ≠ name → object.get? other = (sample contract).get? other)
    (hrequired : rule.required = true → (object.get? name).isSome = true)
    (hallowed : rule.allowedStringValues.keys ≠ [] → ∀ value, object.get? name = some value →
      ∃ actual ∈ rule.allowedStringValues.keys, value = .string actual) :
    Meets contract object.entries := by
  intro other otherRule hother
  rw [OrdMap.lookup_entries]
  by_cases hname : other = name
  · subst hname
    rw [hrule] at hother
    obtain rfl := Option.some.inj hother
    exact ⟨hrequired, hallowed⟩
  · rw [hothers other hname, sample, OrdMap.get?_mapValues, hother]
    refine ⟨fun _ => rfl, ?_⟩
    rintro hne value hvalue
    rw [← Option.some.inj hvalue]
    exact sampleValue_allowed hne

theorem obeys_of_enforced {object : OrdMap String Value} (h : Enforced block contract)
    (hmeets : Meets contract object.entries) : Obeys block object.entries := by
  let serde : SerdeJson := ⟨fun _ => .ok (.object object.entries), fun _ => ""⟩
  let constraints := TaskConstraints.default.withOutputContract contract
  have hparse : parseJsonObject serde "" = .ok object.entries := rfl
  have hpasses := (@passes_iff contract serde "" constraints rfl).mpr
    ⟨object.entries, hparse, hmeets⟩
  obtain ⟨other, hother, hobeys⟩ := (h serde "" constraints rfl).mp hpasses
  rw [hparse] at hother
  rwa [Except.ok.inj hother]

theorem counts_of_enforced (h : readBlock block = .ok contract) (henforced : Enforced block contract)
    (hname : name ∈ requiredNames block) : Counts block name := by
  obtain ⟨last, hcounts, hsame⟩ := exists_counts h (.inl hname)
  by_cases hlast : last = name
  · rwa [← hlast]
  -- another spelling has the last word, and it does not require the field
  obtain ⟨rule, hrule, hrules⟩ := rule_of_counts h hcounts
  rw [hsame, trim_listed hname] at hrule
  have hnot : last ∉ requiredNames block := by
    intro hmem
    rw [trim_listed hmem, trim_listed hname] at hsame
    exact hlast hsame
  have hmeets : Meets contract ((sample contract).erase name).entries := by
    apply meets_change hrule
    · intro other hother
      rw [OrdMap.get?_erase, if_neg hother]
    · rw [hrules.required_eq, decide_eq_false hnot]
      simp
    · simp [OrdMap.get?_erase]
  have hthere := (obeys_of_enforced henforced hmeets).required name hname
  simp [OrdMap.lookup_entries, OrdMap.get?_erase] at hthere

theorem narrow_of_enforced (h : readBlock block = .ok contract) (henforced : Enforced block contract)
    (hcounts : Counts block key) {other : String} {values : List String}
    (hother : allowedList block other = some values) (hsame : trim other = trim key)
    (hne : values ≠ []) : (requiredNames block).count key ≤ 1 ∧
      ∃ own, allowedList block key = some own ∧ own ≠ [] ∧ ∀ value ∈ own, value ∈ values := by
  obtain ⟨rule, hrule, hrules⟩ := rule_of_counts h hcounts
  have hchange (value : Value) (hallowed : rule.allowedStringValues.keys ≠ [] →
      ∃ actual ∈ rule.allowedStringValues.keys, value = .string actual) :
      ∃ actual ∈ values, value = .string actual := by
    have hmeets : Meets contract ((sample contract).insert (trim key) value).entries := by
      apply meets_change hrule
      · exact fun other hother => OrdMap.get?_insert_ne _ hother value
      · simp
      · intro hkeys found hfound
        rw [OrdMap.get?_insert_self] at hfound
        rw [← Option.some.inj hfound]
        exact hallowed hkeys
    apply (obeys_of_enforced henforced hmeets).allowed other values hother hne value
    rw [hsame, OrdMap.lookup_entries, OrdMap.get?_insert_self]
  have hfinal : finalList block key ≠ [] := by
    intro hnil
    have hkeys : rule.allowedStringValues.keys = [] := by
      apply List.eq_nil_iff_forall_not_mem.mpr
      intro actual hactual
      rw [hrules.mem_values, hnil] at hactual
      exact List.not_mem_nil hactual
    obtain ⟨actual, -, hnull⟩ := hchange .null fun hkeys' => absurd hkeys hkeys'
    simp at hnull
  obtain ⟨hcount, hown⟩ := finalList_eq hfinal rfl
  refine ⟨hcount, _, hown, hfinal, fun value hvalue => ?_⟩
  have hmem := (hrules.mem_values value).mpr hvalue
  obtain ⟨actual, hactual, heq⟩ := hchange (.string value) fun _ => ⟨value, hmem, rfl⟩
  rwa [Value.string.inj heq]

end Samples

/-- The contract of a step is enforced as it is written, if and only if no spelling of a name
takes from another. -/
theorem declared_contract_enforced_iff (config : CeremonyStepConfig)
    (entries : List (String × Value)) (contract : OutputContract)
    (hdeclared : config.attributes.get Key.outputContract = some (.object entries))
    (haccepted : config.outputContract = .ok (some contract)) :
    Enforced (OrdMap.ofList entries) contract ↔ Unweakened (OrdMap.ofList entries) := by
  have hread : readBlock (OrdMap.ofList entries) = .ok contract := by
    simp only [CeremonyStepConfig.outputContract, hdeclared, except_bind_eq_ok, okOr_eq_ok] at haccepted
    obtain ⟨block, hblock, found, hfound, hcontract⟩ := haccepted
    obtain rfl := Option.some.inj hblock
    rwa [← Option.some.inj (Except.ok.inj hcontract)]
  constructor
  · intro henforced
    refine ⟨fun name hname => counts_of_enforced hread henforced hname, ?_⟩
    intro key hcounts other values hother hsame hne
    exact narrow_of_enforced hread henforced hcounts hother hsame hne
  · intro hblock serde text constraints hconstraints
    rw [passes_iff hconstraints]
    constructor
    · rintro ⟨object, hparse, hmeets⟩
      exact ⟨object, hparse, obeys_of_meets hread hblock hmeets⟩
    · rintro ⟨object, hparse, hobeys⟩
      exact ⟨object, hparse, meets_of_obeys hread hobeys⟩

section Gate

def gateBlock (names : List String) : List (String × Value) :=
  [("allowed_values", .object [("decision", .array [.string "accept", .string "reject"])]),
    ("contract_id", .string "gate"), ("required_fields", .array (names.map .string))]

theorem checkAttributes_gate (names : List String) :
    checkAttributes (OrdMap.ofList [(Key.outputContract, .object (gateBlock names))]) = .ok () := by
  have hkeys : (OrdMap.ofList [(Key.outputContract, Value.object (gateBlock names))]).keys =
      [Key.outputContract] := rfl
  have hsize : (OrdMap.ofList [(Key.outputContract, Value.object (gateBlock names))]).size = 1 := rfl
  have hname : trim Key.outputContract ≠ "" := by decide
  simp [checkAttributes, hkeys, hsize, maxAttributesKeys, hname]

def gate (names : List String) : CeremonyStepConfig :=
  ⟨⟨OrdMap.ofList [(Key.outputContract, .object (gateBlock names))], checkAttributes_gate names⟩,
    ⟨"deliberation", by decide⟩⟩

theorem accepted_of_join {r : Except DomainError (Option OutputContract)} {contract : OutputContract}
    (h : r.toOption.join = some contract) : r = .ok (some contract) := by
  cases r with
  | error e => simp [Except.toOption] at h
  | ok found => simpa [Except.toOption] using h

theorem gate_accepts : ∃ contract, (gate ["decision"]).outputContract = .ok (some contract) := by
  have hsome : (gate ["decision"]).outputContract.toOption.join.isSome = true := by decide +kernel
  obtain ⟨contract, hcontract⟩ := Option.isSome_iff_exists.mp hsome
  exact ⟨contract, accepted_of_join hcontract⟩

theorem allowedList_gate {key : String} {values : List String}
    (h : allowedList (OrdMap.ofList (gateBlock ["decision"])) key = some values) :
    key = "decision" ∧ values = ["accept", "reject"] := by
  obtain ⟨value, hvalue, rfl⟩ := Option.map_eq_some_iff.mp h
  have hmem := OrdMap.mem_entries.mpr hvalue
  obtain ⟨rfl, rfl⟩ := Prod.mk.inj (List.mem_singleton.mp hmem)
  exact ⟨rfl, rfl⟩

theorem spelled_gate {key : String} (h : Spelled (OrdMap.ofList (gateBlock ["decision"])) key) :
    key = "decision" := by
  rcases h with h | h
  · exact List.mem_singleton.mp h
  · obtain ⟨values, hvalues⟩ := Option.isSome_iff_exists.mp h
    exact (allowedList_gate hvalues).1

/-- Each name spelled in one way and required once. -/
theorem declared_contract_enforced_gate : ∃ contract,
    (gate ["decision"]).outputContract = .ok (some contract) ∧
      Enforced (OrdMap.ofList (gateBlock ["decision"])) contract := by
  obtain ⟨contract, haccepted⟩ := gate_accepts
  refine ⟨contract, haccepted, ?_⟩
  apply (declared_contract_enforced_iff (gate ["decision"]) (gateBlock ["decision"]) contract rfl
    haccepted).mpr
  constructor
  · intro name hname
    refine ⟨.inl hname, fun other hother _ => ?_⟩
    rw [spelled_gate hother, spelled_gate (.inl hname)]
  · intro key hcounts other values hother hsame hne
    obtain ⟨-, rfl⟩ := allowedList_gate hother
    rw [spelled_gate hcounts.spelled]
    exact ⟨by decide, _, rfl, hne, fun value hvalue => hvalue⟩

def maybeText : String := "\x7b\"decision\":\"maybe\"\x7d"

def maybeJson : SerdeJson where
  fromStr s := if s = maybeText then .ok (.object [("decision", .string "maybe")])
    else .error "expected value at line 1 column 1"
  toString _ := maybeText

theorem parse_maybe :
    parseJsonObject maybeJson maybeText = .ok [("decision", .string "maybe")] := by
  have hstrip : stripMarkdownFences maybeText = maybeText := by decide +kernel
  simp only [parseJsonObject, hstrip, maybeJson, if_true]

def passed (r : Except DomainError ValidatorReport) : Bool :=
  match r with
  | .ok report => report.passed
  | .error _ => false

theorem passes_of_passed {r : Except DomainError ValidatorReport} (h : passed r = true) :
    Passes r := by
  cases r with
  | error e => simp [passed] at h
  | ok report => exact ⟨report, rfl, h⟩

def lets (contract : OutputContract) : Bool :=
  passed (RequiredFieldsValidator.validate maybeJson maybeText
    (TaskConstraints.default.withOutputContract contract)) &&
  passed (AllowedStringValuesValidator.validate maybeJson maybeText
    (TaskConstraints.default.withOutputContract contract))

theorem gate_lets :
    ((gate ["decision", "decision"]).outputContract.toOption.join.any lets) = true := by
  decide +kernel

/-- Required twice, the field has lost its list. -/
theorem repetition_weakens : ¬ ∀ (config : CeremonyStepConfig) (entries : List (String × Value))
    (contract : OutputContract),
    config.attributes.get Key.outputContract = some (.object entries) →
      config.outputContract = .ok (some contract) → Enforced (OrdMap.ofList entries) contract := by
  intro h
  obtain ⟨contract, hcontract, hlets⟩ := (Option.any_eq_true _ _).mp gate_lets
  have henforced := h (gate ["decision", "decision"]) (gateBlock ["decision", "decision"]) contract
    rfl (accepted_of_join hcontract)
  obtain ⟨hrequired, hallowed⟩ := Bool.and_eq_true_iff.mp hlets
  obtain ⟨object, hparse, hobeys⟩ := (henforced maybeJson maybeText _ rfl).mp
    ⟨passes_of_passed hrequired, passes_of_passed hallowed⟩
  rw [parse_maybe] at hparse
  obtain rfl := Except.ok.inj hparse
  have hlist : allowedList (OrdMap.ofList (gateBlock ["decision", "decision"])) "decision" =
      some ["accept", "reject"] := by decide +kernel
  have hname : trim "decision" = "decision" := by decide
  obtain ⟨actual, hactual, hmaybe⟩ := hobeys.allowed "decision" ["accept", "reject"] hlist (by simp)
    (.string "maybe") (by rw [hname]; rfl)
  rw [← Value.string.inj hmaybe] at hactual
  exact absurd hactual (by decide)

end Gate

end Choreographer.DeclaredContracts
