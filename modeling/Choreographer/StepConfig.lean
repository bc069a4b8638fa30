import Choreographer.Contracts

namespace Choreographer.StepConfig

open Choreographer.Lib.SortedMaps Choreographer.Lib.Updates
open Choreographer.Texts Choreographer.Values Choreographer.Contracts

/-- The configuration of one step, as its handler reads it. -/
structure CeremonyStepConfig where
  attributes : Attributes
  handlerKind : StepHandlerKind

section Counts

def maxRounds : Nat := 16

/-- How many rounds of peer review a deliberation has. -/
structure Rounds where
  get : U32
  valid : get.val ≤ maxRounds
deriving DecidableEq

def Rounds.new (value : U32) : Except DomainError Rounds :=
  if h : value.val ≤ maxRounds then .ok ⟨value, h⟩
  else .error (.outOfRange "rounds" value.val 0 maxRounds)

def Rounds.default : Rounds := ⟨1, by decide⟩

def maxNumAgents : Nat := 64

/-- How many agents take part in a deliberation. -/
structure NumAgents where
  get : U32
  valid : 0 < get.val ∧ get.val ≤ maxNumAgents
deriving DecidableEq

def NumAgents.new (value : U32) : Except DomainError NumAgents :=
  if hmax : value.val > maxNumAgents then
    .error (.outOfRange "num_agents" value.val 1 maxNumAgents)
  else if hzero : value.val = 0 then .error (.mustBeNonZero "num_agents")
  else .ok ⟨value, Nat.pos_of_ne_zero hzero, Nat.not_lt.mp hmax⟩

def maxTaskDescriptionLen : Nat := 64 * 1024

def checkTaskDescription (raw : String) : Except DomainError Unit :=
  if trim raw = "" then .error (.emptyField "task_description")
  else if raw.utf8ByteSize > maxTaskDescriptionLen then
    .error (.fieldTooLong "task_description" raw.utf8ByteSize maxTaskDescriptionLen)
  else .ok ()

/-- What a task asks for, with the blanks around it. -/
structure TaskDescription where
  asStr : String
  valid : checkTaskDescription asStr = .ok ()

def TaskDescription.new (raw : String) : Except DomainError TaskDescription :=
  match h : checkTaskDescription raw with
  | .ok () => .ok ⟨raw, h⟩
  | .error e => .error e

end Counts

namespace Key

def prompt : String := "prompt"
def specialty : String := "specialty"
def rounds : String := "rounds"
def numAgents : String := "num_agents"
def agentKind : String := "agent_kind"
def agentKindLegacy : String := "agent.kind"
def participants : String := "participants"
def seePrior : String := "see_prior"
def outputContract : String := "output_contract"

def contractId : String := "contract_id"
def format : String := "format"
def requiredFields : String := "required_fields"
def allowedValues : String := "allowed_values"
def jsonSchema : String := "json_schema"
def evidence : String := "evidence"

def claimsField : String := "claims_field"
def refsField : String := "refs_field"
def allowedRefs : String := "allowed_refs"
def allowedRefsFromContext : String := "allowed_refs_from_context"
def semanticSupport : String := "semantic_support"

def minConfidence : String := "min_confidence"
def bodiesFromContext : String := "bodies_from_context"

end Key

namespace Field

def prompt : String := "ceremony_step.config.prompt"
def rounds : String := "ceremony_step.config.rounds"
def numAgents : String := "ceremony_step.config.num_agents"
def participants : String := "ceremony_step.config.participants"
def seePrior : String := "ceremony_step.config.see_prior"
def outputContract : String := "ceremony_step.config.output_contract"
def contractId : String := "ceremony_step.config.output_contract.contract_id"
def contractFormat : String := "ceremony_step.config.output_contract.format"
def contractRequiredFields : String := "ceremony_step.config.output_contract.required_fields"
def contractAllowedValues : String := "ceremony_step.config.output_contract.allowed_values"
def contractJsonSchema : String := "ceremony_step.config.output_contract.json_schema"
def contractEvidence : String := "ceremony_step.config.output_contract.evidence"
def evidenceClaimsField : String := "ceremony_step.config.output_contract.evidence.claims_field"
def evidenceRefsField : String := "ceremony_step.config.output_contract.evidence.refs_field"
def evidenceAllowedRefs : String := "ceremony_step.config.output_contract.evidence.allowed_refs"
def evidenceContextKey : String :=
  "ceremony_step.config.output_contract.evidence.allowed_refs_from_context"
def evidenceSemantic : String := "ceremony_step.config.output_contract.evidence.semantic_support"
def semanticMinConfidence : String :=
  "ceremony_step.config.output_contract.evidence.semantic_support.min_confidence"
def semanticBodiesKey : String :=
  "ceremony_step.config.output_contract.evidence.semantic_support.bodies_from_context"

end Field

section Reading

def asMap (value : Value) : Option (OrdMap String Value) := value.asObject.map OrdMap.ofList

def stringItem (field : String) (item : Value) : Except DomainError String :=
  okOr ((item.asStr.map trim).filter fun raw => raw ≠ "") (.invalidCharacters field)

def stringArray (value : Option Value) (field : String) : Except DomainError (List String) :=
  match value with
  | none => .ok []
  | some .null => .ok []
  | some value => do
    let items ← okOr value.asArray (.invalidCharacters field)
    items.mapM (stringItem field)

def requiredString (value : Option Value) (field : String) : Except DomainError String :=
  match value with
  | none => .error (.emptyField field)
  | some value =>
    match value.asStr with
    | none => .error (.invalidCharacters field)
    | some raw => if trim raw = "" then .error (.emptyField field) else .ok raw

def optionalString (value : Option Value) : Option String :=
  ((value.bind Value.asStr).map trim).filter fun raw => raw ≠ ""

def optionalBool (value : Option Value) (field : String) : Except DomainError (Option Bool) :=
  match value with
  | none => .ok none
  | some .null => .ok none
  | some value => some <$> okOr value.asBool (.invalidCharacters field)

def optionalU32 (value : Option Value) (field : String) : Except DomainError (Option U32) :=
  match value with
  | none => .ok none
  | some .null => .ok none
  | some value => do
    let raw ← okOr value.asU64 (.invalidCharacters field)
    if h : raw.val < 2 ^ 32 then .ok (some ⟨raw.val, h⟩)
    else .error (.outOfRange field raw.val 0 (2 ^ 32 - 1))

end Reading

section Readers

variable (self : CeremonyStepConfig)

def CeremonyStepConfig.prompt : Except DomainError TaskDescription := do
  let raw ← requiredString (self.attributes.get Key.prompt) Field.prompt
  TaskDescription.new raw

def CeremonyStepConfig.specialty : Except DomainError Specialty :=
  Text.new ((optionalString (self.attributes.get Key.specialty)).getD self.handlerKind.asStr)

def CeremonyStepConfig.rounds : Except DomainError Rounds := do
  match ← optionalU32 (self.attributes.get Key.rounds) Field.rounds with
  | some value => Rounds.new value
  | none => pure Rounds.default

def CeremonyStepConfig.numAgents : Except DomainError (Option NumAgents) := do
  match ← optionalU32 (self.attributes.get Key.numAgents) Field.numAgents with
  | some value => some <$> NumAgents.new value
  | none => pure none

def defaultAgentKind : String := "noop"

def CeremonyStepConfig.agentKind : Except DomainError AgentKind :=
  Text.new (((optionalString (self.attributes.get Key.agentKind)).or
    (optionalString (self.attributes.get Key.agentKindLegacy))).getD defaultAgentKind)

def CeremonyStepConfig.participantLabels : Except DomainError (List String) :=
  stringArray (self.attributes.get Key.participants) Field.participants

def CeremonyStepConfig.seePriorSteps : Except DomainError Bool :=
  (fun seePrior => seePrior.getD true) <$>
    optionalBool (self.attributes.get Key.seePrior) Field.seePrior

end Readers

section Evidence

structure SemanticSupportSpec where
  minConfidence : Option (Fin 256)
  bodiesContextKey : Option String

/-- What a step declares about its evidence, before the context is looked at. -/
structure EvidenceGroundingSpec where
  claimsField : String
  refsField : String
  staticRefs : List String
  contextKey : Option String
  semantic : Option SemanticSupportSpec

def defaultClaimsField : String := "claims"
def defaultRefsField : String := "evidence_refs"

def checkOptionalText (value : Option Value) (field : String) : Except DomainError Unit :=
  match value with
  | none => .ok ()
  | some .null => .ok ()
  | some (.string _) => .ok ()
  | some _ => .error (.invalidCharacters field)

def readMinConfidence (value : Option Value) : Except DomainError (Option (Fin 256)) :=
  match value with
  | none => .ok none
  | some .null => .ok none
  | some value => do
    let raw ← okOr value.asU64 (.invalidCharacters Field.semanticMinConfidence)
    if h : raw.val ≤ 100 then .ok (some ⟨raw.val, by omega⟩)
    else .error (.outOfRange Field.semanticMinConfidence raw.val 0 100)

def semanticSupportSpec (value : Option Value) :
    Except DomainError (Option SemanticSupportSpec) :=
  match value with
  | none => .ok none
  | some .null => .ok none
  | some value => do
    let block ← okOr (asMap value) (.invalidCharacters Field.evidenceSemantic)
    require (block.keys.all fun key => [Key.minConfidence, Key.bodiesFromContext].contains key)
      (.invalidCharacters Field.evidenceSemantic)
    let minConfidence ← readMinConfidence (block.get? Key.minConfidence)
    checkOptionalText (block.get? Key.bodiesFromContext) Field.semanticBodiesKey
    pure (some ⟨minConfidence, optionalString (block.get? Key.bodiesFromContext)⟩)

def readEvidence (evidence : OrdMap String Value) : Except DomainError EvidenceGroundingSpec := do
  require (evidence.keys.all fun key => [Key.claimsField, Key.refsField, Key.allowedRefs,
      Key.allowedRefsFromContext, Key.semanticSupport].contains key)
    (.invalidCharacters Field.contractEvidence)
  checkOptionalText (evidence.get? Key.claimsField) Field.evidenceClaimsField
  checkOptionalText (evidence.get? Key.refsField) Field.evidenceRefsField
  let staticRefs ← stringArray (evidence.get? Key.allowedRefs) Field.evidenceAllowedRefs
  checkOptionalText (evidence.get? Key.allowedRefsFromContext) Field.evidenceContextKey
  let contextKey := optionalString (evidence.get? Key.allowedRefsFromContext)
  require (!(staticRefs.isEmpty && contextKey.isNone)) (.emptyField Field.evidenceAllowedRefs)
  let semantic ← semanticSupportSpec (evidence.get? Key.semanticSupport)
  pure {
    claimsField := (optionalString (evidence.get? Key.claimsField)).getD defaultClaimsField
    refsField := (optionalString (evidence.get? Key.refsField)).getD defaultRefsField
    staticRefs, contextKey, semantic }

def CeremonyStepConfig.evidenceGroundingSpec (self : CeremonyStepConfig) :
    Except DomainError (Option EvidenceGroundingSpec) :=
  match ((self.attributes.get Key.outputContract).bind asMap).bind fun block =>
      block.get? Key.evidence with
  | none => .ok none
  | some .null => .ok none
  | some value => do
    let evidence ← okOr (asMap value) (.invalidCharacters Field.contractEvidence)
    some <$> readEvidence evidence

end Evidence

section Contract

def known : List String :=
  [Key.contractId, Key.format, Key.requiredFields, Key.allowedValues, Key.jsonSchema, Key.evidence]

def readFormat (value : Option Value) : Except DomainError OutputFormat :=
  match optionalString value with
  | none => .ok .jsonObject
  | some raw =>
    if raw = "json_object" then .ok .jsonObject else .error (.invalidCharacters Field.contractFormat)

def allowedEntry (entry : String × Value) : Except DomainError (String × List String) := do
  let values ← stringArray (some entry.2) Field.contractAllowedValues
  pure (entry.1, values)

/-- The lists under the keys as they are spelled. -/
def readAllowed (value : Option Value) : Except DomainError (OrdMap String (List String)) :=
  match value with
  | none => .ok OrdMap.empty
  | some .null => .ok OrdMap.empty
  | some value => do
    let map ← okOr (asMap value) (.invalidCharacters Field.contractAllowedValues)
    let entries ← map.entries.mapM allowedEntry
    pure (OrdMap.ofList entries)

/-- A required field takes its list out of the allowed ones. -/
def insertRequired : List String → OrdMap String (List String) → OrdMap String OutputFieldRule →
    Except DomainError (OrdMap String (List String) × OrdMap String OutputFieldRule)
  | [], allowed, fields => .ok (allowed, fields)
  | name :: required, allowed, fields => do
    let values := (allowed.get? name).getD []
    let rule ← OutputFieldRule.new true values
    insertRequired required (allowed.erase name) (fields.insert name rule)

/-- The lists that are left are of fields that need not be there. -/
def insertAllowed : List (String × List String) → OrdMap String OutputFieldRule →
    Except DomainError (OrdMap String OutputFieldRule)
  | [], fields => .ok fields
  | (name, values) :: allowed, fields => do
    let rule ← OutputFieldRule.new false values
    insertAllowed allowed (fields.insert name rule)

def mergeRules (required : List String) (allowed : OrdMap String (List String)) :
    Except DomainError (OrdMap String OutputFieldRule) := do
  let (left, fields) ← insertRequired required allowed OrdMap.empty
  insertAllowed left.entries fields

def checkSchema (value : Option Value) : Except DomainError Unit :=
  match value with
  | none => .ok ()
  | some .null => .ok ()
  | some (.string _) => .ok ()
  | some _ => .error (.invalidCharacters Field.contractJsonSchema)

def readBlock (block : OrdMap String Value) : Except DomainError OutputContract :=
  if block.keys.any fun key => !known.contains key then
    .error (.invalidCharacters Field.outputContract)
  else do
    let contractId ← requiredString (block.get? Key.contractId) Field.contractId
    let format ← readFormat (block.get? Key.format)
    let required ← stringArray (block.get? Key.requiredFields) Field.contractRequiredFields
    let allowed ← readAllowed (block.get? Key.allowedValues)
    let fields ← mergeRules required allowed
    let jsonSchema := (optionalString (block.get? Key.jsonSchema)).getD ""
    checkSchema (block.get? Key.jsonSchema)
    OutputContract.newWithSchema contractId format fields jsonSchema

def CeremonyStepConfig.outputContract (self : CeremonyStepConfig) :
    Except DomainError (Option OutputContract) :=
  match self.attributes.get Key.outputContract with
  | none => .ok none
  | some .null => .ok none
  | some value => do
    let block ← okOr (asMap value) (.invalidCharacters Field.outputContract)
    let contract ← readBlock block
    pure (some contract)

end Contract

section Lists

variable {value : Option Value} {field : String}

def listed (value : Option Value) : List String :=
  (((value.bind Value.asArray).getD []).filterMap Value.asStr).map trim

theorem trim_listed {s : String} (h : s ∈ listed value) : trim s = s := by
  obtain ⟨raw, -, rfl⟩ := List.mem_map.mp h
  exact trim_trim raw

theorem stringItem_ok {item : Value} {s : String} (h : stringItem field item = .ok s) :
    ∃ raw, item = .string raw ∧ trim raw = s := by
  obtain ⟨hs, -⟩ := Option.filter_eq_some_iff.mp (okOr_eq_ok.mp h)
  cases item with
  | string raw => exact ⟨raw, rfl, Option.some.inj hs⟩
  | null | bool | number | array | object => simp [Value.asStr] at hs

theorem stringItems_ok {items : List Value} {l : List String}
    (h : items.mapM (stringItem field) = .ok l) : l = (items.filterMap Value.asStr).map trim := by
  have hmap := map_eq_of_mapM_ok h
  clear h
  induction items generalizing l with
  | nil => simpa using hmap.symm
  | cons item rest ih =>
    cases l with
    | nil => simp at hmap
    | cons s l =>
      obtain ⟨hhead, htail⟩ := List.cons.inj hmap
      obtain ⟨raw, rfl, rfl⟩ := stringItem_ok hhead
      rw [ih htail]
      rfl

theorem stringArray_ok {l : List String} (h : stringArray value field = .ok l) :
    l = listed value := by
  unfold stringArray at h
  split at h
  · exact (Except.ok.inj h).symm
  · exact (Except.ok.inj h).symm
  · obtain ⟨items, hitems, h⟩ := except_bind_eq_ok.mp h
    rw [stringItems_ok h, listed, Option.bind_some, okOr_eq_ok.mp hitems, Option.getD_some]

theorem readAllowed_ok {allowed : OrdMap String (List String)} (h : readAllowed value = .ok allowed)
    (key : String) :
    allowed.get? key = ((value.bind asMap).bind fun map => map.get? key).map (listed ∘ some) := by
  unfold readAllowed at h
  split at h
  · rw [← Except.ok.inj h]
    rfl
  · rw [← Except.ok.inj h]
    rfl
  · obtain ⟨map, hmap, h⟩ := except_bind_eq_ok.mp h
    obtain ⟨entries, hentries, h⟩ := except_bind_eq_ok.mp h
    have hlists : entries = (map.mapValues (listed ∘ some)).entries := by
      apply eq_map_of_mapM_ok _ hentries
      intro entry named hentry
      obtain ⟨values, hvalues, hnamed⟩ := except_bind_eq_ok.mp hentry
      rw [← Except.ok.inj hnamed, stringArray_ok hvalues]
      rfl
    rw [← Except.ok.inj h, hlists, OrdMap.ofList_entries, OrdMap.get?_mapValues, Option.bind_some,
      okOr_eq_ok.mp hmap, Option.bind_some]

end Lists

section Merging

variable {required : List String} {allowed left : OrdMap String (List String)}
  {fields fields' : OrdMap String OutputFieldRule} {key : String}

/-- The list a spelling ends up with: one required twice has lost it. -/
def listOf (required : List String) (allowed : OrdMap String (List String)) (key : String) :
    List String :=
  if required.count key ≤ 1 then (allowed.get? key).getD [] else []

structure Rules (rule : OutputFieldRule) (required : Bool) (values : List String) : Prop where
  required_eq : rule.required = required
  mem_values : ∀ value, value ∈ rule.allowedStringValues.keys ↔ value ∈ values

def Trimmed (allowed : OrdMap String (List String)) : Prop :=
  ∀ key values, allowed.get? key = some values → ∀ value ∈ values, trim value = value

theorem rules_new {r : Bool} {values : List String} {rule : OutputFieldRule}
    (hvalues : ∀ value ∈ values, trim value = value) (h : OutputFieldRule.new r values = .ok rule) :
    Rules rule r values := by
  obtain ⟨hrequired, hmem⟩ := OutputFieldRule.new_ok h
  refine ⟨hrequired, fun value => ?_⟩
  have hsame : values.map trim = values := by
    rw [List.map_congr_left hvalues]
    exact List.map_id' values
  rw [hmem, hsame]

theorem trimmed_erase (h : Trimmed allowed) (name : String) : Trimmed (allowed.erase name) := by
  intro key values hkey
  rw [OrdMap.get?_erase] at hkey
  split_ifs at hkey
  exact h key values hkey

theorem trimmed_getD (h : Trimmed allowed) (name : String) :
    ∀ value ∈ (allowed.get? name).getD [], trim value = value := by
  cases hname : allowed.get? name with
  | none => simp
  | some values => exact h name values hname

theorem insertRequired_ok (htrimmed : Trimmed allowed)
    (h : insertRequired required allowed fields = .ok (left, fields')) :
    (∀ key, left.get? key = if key ∈ required then none else allowed.get? key) ∧
      (∀ key, key ∉ required → fields'.get? key = fields.get? key) ∧
      ∀ key ∈ required, ∃ rule, fields'.get? key = some rule ∧
        Rules rule true (listOf required allowed key) := by
  induction required generalizing allowed fields with
  | nil =>
    obtain ⟨rfl, rfl⟩ := Prod.mk.inj (Except.ok.inj h)
    simp
  | cons name rest ih =>
    obtain ⟨rule, hrule, h⟩ := except_bind_eq_ok.mp h
    obtain ⟨hleft, hothers, hnames⟩ := ih (trimmed_erase htrimmed name) h
    refine ⟨fun key => ?_, fun key hkey => ?_, fun key hkey => ?_⟩
    · rw [hleft, OrdMap.get?_erase]
      by_cases hname : key = name
      · simp [hname]
      · simp [hname]
    · rw [List.mem_cons, not_or] at hkey
      rw [hothers key hkey.2, OrdMap.get?_insert_ne _ hkey.1]
    · by_cases hname : key = name
      · subst hname
        by_cases hagain : key ∈ rest
        · -- named once more: the list is gone by then
          obtain ⟨rule', hget, hrules⟩ := hnames key hagain
          refine ⟨rule', hget, ?_⟩
          have hpos := List.count_pos_iff.mpr hagain
          have hold : listOf rest (allowed.erase key) key = [] := by
            simp [listOf, OrdMap.get?_erase]
          have hnew : listOf (key :: rest) allowed key = [] := by
            rw [listOf, List.count_cons_self, if_neg (by omega)]
          rwa [hnew, ← hold]
        · refine ⟨rule, ?_, ?_⟩
          · rw [hothers key hagain, OrdMap.get?_insert_self]
          · have hcount : (key :: rest).count key ≤ 1 := by
              rw [List.count_cons_self, List.count_eq_zero_of_not_mem hagain]
            rw [listOf, if_pos hcount]
            exact rules_new (trimmed_getD htrimmed key) hrule
      · obtain ⟨rule', hget, hrules⟩ := hnames key (List.mem_of_ne_of_mem hname hkey)
        refine ⟨rule', hget, ?_⟩
        rw [listOf, OrdMap.get?_erase, if_neg hname] at hrules
        rwa [listOf, List.count_cons_of_ne (Ne.symm hname)]

theorem insertAllowed_ok {entries : List (String × List String)}
    (hsorted : entries.Pairwise fun a b => a.1 < b.1)
    (htrimmed : ∀ entry ∈ entries, ∀ value ∈ entry.2, trim value = value)
    (h : insertAllowed entries fields = .ok fields') (key : String) :
    (∀ values, (key, values) ∈ entries → ∃ rule, fields'.get? key = some rule ∧
      Rules rule false values) ∧
    ((∀ values, (key, values) ∉ entries) → fields'.get? key = fields.get? key) := by
  induction entries generalizing fields with
  | nil =>
    obtain rfl := Except.ok.inj h
    simp
  | cons entry rest ih =>
    obtain ⟨name, list⟩ := entry
    obtain ⟨rule, hrule, h⟩ := except_bind_eq_ok.mp h
    obtain ⟨hfirst, hrest⟩ := List.pairwise_cons.mp hsorted
    obtain ⟨hlists, hothers⟩ := ih hrest (fun e he => htrimmed e (List.mem_cons_of_mem _ he)) h
    refine ⟨fun values hmem => ?_, fun hnone => ?_⟩
    · rcases List.mem_cons.mp hmem with hhead | htail
      · obtain ⟨rfl, rfl⟩ := Prod.mk.inj hhead
        have habsent : ∀ others, (key, others) ∉ rest :=
          fun others hmem => lt_irrefl key (hfirst (key, others) hmem)
        refine ⟨rule, ?_, rules_new (htrimmed _ List.mem_cons_self) hrule⟩
        rw [hothers habsent, OrdMap.get?_insert_self]
      · exact hlists values htail
    · have hne : key ≠ name := by
        rintro rfl
        exact hnone list List.mem_cons_self
      rw [hothers fun values hmem => hnone values (List.mem_cons_of_mem _ hmem),
        OrdMap.get?_insert_ne _ hne]

theorem mergeRules_ok (htrimmed : Trimmed allowed) (h : mergeRules required allowed = .ok fields)
    (key : String) :
    (fields.contains key = true ↔ key ∈ required ∨ allowed.contains key = true) ∧
      ∀ rule, fields.get? key = some rule →
        Rules rule (decide (key ∈ required)) (listOf required allowed key) := by
  obtain ⟨⟨left, merged⟩, hrequired, h⟩ := except_bind_eq_ok.mp h
  obtain ⟨hleft, hothers, hnames⟩ := insertRequired_ok htrimmed hrequired
  have hlists : ∀ entry ∈ left.entries, ∀ value ∈ entry.2, trim value = value := by
    rintro ⟨name, values⟩ hentry
    rw [OrdMap.mem_entries, hleft] at hentry
    split_ifs at hentry
    exact htrimmed name values hentry
  obtain ⟨hlisted, hunlisted⟩ := insertAllowed_ok left.sorted hlists h key
  simp only [OrdMap.mem_entries, hleft] at hlisted hunlisted
  by_cases hkey : key ∈ required
  · obtain ⟨rule, hget, hrules⟩ := hnames key hkey
    have hfield : fields.get? key = some rule := by
      rw [hunlisted (by simp [hkey]), hget]
    refine ⟨?_, fun rule' hrule' => ?_⟩
    · simp [OrdMap.contains, hfield, hkey]
    · rw [hfield] at hrule'
      obtain rfl := Option.some.inj hrule'
      rw [decide_eq_true hkey]
      exact hrules
  · have hcount : required.count key ≤ 1 := by
      rw [List.count_eq_zero_of_not_mem hkey]
      omega
    rw [listOf, if_pos hcount, decide_eq_false hkey]
    cases hallowed : allowed.get? key with
    | none =>
      have hfield : fields.get? key = none := by
        rw [hunlisted (by simp [hkey, hallowed]), hothers key hkey, OrdMap.get?_empty]
      simp [OrdMap.contains, hfield, hkey, hallowed]
    | some values =>
      obtain ⟨rule, hfield, hrules⟩ := hlisted values (by rw [if_neg hkey, hallowed])
      refine ⟨by simp [OrdMap.contains, hfield, hallowed], fun rule' hrule' => ?_⟩
      rw [hfield] at hrule'
      obtain rfl := Option.some.inj hrule'
      exact hrules

end Merging

end Choreographer.StepConfig
