import Choreographer.Documents
import Choreographer.OutputValidators

namespace Choreographer.EventShapes

open Choreographer.Lib.SortedMaps
open Choreographer.Texts Choreographer.Values Choreographer.Contracts Choreographer.Deliberations
open Choreographer.Documents Choreographer.EvidenceGates Choreographer.OutputValidators

/-- The budget of a structured output. Every limit is an inclusive upper bound. -/
structure BoundedEventShapeValidator where
  maxTotalSizeBytes : Nat
  maxDepth : Nat
  maxObjectKeys : Nat
  maxArrayLen : Nat
  maxStringLen : Nat

structure ShapeViolation where
  kind : String
  path : String
  limit : Nat
  actual : Nat

def ShapeViolation.summary (self : ShapeViolation) : String :=
  self.kind ++ " at `" ++ self.path ++ "`: " ++ self.actual.repr ++ " exceeds limit " ++
    self.limit.repr

namespace BoundedEventShapeValidator

def new : BoundedEventShapeValidator := ⟨256 * 1024, 32, 256, 1024, 64 * 1024⟩

def withMaxDepth (self : BoundedEventShapeValidator) (depth : Nat) : BoundedEventShapeValidator :=
  { self with maxDepth := depth }

section Model

variable (self : BoundedEventShapeValidator)

mutual

def walk : Value → String → Nat → Option ShapeViolation
  | value, path, depth =>
    if depth > self.maxDepth then some ⟨"max_depth", path, self.maxDepth, depth⟩
    else
      match value with
      | .null | .bool _ | .number _ => none
      | .string s =>
        if s.utf8ByteSize > self.maxStringLen then
          some ⟨"max_string_len", path, self.maxStringLen, s.utf8ByteSize⟩
        else none
      | .array items =>
        if items.length > self.maxArrayLen then
          some ⟨"max_array_len", path, self.maxArrayLen, items.length⟩
        else walkItems items path 0 depth
      | .object map =>
        if map.length > self.maxObjectKeys then
          some ⟨"max_object_keys", path, self.maxObjectKeys, map.length⟩
        else walkFields map path depth

def walkItems : List Value → String → Nat → Nat → Option ShapeViolation
  | [], _, _, _ => none
  | item :: items, path, i, depth =>
    match walk item (path ++ "[" ++ i.repr ++ "]") (depth + 1) with
    | some v => some v
    | none => walkItems items path (i + 1) depth

def walkFields : List (String × Value) → String → Nat → Option ShapeViolation
  | [], _, _ => none
  | (key, child) :: map, path, depth =>
    match walk child (path ++ "." ++ key) (depth + 1) with
    | some v => some v
    | none => walkFields map path depth

end

def kind : String := "output-bounded-event-shape"

def reportOver (summary : String) (contract : OutputContract) (details : List (String × Value)) :
    Except DomainError ValidatorReport := do
  let details ← attributes (json (("contract_id", .string contract.contractId) :: details))
  ValidatorReport.new kind false summary details

def validate (serde : SerdeJson) (proposalContent : String) (constraints : TaskConstraints) :
    Except DomainError ValidatorReport :=
  match constraints.outputContract with
  | none =>
    ValidatorReport.new kind true "no structured output contract configured" Attributes.empty
  | some contract =>
    let trimmed := trim proposalContent
    let totalBytes := trimmed.utf8ByteSize
    if totalBytes > self.maxTotalSizeBytes then
      reportOver ("proposal is " ++ totalBytes.repr ++ " bytes; limit is " ++
        self.maxTotalSizeBytes.repr ++ " bytes") contract
        [("violation", .string "max_total_size_bytes"), ("limit", jsonNat self.maxTotalSizeBytes),
          ("actual", jsonNat totalBytes)]
    else
      match serde.fromStr (stripMarkdownFences trimmed) with
      | .error err => reportUnparsed kind ("proposal is not valid JSON: " ++ err) contract
      | .ok instanceValue =>
        match self.walk instanceValue "$" 0 with
        | some violation =>
          reportOver violation.summary contract [("violation", .string violation.kind),
            ("path", .string violation.path), ("limit", jsonNat violation.limit),
            ("actual", jsonNat violation.actual)]
        | none => do
          let details ← attributes (json [("contract_id", .string contract.contractId)])
          ValidatorReport.new kind true "proposal satisfies the event-shape budget" details

end Model

section Walking

variable {self : BoundedEventShapeValidator}

/-- The bounds on one value by itself. -/
def Fits (self : BoundedEventShapeValidator) : Value → Prop
  | .string s => s.utf8ByteSize ≤ self.maxStringLen
  | .array items => items.length ≤ self.maxArrayLen
  | .object entries => entries.length ≤ self.maxObjectKeys
  | _ => True

/-- What the limits promise of a document. -/
structure Within (limits : BoundedEventShapeValidator) (value : Value) : Prop where
  nested : NestedWithin limits.maxDepth value
  fits : ∀ n part, Lies value n part → Fits limits part

theorem walkItems_eq_none {Q : Value → Nat → Prop} {items : List Value}
    (h : ∀ item ∈ items, ∀ path depth, self.walk item path depth = none ↔ Q item depth)
    (path : String) (i depth : Nat) :
    self.walkItems items path i depth = none ↔ ∀ item ∈ items, Q item (depth + 1) := by
  induction items generalizing i with
  | nil => simp [walkItems]
  | cons item items ih =>
    have hitem := h item (by simp) (path ++ "[" ++ i.repr ++ "]") (depth + 1)
    have hitems := ih (fun item' hmem => h item' (List.mem_cons_of_mem _ hmem)) (i + 1)
    rw [walkItems, List.forall_mem_cons, ← hitem, ← hitems]
    cases self.walk item (path ++ "[" ++ i.repr ++ "]") (depth + 1) with
    | some v => simp
    | none => simp

theorem walkFields_eq_none {Q : Value → Nat → Prop} {map : List (String × Value)}
    (h : ∀ e ∈ map, ∀ path depth, self.walk e.2 path depth = none ↔ Q e.2 depth)
    (path : String) (depth : Nat) :
    self.walkFields map path depth = none ↔ ∀ e ∈ map, Q e.2 (depth + 1) := by
  induction map with
  | nil => simp [walkFields]
  | cons e map ih =>
    obtain ⟨key, child⟩ := e
    have hchild := h (key, child) (by simp) (path ++ "." ++ key) (depth + 1)
    have hmap := ih fun e' hmem => h e' (List.mem_cons_of_mem _ hmem)
    rw [walkFields, List.forall_mem_cons, ← hchild, ← hmap]
    cases self.walk child (path ++ "." ++ key) (depth + 1) with
    | some v => simp
    | none => simp

/-- What is inside of so many objects and arrays already keeps what the walk asks.
The walk counts what is around a value, and not the value itself. -/
def Accepted (self : BoundedEventShapeValidator) (value : Value) (depth : Nat) : Prop :=
  ∀ n part, Lies value n part → depth + n ≤ self.maxDepth ∧ Fits self part

theorem accepted_array {items : List Value} {depth : Nat} :
    Accepted self (.array items) depth ↔
      (depth ≤ self.maxDepth ∧ items.length ≤ self.maxArrayLen) ∧
        ∀ item ∈ items, Accepted self item (depth + 1) := by
  unfold Accepted
  rw [forall_lies_array]
  simp only [Nat.add_zero, Fits, Nat.add_assoc, Nat.add_comm 1]

theorem accepted_object {entries : List (String × Value)} {depth : Nat} :
    Accepted self (.object entries) depth ↔
      (depth ≤ self.maxDepth ∧ entries.length ≤ self.maxObjectKeys) ∧
        ∀ e ∈ entries, Accepted self e.2 (depth + 1) := by
  unfold Accepted
  rw [forall_lies_object]
  simp only [Nat.add_zero, Fits, Nat.add_assoc, Nat.add_comm 1]

theorem accepted_scalar {value : Value} (h : isContainer value = false) {depth : Nat} :
    Accepted self value depth ↔ depth ≤ self.maxDepth ∧ Fits self value :=
  forall_lies_scalar h

theorem walk_eq_none (value : Value) (path : String) (depth : Nat) :
    self.walk value path depth = none ↔ Accepted self value depth := by
  induction value using document_induction generalizing path depth with
  | null | bool b | number n =>
    rw [accepted_scalar rfl, walk]
    split_ifs with hdepth
    · simp [hdepth]
    · simp [Fits, not_lt.mp hdepth]
  | string s =>
    rw [accepted_scalar rfl, walk]
    split_ifs with hdepth hlen
    · simp [hdepth]
    · simp [Fits, hlen]
    · simp [Fits, not_lt.mp hdepth, not_lt.mp hlen]
  | array items ih =>
    rw [accepted_array, walk]
    split_ifs with hdepth hlen
    · simp [hdepth]
    · simp [hlen]
    · rw [walkItems_eq_none (Q := Accepted self) fun item hmem => ih item hmem]
      simp [not_lt.mp hdepth, not_lt.mp hlen]
  | object entries ih =>
    rw [accepted_object, walk]
    split_ifs with hdepth hlen
    · simp [hdepth]
    · simp [hlen]
    · rw [walkFields_eq_none (Q := Accepted self) fun e hmem => ih e hmem]
      simp [not_lt.mp hdepth, not_lt.mp hlen]

theorem walk_root {value : Value} :
    self.walk value "$" 0 = none ↔
      ∀ n part, Lies value n part → n ≤ self.maxDepth ∧ Fits self part := by
  rw [walk_eq_none, Accepted]
  simp only [Nat.zero_add]

/-- An empty object or array inside of exactly as many others as may be nested. -/
def EmptyAtLimit (self : BoundedEventShapeValidator) (value : Value) : Prop :=
  Lies value self.maxDepth (.array []) ∨ Lies value self.maxDepth (.object [])

/-- A value inside of too many objects and arrays, or too large by itself. -/
def Broken (self : BoundedEventShapeValidator) (value : Value) : Prop :=
  ∃ n part, Lies value n part ∧ (self.maxDepth < n ∨ ¬ Fits self part)

theorem walk_root_iff_not_broken {value : Value} :
    self.walk value "$" 0 = none ↔ ¬ Broken self value := by
  rw [walk_root, Broken]
  push Not
  exact forall₃_congr fun n part _ => Iff.rfl

/-- A container inside of as many others as may be nested has nothing in it, or
what it has is too deep. -/
theorem emptyAtLimit_of_container {value part : Value} (hnot : ¬ Broken self value)
    (h : Lies value self.maxDepth part) (hpart : isContainer part = true) :
    EmptyAtLimit self value := by
  have hover : ∀ inner, ¬ Lies part 1 inner := fun inner hinner =>
    hnot ⟨_, inner, h.trans hinner, .inl (Nat.lt_succ_self _)⟩
  match part, hpart with
  | .array [], _ => exact .inl h
  | .array (item :: items), _ => exact absurd (.item (by simp) (.root item)) (hover item)
  | .object [], _ => exact .inr h
  | .object (e :: entries), _ => exact absurd (.field (by simp) (.root e.2)) (hover e.2)

theorem within_iff_of_not_broken {value : Value} (hnot : ¬ Broken self value) :
    Within self value ↔ ¬ EmptyAtLimit self value := by
  have hwalk := walk_root.mp (walk_root_iff_not_broken.mpr hnot)
  constructor
  · rintro ⟨hnested, -⟩ hempty
    have hpassed : self.maxDepth + 1 ≤ self.maxDepth := by
      cases hempty with
      | inl h => exact hnested _ _ h
      | inr h => exact hnested _ _ h
    omega
  · intro hempty
    refine ⟨fun n part h => ?_, fun n part h => (hwalk n part h).2⟩
    have hn := (hwalk n part h).1
    unfold passed
    split_ifs with hpart
    · have hne : n ≠ self.maxDepth := by
        rintro rfl
        exact hempty (emptyAtLimit_of_container hnot h hpart)
      omega
    · exact hn

theorem not_within_of_broken {value : Value} (h : Broken self value) : ¬ Within self value := by
  obtain ⟨n, part, hlies, hover⟩ := h
  rintro ⟨hnested, hfits⟩
  have hpassed : n ≤ passed n part := by
    unfold passed
    split_ifs <;> omega
  have hn := hnested n part hlies
  cases hover with
  | inl hdeep => omega
  | inr hlarge => exact hlarge (hfits n part hlies)

theorem contractDetails_ok (contract : OutputContract) : ∃ details,
    attributes (json [("contract_id", .string contract.contractId)]) = .ok details := by
  refine attributes_new_ok.mpr ?_
  rw [OrdMap.ofList_entries, checkAttributes_ok]
  refine ⟨Nat.le_of_ble_eq_true rfl, fun key hkey => ?_⟩
  obtain ⟨value, hmem⟩ := OrdMap.mem_of_contains_ofList hkey
  obtain ⟨rfl, -⟩ := Prod.mk.inj (List.mem_singleton.mp hmem)
  decide

theorem passes_validate {serde : SerdeJson} {content : String} {constraints : TaskConstraints}
    {contract : OutputContract} (h : constraints.outputContract = some contract) :
    Passes (self.validate serde content constraints) ↔
      (trim content).utf8ByteSize ≤ self.maxTotalSizeBytes ∧
        ∃ value, serde.fromStr (stripMarkdownFences (trim content)) = .ok value ∧
          ¬ Broken self value := by
  unfold validate
  simp only [h]
  split_ifs with hsize
  · simp only [Nat.not_le.mpr hsize, false_and, iff_false]
    exact not_passes_failed
  · simp only [not_lt.mp hsize, true_and]
    cases serde.fromStr (stripMarkdownFences (trim content)) with
    | error err =>
      simp only [reduceCtorEq, false_and, exists_false, iff_false]
      exact not_passes_failed
    | ok value =>
      simp only [Except.ok.injEq, exists_eq_left', ← walk_root_iff_not_broken]
      cases self.walk value "$" 0 with
      | some violation =>
        simp only [reduceCtorEq, iff_false]
        exact not_passes_failed
      | none =>
        obtain ⟨details, hdetails⟩ := contractDetails_ok contract
        simp only [hdetails, iff_true]
        have hkind : trim kind ≠ "" := by decide
        exact (passes_new hkind).mpr rfl

end Walking

/-- The walk accepts exactly what keeps the limits unless, every other limit
kept, an empty object or array is the one too many. -/
theorem walk_exact_iff (self : BoundedEventShapeValidator) (value : Value) :
    (self.walk value "$" 0 = none ↔ Within self value) ↔
      (¬ EmptyAtLimit self value ∨ Broken self value) := by
  rw [walk_root_iff_not_broken]
  by_cases hbroken : Broken self value
  · simp [hbroken, not_within_of_broken hbroken]
  · simp [hbroken, within_iff_of_not_broken hbroken]

def fiveNested (innermost : List (String × Value)) : Value :=
  .object [("a", .object [("b", .object [("c", .object [("d", .object innermost)])])])]

theorem fiveNested_accepted_empty :
    ¬ (((new.withMaxDepth 4).walk (fiveNested []) "$" 0 = none) ↔
      Within (new.withMaxDepth 4) (fiveNested [])) ∧
      (new.withMaxDepth 4).walk (fiveNested [("e", .null)]) "$" 0 ≠ none := by
  refine ⟨?_, by decide⟩
  have haccepts : (new.withMaxDepth 4).walk (fiveNested []) "$" 0 = none := by decide
  have hlies : Lies (fiveNested []) 4 (.object []) :=
    .field (List.mem_singleton.mpr rfl) (.field (List.mem_singleton.mpr rfl)
      (.field (List.mem_singleton.mpr rfl) (.field (List.mem_singleton.mpr rfl) (.root _))))
  intro h
  have hpassed := (h.mp haccepts).nested _ _ hlies
  simp [passed, isContainer, withMaxDepth] at hpassed

end BoundedEventShapeValidator

end Choreographer.EventShapes
