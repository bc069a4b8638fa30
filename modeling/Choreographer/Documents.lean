import Choreographer.Values

namespace Choreographer.Documents

open Choreographer.Values

@[elab_as_elim]
theorem document_induction {P : Value → Prop} (null : P .null) (bool : ∀ b, P (.bool b))
    (number : ∀ n, P (.number n)) (string : ∀ s, P (.string s))
    (array : ∀ items, (∀ item ∈ items, P item) → P (.array items))
    (object : ∀ entries, (∀ e ∈ entries, P e.2) → P (.object entries)) : ∀ value, P value
  | .null => null
  | .bool b => bool b
  | .number n => number n
  | .string s => string s
  | .array items =>
    array items fun item _ => document_induction null bool number string array object item
  | .object entries =>
    object entries fun e _ => document_induction null bool number string array object e.2
termination_by value => sizeOf value
decreasing_by
  · have h := List.sizeOf_lt_of_mem ‹item ∈ items›
    simp only [Value.array.sizeOf_spec]
    omega
  · have h := List.sizeOf_lt_of_mem ‹e ∈ entries›
    have he : sizeOf e.2 < sizeOf e := by
      cases e
      simp only [Prod.mk.sizeOf_spec]
      omega
    simp only [Value.object.sizeOf_spec]
    omega

def isContainer : Value → Bool
  | .array _ | .object _ => true
  | _ => false

/-- A part of a document that lies inside of so many objects and arrays of it. -/
inductive Lies : Value → Nat → Value → Prop
  | root (value : Value) : Lies value 0 value
  | item {items : List Value} {item part : Value} {n : Nat} (hmem : item ∈ items)
    (h : Lies item n part) : Lies (.array items) (n + 1) part
  | field {entries : List (String × Value)} {e : String × Value} {part : Value} {n : Nat}
    (hmem : e ∈ entries) (h : Lies e.2 n part) : Lies (.object entries) (n + 1) part

/-- The objects and arrays on the way to a part that lies inside of so many of
them, the part itself among them. -/
def passed (n : Nat) (part : Value) : Nat := if isContainer part then n + 1 else n

/-- No path from the root passes through more than so many objects and arrays. -/
def NestedWithin (depth : Nat) (value : Value) : Prop :=
  ∀ n part, Lies value n part → passed n part ≤ depth

section Parts

theorem Lies.trans {value part inner : Value} {m n : Nat} (h : Lies value m part)
    (hinner : Lies part n inner) : Lies value (m + n) inner := by
  induction h with
  | root => simpa using hinner
  | item hmem _ ih =>
    rw [Nat.add_right_comm]
    exact .item hmem (ih hinner)
  | field hmem _ ih =>
    rw [Nat.add_right_comm]
    exact .field hmem (ih hinner)

variable {P : Nat → Value → Prop}

theorem forall_lies_scalar {value : Value} (h : isContainer value = false) :
    (∀ n part, Lies value n part → P n part) ↔ P 0 value := by
  refine ⟨fun hall => hall 0 value (.root value), fun hP n part hlies => ?_⟩
  cases hlies with
  | root => exact hP
  | item | field => simp [isContainer] at h

theorem forall_lies_array {items : List Value} :
    (∀ n part, Lies (.array items) n part → P n part) ↔
      P 0 (.array items) ∧ ∀ item ∈ items, ∀ n part, Lies item n part → P (n + 1) part := by
  refine ⟨fun hall => ⟨hall _ _ (.root _), fun item hmem n part h => hall _ _ (.item hmem h)⟩, ?_⟩
  rintro ⟨hroot, hitems⟩ n part hlies
  cases hlies with
  | root => exact hroot
  | item hmem h => exact hitems _ hmem _ _ h

theorem forall_lies_object {entries : List (String × Value)} :
    (∀ n part, Lies (.object entries) n part → P n part) ↔
      P 0 (.object entries) ∧ ∀ e ∈ entries, ∀ n part, Lies e.2 n part → P (n + 1) part := by
  refine ⟨fun hall => ⟨hall _ _ (.root _), fun e hmem n part h => hall _ _ (.field hmem h)⟩, ?_⟩
  rintro ⟨hroot, hfields⟩ n part hlies
  cases hlies with
  | root => exact hroot
  | field hmem h => exact hfields _ hmem _ _ h

end Parts

end Choreographer.Documents
