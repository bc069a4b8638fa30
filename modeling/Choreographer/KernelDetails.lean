import Choreographer.JsonTexts
import Choreographer.KernelPages

namespace Choreographer.KernelDetails

open Choreographer.Lib.SortedMaps Choreographer.Lib.Updates
open Choreographer.Texts Choreographer.Values Choreographer.Documents Choreographer.JsonTexts
open Choreographer.KernelPages

/-- The kernel's metadata is strings, so that a string is left as it is and any
other document is written out. -/
def flattenValue (toString : Value → String) : Value → String
  | .string text => text
  | other => toString other

def flatten (toString : Value → String) (attributes : Attributes) : OrdMap String String :=
  attributes.entries.mapValues (flattenValue toString)

def metadata (flattened : OrdMap String String) : Value :=
  .object (flattened.mapValues .string).entries

/-- The library that reads and writes documents does so as JSON has it. -/
structure Json (floats : Floats) (formats : Formats) (toString : Value → String) : Prop where
  reads : ∀ text, formats.fromStr text = read floats text
  writes : ∀ value, toString value = String.ofList (write floats value)

section Details

variable {floats : Floats} {formats : Formats} {toString : Value → String}
  {attributes : Attributes} {entry : Value}

def comesBack (formats : Formats) (toString : Value → String) (value : Value) : Value :=
  restore formats (.string (flattenValue toString value))

theorem checkAttributes_mapValues (attributes : Attributes) (f : Value → Value) :
    checkAttributes (attributes.entries.mapValues f) = .ok () := by
  obtain ⟨hsize, hkeys⟩ := checkAttributes_ok.mp attributes.valid
  refine checkAttributes_ok.mpr ⟨?_, fun key hkey => hkeys key ?_⟩
  · simpa [OrdMap.size, OrdMap.mapValues] using hsize
  · simpa [OrdMap.contains] using hkey

theorem detail_eq (h : get entry "metadata" = some (metadata (flatten toString attributes))) :
    (detail formats entry).entries =
      attributes.entries.mapValues (comesBack formats toString) := by
  have hentries : OrdMap.ofList
      ((((get entry "metadata").bind Value.asObject).getD []).map fun e =>
        (e.1, restore formats e.2)) =
      attributes.entries.mapValues (comesBack formats toString) := by
    rw [h, ← OrdMap.ofList_entries (attributes.entries.mapValues (comesBack formats toString))]
    simp only [metadata, Value.asObject, flatten, OrdMap.mapValues, Option.bind_some,
      Option.getD_some, List.map_map]
    rfl
  obtain ⟨back, hback⟩ :=
    attributes_new_ok.mpr (checkAttributes_mapValues attributes (comesBack formats toString))
  simp only [detail, hentries, hback]
  exact Attributes.new_eq_ok hback

theorem attributes_eq_iff {a b : Attributes} : a = b ↔ a.entries = b.entries := by
  obtain ⟨entries, hentries⟩ := a
  obtain ⟨entries', hentries'⟩ := b
  simp

theorem mapValues_eq_self {f : Value → Value} {m : OrdMap String Value} :
    m.mapValues f = m ↔ ∀ key value, m.get? key = some value → f value = value := by
  constructor
  · intro h key value hget
    have hmapped := OrdMap.get?_mapValues f m key
    rw [h, hget] at hmapped
    exact (Option.some.inj hmapped).symm
  · intro h
    refine OrdMap.ext_get? fun key => ?_
    rw [OrdMap.get?_mapValues]
    cases hget : m.get? key with
    | none => rfl
    | some value => rw [Option.map_some, h key value hget]

/-- A value the kernel gives back as it was. -/
def Survives (floats : Floats) : Value → Prop
  | .string text => read floats text = none
  | other => Returns floats maxNesting other

theorem comesBack_string (h : Json floats formats toString) (text : String) :
    comesBack formats toString (.string text) = .string text ↔ read floats text = none := by
  simp only [comesBack, flattenValue, restore, Value.asStr, Option.bind_some, h.reads]
  cases hread : read floats text with
  | none => simp
  | some value =>
    simp only [Option.getD_some, reduceCtorEq, iff_false]
    rintro rfl
    exact read_ne_string text hread

theorem comesBack_document (h : Json floats formats toString) {value : Value}
    (hvalue : ∀ text, value ≠ .string text) (hkeyed : Keyed value) :
    comesBack formats toString value = value ↔ Returns floats maxNesting value := by
  have hflat : flattenValue toString value = String.ofList (write floats value) := by
    cases value with
    | string text => exact absurd rfl (hvalue text)
    | null | bool | number | array | object => exact h.writes _
  rw [← reread_eq_self hkeyed, ← read_write]
  simp only [comesBack, restore, Value.asStr, Option.bind_some, h.reads, hflat]
  cases hread : read floats (String.ofList (write floats value)) with
  | none =>
    simp only [Option.getD_none, reduceCtorEq, iff_false]
    exact fun heq => hvalue _ heq.symm
  | some back => simp

theorem comesBack_iff (h : Json floats formats toString) {value : Value} (hkeyed : Keyed value) :
    comesBack formats toString value = value ↔ Survives floats value := by
  cases value with
  | string text => exact comesBack_string h text
  | null | bool | number | array | object => exact comesBack_document h (by simp) hkeyed

end Details

/-- Details come back as they were written just when no string of them can be read
as a document, and no other value nests too deep or has a number that is not read as
it was written. -/
theorem details_survive_iff {floats : Floats} {formats : Formats} {toString : Value → String}
    (hjson : Json floats formats toString) (attributes : Attributes)
    (hkeyed : ∀ key value, attributes.get key = some value → Keyed value) {entry : Value}
    (hentry : get entry "metadata" = some (metadata (flatten toString attributes))) :
    detail formats entry = attributes ↔
      ∀ key value, attributes.get key = some value → Survives floats value := by
  rw [attributes_eq_iff, detail_eq hentry, mapValues_eq_self]
  exact forall₃_congr fun key value hget => comesBack_iff hjson (hkeyed key value hget)

def jsonFormats : Formats where
  rfc3339 _ := none
  parseRfc3339 _ := none
  fromStr := read zeroFloats

def jsonToString (value : Value) : String := String.ofList (write zeroFloats value)

def entryWith (attributes : Attributes) : Value :=
  .object [("metadata", metadata (flatten jsonToString attributes))]

def codeDetail : Attributes := ⟨OrdMap.ofList [("code", .string "12")], rfl⟩

theorem codeDetail_lost :
    detail jsonFormats (entryWith codeDetail) ≠ codeDetail ∧
      (detail jsonFormats (entryWith codeDetail)).get "code" = some (.number (.posInt 12)) := by
  have hback : (detail jsonFormats (entryWith codeDetail)).get "code" =
      some (.number (.posInt 12)) := rfl
  refine ⟨fun h => ?_, hback⟩
  rw [h] at hback
  have hcode : codeDetail.get "code" = some (.string "12") := rfl
  rw [hcode] at hback
  simp at hback

def noteDetail : Attributes := ⟨OrdMap.ofList [("note", .string "twelve")], rfl⟩

theorem details_survive_note :
    detail jsonFormats (entryWith noteDetail) = noteDetail ↔
      ∀ key value, noteDetail.get key = some value → Survives zeroFloats value := by
  refine details_survive_iff ⟨fun _ => rfl, fun _ => rfl⟩ noteDetail (fun key value hget => ?_) rfl
  have hmem : (key, value) ∈ [("note", Value.string "twelve")] := OrdMap.mem_entries.mpr hget
  obtain ⟨-, rfl⟩ := Prod.mk.inj (List.mem_singleton.mp hmem)
  exact (forall_lies_scalar rfl).mpr (by simp)

end Choreographer.KernelDetails
