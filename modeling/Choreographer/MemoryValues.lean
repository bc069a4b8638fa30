import Choreographer.Agenda

namespace Choreographer.MemoryValues

open Choreographer.Lib.SortedMaps Choreographer.Lib.ByteStrings
open Choreographer.Texts Choreographer.Values Choreographer.Agenda

/-- What memory checks of a text after trimming it, in this order. Where the identifiers of
a session are measured in bytes, these are in characters. -/
structure PhraseRule where
  field : String
  maxLength : Nat
  allowed : Char → Bool

def PhraseRule.check (rule : PhraseRule) (raw : String) : Except DomainError String :=
  let trimmed := trim raw
  if trimmed = "" then .error (.emptyField rule.field)
  else if trimmed.toList.length > rule.maxLength then
    .error (.fieldTooLong rule.field trimmed.toList.length rule.maxLength)
  else if trimmed.toList.any (fun c => !rule.allowed c) then
    .error (.invalidCharacters rule.field)
  else .ok trimmed

theorem PhraseRule.check_ok {rule : PhraseRule} {raw s : String} :
    rule.check raw = .ok s ↔ s = trim raw ∧ s ≠ "" ∧ s.toList.length ≤ rule.maxLength ∧
      ∀ c ∈ s.toList, rule.allowed c = true := by
  unfold PhraseRule.check
  simp only
  split_ifs with h1 h2 h3
  · simp only [false_iff]
    rintro ⟨rfl, h, -⟩
    exact h h1
  · simp only [false_iff]
    rintro ⟨rfl, -, h, -⟩
    omega
  · simp only [false_iff]
    rintro ⟨rfl, -, -, h⟩
    simp only [List.any_eq_true, Bool.not_eq_true'] at h3
    obtain ⟨c, hc, hf⟩ := h3
    simp [h c hc] at hf
  · simp only [Except.ok.injEq]
    constructor
    · rintro rfl
      refine ⟨rfl, h1, by omega, fun c hc => ?_⟩
      by_contra hn
      exact h3 (List.any_eq_true.mpr ⟨c, hc, by simpa using hn⟩)
    · rintro ⟨rfl, -⟩
      rfl

theorem PhraseRule.check_idem {rule : PhraseRule} {raw s : String} (h : rule.check raw = .ok s) :
    rule.check s = .ok s := by
  obtain ⟨rfl, h⟩ := check_ok.mp h
  exact check_ok.mpr ⟨(trim_trim raw).symm, h⟩

/-- A text its rule leaves as it is. -/
structure Phrase (rule : PhraseRule) where
  asStr : String
  valid : rule.check asStr = .ok asStr

namespace Phrase

variable {rule : PhraseRule}

@[ext] theorem ext {s t : Phrase rule} (h : s.asStr = t.asStr) : s = t := by
  obtain ⟨s, hs⟩ := s
  obtain ⟨t, ht⟩ := t
  have h : s = t := h
  subst h
  rfl

instance : DecidableEq (Phrase rule) := fun s t =>
  decidable_of_iff (s.asStr = t.asStr) ⟨Phrase.ext, fun h => by rw [h]⟩

def new (raw : String) : Except DomainError (Phrase rule) :=
  match h : rule.check raw with
  | .ok s => .ok ⟨s, PhraseRule.check_idem h⟩
  | .error e => .error e

theorem new_eq_ok {raw : String} {t : Phrase rule} :
    new raw = .ok t ↔ rule.check raw = .ok t.asStr := by
  unfold new
  split
  · next s h => simp [h, Phrase.ext_iff]
  · next e h => simp [h]

theorem new_isOk {s : String} (htrim : trim s = s) (hne : s ≠ "")
    (hallowed : ∀ c ∈ s.toList, rule.allowed c = true) :
    (∃ t : Phrase rule, new s = .ok t) ↔ s.toList.length ≤ rule.maxLength := by
  constructor
  · rintro ⟨t, ht⟩
    rw [new_eq_ok, PhraseRule.check_ok, htrim] at ht
    obtain ⟨htext, -, hlen, -⟩ := ht
    rwa [← htext]
  · intro hlen
    have hcheck : rule.check s = .ok s := PhraseRule.check_ok.mpr ⟨htrim.symm, hne, hlen, hallowed⟩
    exact ⟨⟨s, hcheck⟩, new_eq_ok.mpr hcheck⟩

end Phrase

abbrev MemoryEntryId := Phrase ⟨"memory_entry_id", 256, noControl⟩
abbrev MemoryScope := Phrase ⟨"memory_scope", 256, noControl⟩
abbrev MemoryDimension := Phrase ⟨"memory_dimension", 128, noControl⟩
abbrev MemorySummary := Phrase ⟨"memory_entry.summary", 2048, fun _ => true⟩
abbrev MemoryLabel := Phrase ⟨"memory_evidence.label", 256, fun _ => true⟩
abbrev MemoryWhy := Phrase ⟨"memory_relation.why", 512, fun _ => true⟩

def MemoryScope.ofCeremony (ceremonyId : CeremonyId) : Except DomainError MemoryScope :=
  Phrase.new ("ceremony:" ++ ceremonyId.asStr)

inductive MemoryEntryKind
  | decision
  | observation
  | constraint
  | outcome
deriving DecidableEq, Repr

/-- Who says so, and when they saw it. -/
structure MemoryProvenance where
  ceremonyId : CeremonyId
  roleId : Option RoleId
  observedAt : OffsetDateTime
deriving DecidableEq

/-- The key of a write names what is written about and not the moment. -/
def MemoryProvenance.idempotencyKey (self : MemoryProvenance) (discriminator : String) :
    Except DomainError String :=
  if trim discriminator = "" then .error (.emptyField "memory_provenance.discriminator")
  else .ok ("remember:" ++ self.ceremonyId.asStr ++ ":" ++ trim discriminator)

structure MemoryEvidence where
  label : MemoryLabel
  sourceId : Option String
  detail : Attributes

def MemoryEvidence.new (label : String) (sourceId : Option String) (detail : Attributes) :
    Except DomainError MemoryEvidence := do
  let label ← Phrase.new label
  pure ⟨label, sourceId, detail⟩

structure MemoryEntry where
  id : MemoryEntryId
  kind : MemoryEntryKind
  summary : MemorySummary
  dimension : Option MemoryDimension
  provenance : MemoryProvenance
  evidence : List MemoryEvidence
  detail : Attributes

def MemoryEntry.new (id : MemoryEntryId) (kind : MemoryEntryKind) (summary : String)
    (dimension : Option MemoryDimension) (provenance : MemoryProvenance) (detail : Attributes) :
    Except DomainError MemoryEntry := do
  let summary ← Phrase.new summary
  pure ⟨id, kind, summary, dimension, provenance, [], detail⟩

def MemoryEntry.withEvidence (self : MemoryEntry) (evidence : List MemoryEvidence) : MemoryEntry :=
  { self with evidence := self.evidence ++ evidence }

inductive MemoryRelationKind
  | answers
  | authorizes
  | chosenBecause
  | achievedBy
  | followsFrom
  | satisfiesConstraint
  | violatesConstraint
  | supersedes
  | contradicts
deriving DecidableEq, Repr

/-- Why one remembered thing led to another. Nothing explains itself. -/
structure MemoryRelation where
  fromEntry : MemoryEntryId
  toEntry : MemoryEntryId
  kind : MemoryRelationKind
  why : MemoryWhy
  confidence : MemoryConfidence
  apart : fromEntry ≠ toEntry

def MemoryRelation.new (fromEntry toEntry : MemoryEntryId) (kind : MemoryRelationKind)
    (why : String) (confidence : MemoryConfidence) : Except DomainError MemoryRelation :=
  if h : fromEntry = toEntry then
    .error (.invariantViolated "a memory entry cannot explain itself")
  else do
    let why ← Phrase.new why
    pure ⟨fromEntry, toEntry, kind, why, confidence, h⟩

/-- What a session hands to memory in one go. A write of nothing cannot be built. -/
structure MemoryWrite where
  entries : List MemoryEntry
  relations : List MemoryRelation
  something : entries ≠ [] ∨ relations ≠ []

namespace MemoryWrite

def new (entries : List MemoryEntry) (relations : List MemoryRelation) :
    Except DomainError MemoryWrite :=
  if h : entries.isEmpty && relations.isEmpty then .error (.emptyCollection "memory.write")
  else .ok ⟨entries, relations, by
    cases entries with
    | nil => exact .inr (by simpa using h)
    | cons entry entries => exact .inl (by simp)⟩

def reasonsOnly (relations : List MemoryRelation) : Except DomainError MemoryWrite :=
  new [] relations

def unexplained (entries : List MemoryEntry) : Except DomainError MemoryWrite := new entries []

end MemoryWrite

end Choreographer.MemoryValues
