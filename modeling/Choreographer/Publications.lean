import Choreographer.DefinitionDigests
import Choreographer.RedbTables

namespace Choreographer.Publications

open Choreographer.Lib.ByteStrings Choreographer.Lib.SortedMaps Choreographer.Lib.Updates
open Choreographer.Texts Choreographer.Values Choreographer.Definition Choreographer.Instance
open Choreographer.DefinitionDigests Choreographer.Redb

variable (sealer : Sealer)

/-- Fix a definition to the identity of its content. -/
def PublishedCeremonyDefinition.seal (definition : CeremonyDefinition) :
    Except DomainError PublishedCeremonyDefinition := do
  let hash ← digest sealer definition
  pure ⟨definition, hash⟩

inductive PublicationOutcome
  | published (definition : PublishedCeremonyDefinition)
  | alreadyPublished (definition : PublishedCeremonyDefinition)
  | versionOccupied (published offered : CeremonyDefinitionDigest)

def PublicationOutcome.isConflict : PublicationOutcome → Bool
  | .versionOccupied _ _ => true
  | _ => false

structure CeremonyDefinitionPublicationPort (σ : Type) where
  publish : PublishedCeremonyDefinition → σ → Except DomainError PublicationOutcome × σ
  published : CeremonyName → CeremonyVersion → σ →
    Except DomainError (Option PublishedCeremonyDefinition)

section InMemory

abbrev InMemoryCeremonyDefinitionPublications :=
  OrdMap (Lex (CeremonyName × CeremonyVersion)) PublishedCeremonyDefinition

namespace InMemoryCeremonyDefinitionPublications

/-- The occupant is read and the slot written under one lock. -/
def publish (definition : PublishedCeremonyDefinition)
    (self : InMemoryCeremonyDefinitionPublications) :
    Except DomainError PublicationOutcome × InMemoryCeremonyDefinitionPublications :=
  let key := toLex (definition.definition.name, definition.definition.version)
  match self.get? key with
  | some occupant =>
    if occupant.digest = definition.digest then (.ok (.alreadyPublished occupant), self)
    else (.ok (.versionOccupied occupant.digest definition.digest), self)
  | none => (.ok (.published definition), self.insert key definition)

def published (name : CeremonyName) (version : CeremonyVersion)
    (self : InMemoryCeremonyDefinitionPublications) :
    Except DomainError (Option PublishedCeremonyDefinition) :=
  .ok (self.get? (toLex (name, version)))

def port : CeremonyDefinitionPublicationPort InMemoryCeremonyDefinitionPublications :=
  ⟨publish, published⟩

end InMemoryCeremonyDefinitionPublications

end InMemory

section Redb

/-- The length of the name in two bytes, the name, and the version. -/
def publishedKey (name : CeremonyName) (version : CeremonyVersion) : List Byte :=
  beBytes 2 (utf8 name.asStr).length ++ utf8 name.asStr ++ utf8 version.asStr

/-- A published definition and the digest it was sealed with. -/
structure StoredPublication where
  definition : CeremonyDefinition
  digest : CeremonyDefinitionDigest

def StoredPublication.seal (published : PublishedCeremonyDefinition) : StoredPublication :=
  ⟨published.definition, published.digest⟩

/-- The digest is computed again, and the stored one is not looked at. -/
def StoredPublication.restore (self : StoredPublication) :
    Except DomainError PublishedCeremonyDefinition :=
  PublishedCeremonyDefinition.seal sealer self.definition

variable (codec : Codec StoredPublication)

namespace RedbPublications

def stored (key : List Byte) (table : Table) : Except DomainError (Option StoredPublication) :=
  match table.get? key with
  | none => .ok none
  | some bytes => do
    let publication ← decode codec bytes
    pure (some publication)

/-- What is done within the write transaction. -/
def offer (definition : PublishedCeremonyDefinition) :
    Update DomainError Table PublicationOutcome := do
  let key := publishedKey definition.definition.name definition.definition.version
  match ← check (stored codec key) with
  | some occupant =>
    if occupant.digest = definition.digest then
      let restored ← check fun _ => occupant.restore sealer
      pure (.alreadyPublished restored)
    else pure (.versionOccupied occupant.digest definition.digest)
  | none =>
    let bytes ← check fun _ => encode codec (.seal definition)
    modify fun table => table.insert key bytes
    pure (.published definition)

/-- A conflict is answered without a commit. -/
def publish (definition : PublishedCeremonyDefinition) (self : Table) :
    Except DomainError PublicationOutcome × Table :=
  match (offer sealer codec definition).on self with
  | (.error e, _) => (.error e, self)
  | (.ok outcome, changed) => (.ok outcome, if outcome.isConflict then self else changed)

def published (name : CeremonyName) (version : CeremonyVersion) (self : Table) :
    Except DomainError (Option PublishedCeremonyDefinition) := do
  match ← stored codec (publishedKey name version) self with
  | none => pure none
  | some publication => do
    let restored ← publication.restore sealer
    pure (some restored)

def port : CeremonyDefinitionPublicationPort Table :=
  ⟨publish sealer codec, published sealer codec⟩

end RedbPublications

end Redb

/-- Publishing adds identity to a definition, and puts it in a slot of its own. -/
def publishCeremonyDefinition {σ : Type} (port : CeremonyDefinitionPublicationPort σ)
    (definition : CeremonyDefinition) (s : σ) : Except DomainError PublicationOutcome × σ :=
  match PublishedCeremonyDefinition.seal sealer definition with
  | .error e => (.error e, s)
  | .ok p => port.publish p s

section Contract

variable {σ : Type}

def answered (occupant offered : PublishedCeremonyDefinition) : PublicationOutcome :=
  if occupant.digest = offered.digest then .alreadyPublished occupant
  else .versionOccupied occupant.digest offered.digest

/-- A definition under the digest of its content. -/
def Sealed (p : PublishedCeremonyDefinition) : Prop :=
  PublishedCeremonyDefinition.seal sealer p.definition = .ok p

variable {sealer} {port : CeremonyDefinitionPublicationPort σ} {inv : σ → Prop}

theorem Sealed.digest {p : PublishedCeremonyDefinition} (h : Sealed sealer p) :
    DefinitionDigests.digest sealer p.definition = .ok p.digest := by
  simp only [Sealed, PublishedCeremonyDefinition.seal, except_bind_eq_ok] at h
  obtain ⟨hash, hhash, h⟩ := h
  rw [hhash, ← Except.ok.inj h]

end Contract

namespace InMemoryCeremonyDefinitionPublications

/-- Every slot holds a sealed definition of its name and version. -/
def Filed (self : InMemoryCeremonyDefinitionPublications) : Prop :=
  ∀ name version p, self.get? (toLex (name, version)) = some p →
    p.definition.name = name ∧ p.definition.version = version ∧ Sealed sealer p

end InMemoryCeremonyDefinitionPublications

namespace RedbPublications

variable (codec : Codec StoredPublication)

/-- Every row is a sealed definition under the key of its name and version. -/
def Filed (table : Table) : Prop :=
  ∀ key bytes, table.get? key = some bytes → ∃ p, Sealed sealer p ∧
    key = publishedKey p.definition.name p.definition.version ∧
    codec.decode bytes = some (.seal p)

variable {sealer codec} {table : Table}

theorem filed_insert (hlossless : ∀ p bytes, codec.encode p = some bytes →
      codec.decode bytes = some p) (h : Filed sealer codec table)
    {p : PublishedCeremonyDefinition} (hsealed : Sealed sealer p) {bytes : List Byte}
    (hbytes : codec.encode (.seal p) = some bytes) :
    Filed sealer codec
      (table.insert (publishedKey p.definition.name p.definition.version) bytes) := by
  intro key row hrow
  rw [OrdMap.get?_insert] at hrow
  split at hrow
  · next hkey =>
    obtain rfl := Option.some.inj hrow
    exact ⟨p, hsealed, hkey, hlossless _ _ hbytes⟩
  · exact h key row hrow

end RedbPublications

end Choreographer.Publications
