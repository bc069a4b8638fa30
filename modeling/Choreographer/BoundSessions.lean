import Choreographer.Publications
import Choreographer.TamperEvidence
import Choreographer.UseCaseRuns

namespace Choreographer.BoundSessions

open Choreographer.Lib.ByteStrings Choreographer.Lib.SortedMaps Choreographer.Lib.Updates
open Choreographer.Lib.Programs
open Choreographer.Texts Choreographer.Values Choreographer.Definition Choreographer.Instance
open Choreographer.Operations Choreographer.Audit Choreographer.InMemory Choreographer.Redb
open Choreographer.SessionJournal Choreographer.SessionLog Choreographer.UseCases
open Choreographer.Histories Choreographer.UseCaseRuns
open Choreographer.DefinitionDigests Choreographer.Publications

/-- Sessions and definitions, and a publication store beside them. -/
structure Site (σ : Type) where
  world : World Deed
  shelf : σ

section System

variable (env : Rendering) (sealer : Sealer) {σ : Type}
  (port : CeremonyDefinitionPublicationPort σ)

/-- Publications are read from the store. A store that fails has no answer to give; that
none ever fails is part of what is shown. -/
def execOn : Semantics (calls Deed) (Site σ)
  | .published name version, s, a, s' => port.published name version s.shelf = .ok a ∧ s' = s
  | c, s, a, s' => exec env c s.world a s'.world ∧ s'.shelf = s.shelf

end System

section Shelves

variable {env : Rendering} {sealer : Sealer} {σ : Type}
  {port : CeremonyDefinitionPublicationPort σ} {inv : σ → Prop}
  {c c' : Config (calls Deed) (Site σ)}

end Shelves

section Simulation

variable {env : Rendering} {sealer : Sealer} {σ : Type}
  {port : CeremonyDefinitionPublicationPort σ} {inv : σ → Prop}

end Simulation

section Resolution

variable {env : Rendering} {sealer : Sealer} {σ : Type}
  {port : CeremonyDefinitionPublicationPort σ} {inv : σ → Prop}

theorem resolve_run {i : CeremonyInstance} {hash : CeremonyDefinitionDigest}
    (hbound : i.boundDefinition = some hash) :
    (resolveCeremonyDefinition i).run =
      .ask (.published i.definitionName i.definitionVersion) fun found => .done (do
        let published ← okOr found (.notFound "published_ceremony_definition")
        require (published.digest = hash) (.invariantViolated
          "the published definition no longer matches the digest this instance ran")
        pure published.definition) := by
  unfold resolveCeremonyDefinition
  rw [hbound]
  refine congrArg (Prog.ask (I := calls Deed)
    (.published i.definitionName i.definitionVersion)) (funext fun found => ?_)
  cases found with
  | none => rfl
  | some p =>
    change (checked (require (p.digest = hash) (.invariantViolated
      "the published definition no longer matches the digest this instance ran")) >>=
        fun _ => pure p.definition : UseCaseM CeremonyDefinition).run =
      .done (require (p.digest = hash) (.invariantViolated
        "the published definition no longer matches the digest this instance ran") >>=
          fun _ => pure p.definition)
    generalize require _ _ = answer
    cases answer <;> rfl

theorem resolves {s : Site σ} {i : CeremonyInstance} {p : PublishedCeremonyDefinition}
    (hbound : i.boundDefinition = some p.digest)
    (hread : port.published i.definitionName i.definitionVersion s.shelf = .ok (some p))
    (r : Except DomainError CeremonyDefinition) (s' : Site σ) :
    Returns (execOn env port) (resolveCeremonyDefinition i).run s r s' ↔
      r = .ok p.definition ∧ s' = s := by
  rw [resolve_run hbound]
  have hok : (do
      let published ← okOr (some p) (.notFound "published_ceremony_definition")
      require (published.digest = p.digest) (.invariantViolated
        "the published definition no longer matches the digest this instance ran")
      pure published.definition : Except DomainError CeremonyDefinition) = .ok p.definition := by
    simp [okOr, require, except_bind_eq_ok]
  constructor
  · intro h
    cases h with
    | ask hcall hdone =>
      obtain ⟨ha, rfl⟩ := hcall
      obtain rfl := Except.ok.inj (ha.symm.trans hread)
      obtain ⟨rfl, rfl⟩ := returns_done.mp hdone
      exact ⟨hok, rfl⟩
  · rintro ⟨rfl, rfl⟩
    refine .ask (a := some p) ⟨hread, rfl⟩ ?_
    rw [hok]
    exact .done _ _

end Resolution

section Promises

variable {env : Rendering} {sealer : Sealer} {σ : Type}
  {port : CeremonyDefinitionPublicationPort σ} {inv : σ → Prop} {start : σ}

end Promises

section Flight

end Flight

end Choreographer.BoundSessions
