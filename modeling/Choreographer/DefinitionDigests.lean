import Choreographer.Instance

namespace Choreographer.DefinitionDigests

open Choreographer.Lib.ByteStrings Choreographer.Lib.SortedMaps Choreographer.Lib.Updates
open Choreographer.Texts Choreographer.Values Choreographer.DefinitionParts
open Choreographer.Definition Choreographer.Instance

/-- How a definition is written down, and how bytes are hashed. -/
structure Sealer where
  toVec : CeremonyDefinition → Option (List Byte)
  sha256 : List Byte → Digest

def canonicalScheme : List Byte := utf8 "underpass.choreo.ceremony-definition.v1"

variable (env : Sealer)

def ofCanonicalForm (canonical : List Byte) : CeremonyDefinitionDigest :=
  env.sha256 (canonicalScheme ++ canonical)

def digest (definition : CeremonyDefinition) : Except DomainError CeremonyDefinitionDigest := do
  let canonical ← okOr (env.toVec definition)
    (.invariantViolated "ceremony definition cannot be rendered canonically")
  pure (ofCanonicalForm env canonical)

/-- Two definitions can be told apart: both can be written down, what is written says
which one it is, and their hashes do not collide. -/
structure Separates (d e : CeremonyDefinition) : Prop where
  rendered : ∃ canonical, env.toVec d = some canonical
  faithful : env.toVec d = env.toVec e → d = e
  collisionFree : ∀ canonical other, env.toVec d = some canonical → env.toVec e = some other →
    ofCanonicalForm env canonical = ofCanonicalForm env other → canonical = other

variable {env}

theorem digest_eq_ok {d : CeremonyDefinition} {hash : CeremonyDefinitionDigest} :
    digest env d = .ok hash ↔
      ∃ canonical, env.toVec d = some canonical ∧ ofCanonicalForm env canonical = hash := by
  simp only [digest, except_bind_eq_ok, okOr_eq_ok]
  refine exists_congr fun canonical => and_congr_right fun _ => ?_
  exact ⟨Except.ok.inj, congrArg Except.ok⟩

theorem Separates.digest_eq_iff {d e : CeremonyDefinition} (h : Separates env d e) :
    digest env d = digest env e ↔ d = e := by
  refine ⟨fun heq => ?_, fun heq => by rw [heq]⟩
  obtain ⟨canonical, hd⟩ := h.rendered
  have hok : digest env d = .ok (ofCanonicalForm env canonical) := digest_eq_ok.mpr ⟨_, hd, rfl⟩
  obtain ⟨other, he, hhash⟩ := digest_eq_ok.mp (heq.symm.trans hok)
  rw [h.collisionFree canonical other hd he hhash.symm] at hd
  exact h.faithful (hd.trans he.symm)

theorem separates_of_ne {d e : CeremonyDefinition} {canonical other : List Byte}
    (hd : env.toVec d = some canonical) (he : env.toVec e = some other)
    (h : ofCanonicalForm env canonical ≠ ofCanonicalForm env other) : Separates env d e where
  rendered := ⟨canonical, hd⟩
  faithful heq := by
    obtain rfl := Option.some.inj (hd.symm.trans (heq.trans he))
    exact absurd rfl h
  collisionFree a b ha hb hhash := by
    obtain rfl := Option.some.inj (hd.symm.trans ha)
    obtain rfl := Option.some.inj (he.symm.trans hb)
    exact absurd hhash h

section Boarding

def gate : StateId := ⟨"gate", by decide⟩
def aboard : StateId := ⟨"aboard", by decide⟩
def byBus : CeremonyTransition := ⟨gate, aboard, ⟨"bus", by decide⟩, OrdSet.ofList []⟩
def byBridge : CeremonyTransition := ⟨gate, aboard, ⟨"bridge", by decide⟩, OrdSet.ofList []⟩

def boarding (ways : List CeremonyTransition) : Except DomainError CeremonyDefinition :=
  CeremonyDefinition.new ⟨"boarding", by decide⟩ versionOne none [] []
    [⟨gate, .initial⟩, ⟨aboard, .terminal⟩] ways [] [] []

def busFirst : CeremonyDefinition := (boarding [byBus, byBridge]).toOption.get rfl
def bridgeFirst : CeremonyDefinition := (boarding [byBridge, byBus]).toOption.get rfl
def busOnly : CeremonyDefinition := (boarding [byBus]).toOption.get rfl

def busFirstHash : Digest :=
  ⟨[206, 75, 54, 183, 20, 107, 141, 3, 114, 189, 215, 201, 150, 50, 195, 7,
    67, 193, 49, 105, 250, 75, 182, 151, 144, 208, 152, 141, 72, 59, 23, 179], rfl⟩

def bridgeFirstHash : Digest :=
  ⟨[90, 127, 53, 106, 231, 251, 93, 248, 199, 94, 24, 217, 163, 147, 79, 127,
    250, 201, 158, 198, 83, 241, 234, 20, 176, 221, 94, 45, 32, 105, 33, 64], rfl⟩

def busOnlyHash : Digest :=
  ⟨[198, 180, 15, 26, 241, 51, 163, 110, 245, 114, 74, 85, 165, 62, 243, 102,
    248, 235, 6, 222, 187, 210, 71, 157, 213, 43, 148, 145, 218, 140, 120, 32], rfl⟩

def writtenWay (way : CeremonyTransition) : String :=
  "\x7b\"from\":\"" ++ way.fromState.asStr ++ "\",\"to\":\"" ++ way.toState.asStr ++
    "\",\"trigger\":\"" ++ way.trigger.asStr ++ "\",\"required_guards\":[]\x7d"

def written (ways : List CeremonyTransition) : List Byte :=
  utf8 ("\x7b\"name\":\"boarding\",\"version\":\"1\",\"description\":null,\"inputs\":" ++
    "\x7b\x7d,\"outputs\":\x7b\x7d,\"states\":\x7b\"aboard\":\x7b\"id\":\"aboard\"," ++
    "\"kind\":\"terminal\"\x7d,\"gate\":\x7b\"id\":\"gate\",\"kind\":\"initial\"" ++
    "\x7d\x7d,\"transitions\":[" ++
    ",".intercalate (ways.map writtenWay) ++
    "],\"steps\":\x7b\x7d,\"step_order\":[],\"guards\":\x7b\x7d,\"roles\":\x7b\x7d" ++
    "\x7d")

/-- The canonical texts of these boardings and their SHA-256 digests. -/
def table : Sealer where
  toVec definition := some (written definition.transitions)
  sha256 bytes :=
    if bytes = canonicalScheme ++ written [byBus, byBridge] then busFirstHash
    else if bytes = canonicalScheme ++ written [byBridge, byBus] then bridgeFirstHash
    else busOnlyHash

end Boarding

end Choreographer.DefinitionDigests
