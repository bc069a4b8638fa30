import Mathlib.Data.Set.Function
import Choreographer.Values

namespace Choreographer.Audit

open Choreographer.Lib.ByteStrings Choreographer.Lib.Updates Choreographer.Texts Choreographer.Values

/-- A text as long as a text can be. Records hold such texts: one that was read
back need not have passed the rule of the field it is in. -/
structure Str where
  asStr : String
  fits : asStr.utf8ByteSize < 2 ^ 64
deriving DecidableEq

def ofText {rule : TextRule} (t : Text rule) : Str :=
  ⟨t.asStr, Nat.lt_of_le_of_lt t.size_le rule.fits⟩

inductive AuditEventType
  | ceremonyDefinitionValidated
  | ceremonyDefinitionPublished
  | ceremonyInstanceStarted
  | stepStarted
  | stepCompleted
  | stepFailed
  | transitionApplied
  | interventionRequested
  | interventionResponded
  | interventionClosed
  | evidenceCollected
  | participantsBound
  | reasonAsserted
  | humanApprovalRecorded
  | humanDeferralRecorded
  | ceremonyCompleted
  | ceremonyFailed
deriving DecidableEq, Repr

def AuditEventType.asStr : AuditEventType → String
  | .ceremonyDefinitionValidated => "ceremony_definition_validated"
  | .ceremonyDefinitionPublished => "ceremony_definition_published"
  | .ceremonyInstanceStarted => "ceremony_instance_started"
  | .stepStarted => "step_started"
  | .stepCompleted => "step_completed"
  | .stepFailed => "step_failed"
  | .transitionApplied => "transition_applied"
  | .interventionRequested => "intervention_requested"
  | .interventionResponded => "intervention_responded"
  | .interventionClosed => "intervention_closed"
  | .evidenceCollected => "evidence_collected"
  | .participantsBound => "participants_bound"
  | .reasonAsserted => "reason_asserted"
  | .humanApprovalRecorded => "human_approval_recorded"
  | .humanDeferralRecorded => "human_deferral_recorded"
  | .ceremonyCompleted => "ceremony_completed"
  | .ceremonyFailed => "ceremony_failed"

def eventTypes : List AuditEventType :=
  [.ceremonyDefinitionValidated, .ceremonyDefinitionPublished, .ceremonyInstanceStarted,
    .stepStarted, .stepCompleted, .stepFailed, .transitionApplied, .interventionRequested,
    .interventionResponded, .interventionClosed, .evidenceCollected, .participantsBound,
    .reasonAsserted, .humanApprovalRecorded, .humanDeferralRecorded, .ceremonyCompleted,
    .ceremonyFailed]

theorem eventType_asStr_injective : Function.Injective AuditEventType.asStr := by
  have h (t : AuditEventType) : eventTypes.find? (fun u => u.asStr = t.asStr) = some t := by
    cases t <;> decide
  intro a b hab
  have ha := h a
  rw [hab, h b] at ha
  exact (Option.some.inj ha).symm

theorem actorKind_asStr_injective : Function.Injective AuditActorKind.asStr := by
  intro a b h
  cases a <;> cases b <;> first | rfl | (revert h; decide)

structure AuditActor where
  actorId : Str
  kind : AuditActorKind
  roleId : Option Str
deriving DecidableEq

def AuditActor.new (actorId : String) (kind : AuditActorKind) (roleId : Option RoleId) :
    Except DomainError AuditActor := do
  let actorId : AuditActorId ← Text.new actorId
  pure ⟨ofText actorId, kind, roleId.map ofText⟩

def AuditActor.engine (actorId : String) : Except DomainError AuditActor :=
  AuditActor.new actorId .engine none

/-- A position in a journal, counted from one. -/
structure AuditSequence where
  value : U64
deriving DecidableEq

namespace AuditSequence

def first : AuditSequence := ⟨1⟩

def next (self : AuditSequence) : AuditSequence := ⟨saturatingSucc self.value⟩

def follows (self previous : AuditSequence) : Bool := self.value = saturatingSucc previous.value

def isFirst (self : AuditSequence) : Bool := self = first

end AuditSequence

abbrev AuditRecordHash := Digest

structure AuditRecord where
  eventId : Str
  eventType : AuditEventType
  schemaVersion : U32
  ceremonyId : Str
  definitionName : Str
  definitionVersion : Str
  sequence : AuditSequence
  occurredAt : OffsetDateTime
  actor : AuditActor
  correlationId : Option Str
  causationId : Option Str
  traceId : Option Str
  previousRecordHash : Option AuditRecordHash
  recordHash : AuditRecordHash
deriving DecidableEq

/-- Everything a record states except its position and its digest. Of a trace,
a record keeps the identifier. -/
structure AuditFact where
  eventId : EventId
  eventType : AuditEventType
  ceremonyId : CeremonyId
  definitionName : CeremonyName
  definitionVersion : CeremonyVersion
  occurredAt : OffsetDateTime
  actor : AuditActor
  correlationId : Option EventId
  causationId : Option EventId
  trace : Option Str

/-- The hash function and the rendering of timestamps the records rest on. -/
structure Rendering where
  sha256 : List Byte → Digest
  rfc3339 : OffsetDateTime → Option Str

def canonicalScheme : List Byte := utf8 "underpass.choreo.audit-record.v1"

def auditRecordSchemaVersion : U32 := 1

def writeField (value : Str) : List Byte := lengthPrefixed (utf8 value.asStr)

def writeHash (hash : Digest) : List Byte := lengthPrefixed hash.bytes

/-- The bytes a record is hashed from, given its rendered timestamp: everything
it states, its own digest left out. -/
def canonical (r : AuditRecord) (occurredAt : Str) : List Byte :=
  canonicalScheme ++ beBytes 4 r.schemaVersion.val ++ writeField r.eventId ++
  lengthPrefixed (utf8 r.eventType.asStr) ++ writeField r.ceremonyId ++
  writeField r.definitionName ++ writeField r.definitionVersion ++
  beBytes 8 r.sequence.value.val ++ writeField occurredAt ++ writeField r.actor.actorId ++
  lengthPrefixed (utf8 r.actor.kind.asStr) ++ tagged writeField r.actor.roleId ++
  tagged writeField r.correlationId ++ tagged writeField r.causationId ++
  tagged writeField r.traceId ++ tagged writeHash r.previousRecordHash

variable (env : Rendering)

namespace AuditRecord

def computeHash (self : AuditRecord) : Except DomainError AuditRecordHash := do
  let occurredAt ← okOr (env.rfc3339 self.occurredAt)
    (.invariantViolated "audit record timestamp cannot be rendered canonically")
  pure (env.sha256 (canonical self occurredAt))

def unsealed : AuditRecordHash := ⟨List.replicate 32 0, List.length_replicate ..⟩

def sealAt (fact : AuditFact) (sequence : AuditSequence)
    (previousRecordHash : Option AuditRecordHash) : Except DomainError AuditRecord := do
  let record : AuditRecord :=
    { eventId := ofText fact.eventId, eventType := fact.eventType
      schemaVersion := auditRecordSchemaVersion, ceremonyId := ofText fact.ceremonyId
      definitionName := ofText fact.definitionName
      definitionVersion := ofText fact.definitionVersion, sequence
      occurredAt := fact.occurredAt, actor := fact.actor
      correlationId := fact.correlationId.map ofText, causationId := fact.causationId.map ofText
      traceId := fact.trace, previousRecordHash, recordHash := unsealed }
  let recordHash ← record.computeHash env
  pure { record with recordHash }

def first (fact : AuditFact) : Except DomainError AuditRecord :=
  sealAt env fact AuditSequence.first none

def following (fact : AuditFact) (previous : AuditRecord) : Except DomainError AuditRecord := do
  require (ofText fact.ceremonyId = previous.ceremonyId) (.invariantViolated
    "an audit record must belong to the same ceremony as its predecessor")
  sealAt env fact previous.sequence.next (some previous.recordHash)

def digestIsIntact (self : AuditRecord) : Except DomainError Bool := do
  let hash ← self.computeHash env
  pure (hash = self.recordHash)

end AuditRecord

inductive AuditChainDefect
  | doesNotStartAtTheBeginning (found : AuditSequence)
  | digestAltered (position : AuditSequence)
  | unexpectedRoot (position : AuditSequence)
  | sequenceBroken (expected found : AuditSequence)
  | linkBroken (position : AuditSequence)
  | foreignCeremony (position : AuditSequence)
deriving DecidableEq

inductive AuditChainVerdict
  | intact
  | broken (defect : AuditChainDefect)
deriving DecidableEq

namespace AuditChain

/-- A record whose digest cannot be recomputed counts as altered. -/
def digestDefect (record : AuditRecord) : Option AuditChainVerdict :=
  match record.digestIsIntact env with
  | .ok true => none
  | _ => some (.broken (.digestAltered record.sequence))

def verifyRest : AuditRecord → List AuditRecord → AuditChainVerdict
  | _, [] => .intact
  | previous, record :: rest =>
    if record.ceremonyId ≠ previous.ceremonyId then .broken (.foreignCeremony record.sequence)
    else if !record.sequence.follows previous.sequence then
      .broken (.sequenceBroken previous.sequence.next record.sequence)
    else
      match record.previousRecordHash with
      | none => .broken (.unexpectedRoot record.sequence)
      | some hash =>
        if hash ≠ previous.recordHash then .broken (.linkBroken record.sequence)
        else
          match digestDefect env record with
          | some verdict => verdict
          | none => verifyRest record rest

def verify : List AuditRecord → AuditChainVerdict
  | [] => .intact
  | first :: rest =>
    if !first.sequence.isFirst then .broken (.doesNotStartAtTheBeginning first.sequence)
    else if first.previousRecordHash.isSome then .broken (.unexpectedRoot first.sequence)
    else
      match digestDefect env first with
      | some verdict => verdict
      | none => verifyRest env first rest

end AuditChain

variable {env}

/-- The digest of a record is that of what it states. -/
def Honest (env : Rendering) (r : AuditRecord) : Prop :=
  ∃ t, env.rfc3339 r.occurredAt = some t ∧ env.sha256 (canonical r t) = r.recordHash

theorem computeHash_ok {r : AuditRecord} {hash : AuditRecordHash} :
    r.computeHash env = .ok hash ↔
      ∃ t, env.rfc3339 r.occurredAt = some t ∧ env.sha256 (canonical r t) = hash := by
  simp only [AuditRecord.computeHash, except_bind_eq_ok, okOr_eq_ok, pure, Except.pure,
    Except.ok.injEq]

theorem digestDefect_none {r : AuditRecord} :
    AuditChain.digestDefect env r = none ↔ Honest env r := by
  unfold AuditChain.digestDefect AuditRecord.digestIsIntact Honest
  rw [← computeHash_ok]
  cases hc : r.computeHash env with
  | error e => simp [bind, Except.bind]
  | ok hash =>
    by_cases hh : hash = r.recordHash <;> simp [bind, Except.bind, pure, Except.pure, hh]

theorem digestDefect_ne_intact {r : AuditRecord} :
    AuditChain.digestDefect env r ≠ some .intact := by
  unfold AuditChain.digestDefect
  split <;> simp

/-- A record that extends a journal whose last record so far is `last`. -/
structure Joins (env : Rendering) (last : Option AuditRecord) (r : AuditRecord) : Prop where
  honest : Honest env r
  linked : r.previousRecordHash = last.map AuditRecord.recordHash
  numbered : r.sequence = (last.map fun p => p.sequence.next).getD AuditSequence.first
  sameCeremony : ∀ p ∈ last, r.ceremonyId = p.ceremonyId

theorem follows_iff {s t : AuditSequence} : s.follows t = true ↔ s = t.next := by
  obtain ⟨s⟩ := s
  simp [AuditSequence.follows, AuditSequence.next]

theorem verifyRest_cons {previous r : AuditRecord} {rest : List AuditRecord} :
    AuditChain.verifyRest env previous (r :: rest) = .intact ↔
      Joins env (some previous) r ∧ AuditChain.verifyRest env r rest = .intact := by
  rw [AuditChain.verifyRest]
  constructor
  · intro h
    split_ifs at h with hc hf
    split at h
    · simp at h
    · next hash hp =>
      split_ifs at h with hl
      split at h
      · next verdict hv =>
        subst h
        exact absurd hv digestDefect_ne_intact
      · next hd =>
        refine ⟨⟨digestDefect_none.mp hd, ?_, ?_, ?_⟩, h⟩
        · rw [hp, not_not.mp hl]
          rfl
        · exact follows_iff.mp (by simpa using hf)
        · intro p hm
          cases hm
          exact not_not.mp hc
  · rintro ⟨hj, h⟩
    have hp : r.previousRecordHash = some previous.recordHash := hj.linked
    have hf : r.sequence.follows previous.sequence = true := follows_iff.mpr hj.numbered
    simp [hj.sameCeremony previous rfl, hf, hp, digestDefect_none.mpr hj.honest, h]

theorem verifyRest_concat {previous r : AuditRecord} {l : List AuditRecord} :
    AuditChain.verifyRest env previous (l ++ [r]) = .intact ↔
      AuditChain.verifyRest env previous l = .intact ∧ Joins env (some (l.getLastD previous)) r := by
  induction l generalizing previous with
  | nil =>
    rw [List.nil_append, verifyRest_cons]
    simp [AuditChain.verifyRest]
  | cons p l ih =>
    rw [List.cons_append, verifyRest_cons, ih, verifyRest_cons, and_assoc, List.getLastD_cons]

theorem verify_singleton {r : AuditRecord} :
    AuditChain.verify env [r] = .intact ↔ Joins env none r := by
  constructor
  · intro h
    simp only [AuditChain.verify] at h
    split_ifs at h with hs hp
    split at h
    · next verdict hv =>
      subst h
      exact absurd hv digestDefect_ne_intact
    · next hd =>
      exact ⟨digestDefect_none.mp hd, by simpa using hp,
        by simpa [AuditSequence.isFirst] using hs, by simp⟩
  · intro hj
    have hs : r.sequence = AuditSequence.first := hj.numbered
    have hp : r.previousRecordHash = none := hj.linked
    simp [AuditChain.verify, AuditSequence.isFirst, hs, hp, digestDefect_none.mpr hj.honest,
      AuditChain.verifyRest]

theorem verify_cons {first : AuditRecord} {rest : List AuditRecord} :
    AuditChain.verify env (first :: rest) = .intact ↔
      AuditChain.verify env [first] = .intact ∧
        AuditChain.verifyRest env first rest = .intact := by
  simp only [AuditChain.verify]
  split_ifs
  · simp
  · simp
  · split
    · next verdict hv =>
      have hne : verdict ≠ .intact := fun he => digestDefect_ne_intact (he ▸ hv)
      simp [hne]
    · simp [AuditChain.verifyRest]

/-- A journal is intact when what came before its last record is and the last
record joins it. -/
theorem verify_concat {l : List AuditRecord} {r : AuditRecord} :
    AuditChain.verify env (l ++ [r]) = .intact ↔
      AuditChain.verify env l = .intact ∧ Joins env l.getLast? r := by
  cases l with
  | nil => simpa [AuditChain.verify] using verify_singleton
  | cons first l =>
    rw [List.cons_append, verify_cons, verifyRest_concat, ← and_assoc, ← verify_cons]
    rw [show (first :: l).getLast? = some (l.getLastD first) by
      rw [List.getLast?_cons, List.getLastD_eq_getLast?]]

end Choreographer.Audit
