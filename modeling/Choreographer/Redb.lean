import Choreographer.InMemory

namespace Choreographer.Redb

open Choreographer.Lib.ByteStrings Choreographer.Lib.SortedMaps Choreographer.Lib.Updates
open Choreographer.Texts Choreographer.Values Choreographer.Audit Choreographer.Instance
open Choreographer.InMemory

abbrev Table := OrdMap (List Byte) (List Byte)

def rangeOf (table : Table) (bounds : List Byte × List Byte) : List (List Byte × List Byte) :=
  table.entries.filter fun entry => decide (bounds.1 ≤ entry.1) && decide (entry.1 ≤ bounds.2)

structure Codec (α : Type) where
  encode : α → Option (List Byte)
  decode : List Byte → Option α

/-- A ceremony's stored state and the revision that guards it. -/
structure CeremonyRow where
  revision : CeremonyRevision
  session : CeremonyInstance

/-- The JSON forms of what the store holds. -/
structure Codecs where
  ceremony : Codec CeremonyRow
  record : Codec AuditRecord
  message : Codec StoredOutboxMessage

structure RedbCeremonyStore where
  ceremonies : Table
  journal : Table
  outbox : Table

def RedbCeremonyStore.empty : RedbCeremonyStore := ⟨OrdMap.empty, OrdMap.empty, OrdMap.empty⟩

def encodingFailure : DomainError :=
  .invariantViolated "redb: stored record could not be encoded or decoded"

def encode {α : Type} (codec : Codec α) (value : α) : Except DomainError (List Byte) :=
  okOr (codec.encode value) encodingFailure

def decode {α : Type} (codec : Codec α) (bytes : List Byte) : Except DomainError α :=
  okOr (codec.decode bytes) encodingFailure

def separator : Byte := 0

def ordinalBytes : Nat := 8

def scopedKey (id : CeremonyId) (ordinal : Nat) : List Byte :=
  utf8 id.asStr ++ separator :: beBytes ordinalBytes ordinal

def scopeRange (id : CeremonyId) : List Byte × List Byte := (scopedKey id 0, scopedKey id (2 ^ 64 - 1))

/-- The ceremony a scoped key belongs to. The ordinal has a fixed width, and may
hold the separator, so the key is cut by length. -/
def ceremonyOf (key : List Byte) : Option (List Byte) :=
  if ordinalBytes + 1 ≤ key.length then some (key.take (key.length - (ordinalBytes + 1))) else none

variable (env : Rendering) (codecs : Codecs)

def journalOf (table : Table) (id : CeremonyId) : Except DomainError (List AuditRecord) :=
  (rangeOf table (scopeRange id)).mapM fun entry => decode codecs.record entry.2

def readOutbox (table : Table) : Except DomainError (List (List Byte × StoredOutboxMessage)) :=
  table.entries.mapM fun entry => do
    let stored ← decode codecs.message entry.2
    pure (entry.1, stored)

namespace RedbCeremonyStore

/-- A write transaction: it lands whole, or not at all. -/
def write {α : Type} (body : Update DomainError RedbCeremonyStore α) (self : RedbCeremonyStore) :
    Except DomainError α × RedbCeremonyStore :=
  match body.on self with
  | (.ok a, changed) => (.ok a, changed)
  | (.error e, _) => (.error e, self)

def row (id : CeremonyId) (self : RedbCeremonyStore) : Except DomainError (Option CeremonyRow) :=
  match self.ceremonies.get? (utf8 id.asStr) with
  | none => .ok none
  | some bytes => do
    let row ← decode codecs.ceremony bytes
    pure (some row)

def putRow (row : CeremonyRow) : Update DomainError RedbCeremonyStore Unit := do
  let bytes ← check fun _ => encode codecs.ceremony row
  modify fun self => { self with
    ceremonies := self.ceremonies.insert (utf8 row.session.id.asStr) bytes }

def putRecord (id : CeremonyId) (record : AuditRecord) :
    Update DomainError RedbCeremonyStore Unit := do
  let bytes ← check fun _ => encode codecs.record record
  modify fun self => { self with
    journal := self.journal.insert (scopedKey id record.sequence.value.val) bytes }

def putMessage (key : List Byte) (message : StoredOutboxMessage) :
    Update DomainError RedbCeremonyStore Unit := do
  let bytes ← check fun _ => encode codecs.message message
  modify fun self => { self with outbox := self.outbox.insert key bytes }

/-- Seal facts one behind the other, writing each record as it is sealed. -/
def putFacts (id : CeremonyId) : Option AuditRecord → List AuditFact →
    Update DomainError RedbCeremonyStore (List AuditRecord)
  | _, [] => pure []
  | head, fact :: rest => do
    let record ← check fun _ => sealBehind env head fact
    putRecord codecs id record
    let sealed ← putFacts id (some record) rest
    pure (record :: sealed)

def enqueue (id : CeremonyId) : Nat → List OutboxMessage → Update DomainError RedbCeremonyStore Unit
  | _, [] => pure ()
  | ordinal, message :: rest => do
    putMessage codecs (scopedKey id ordinal) (StoredOutboxMessage.enqueued message)
    enqueue id (ordinal + 1) rest

def commit (commit : CeremonyCommit) : RedbCeremonyStore →
    Except DomainError CommitOutcome × RedbCeremonyStore :=
  write do
    let id := commit.session.id
    let stored ← check fun self => self.row codecs id
    let storedRevision := stored.map CeremonyRow.revision
    if commit.expectedRevision.agrees storedRevision then
      let journal ← check fun self => journalOf codecs self.journal id
      let sealed ← putFacts env codecs id journal.getLast? commit.facts
      let self ← get
      let enqueued := (rangeOf self.outbox (scopeRange id)).length
      enqueue codecs id enqueued commit.messages
      let revision := commit.expectedRevision.resultingRevision
      putRow codecs ⟨revision, commit.session⟩
      pure (.committed revision sealed)
    else
      pure (.conflict commit.expectedRevision storedRevision)

def revision (id : CeremonyId) (self : RedbCeremonyStore) :
    Except DomainError (Option CeremonyRevision) := do
  let stored ← self.row codecs id
  pure (stored.map CeremonyRow.revision)

def append (fact : AuditFact) : RedbCeremonyStore →
    Except DomainError AuditRecord × RedbCeremonyStore :=
  write do
    let journal ← check fun self => journalOf codecs self.journal fact.ceremonyId
    let record ← check fun _ => sealBehind env journal.getLast? fact
    putRecord codecs fact.ceremonyId record
    pure record

def records (id : CeremonyId) (self : RedbCeremonyStore) : Except DomainError (List AuditRecord) :=
  journalOf codecs self.journal id

def head (id : CeremonyId) (self : RedbCeremonyStore) : Except DomainError (Option AuditRecord) := do
  let records ← self.records codecs id
  pure records.getLast?

/-- The first undelivered entry of each ceremony decides for its queue: it is
taken if it can be claimed and there is room, and nothing behind it is. -/
def takeHeads (limit : Nat) (now : OffsetDateTime) :
    List (List Byte × StoredOutboxMessage) → List (List Byte × StoredOutboxMessage) →
    Option (List Byte) → List (List Byte × StoredOutboxMessage)
  | [], taken, _ => taken
  | (key, stored) :: rest, taken, decided =>
    let ceremony := (ceremonyOf key).getD []
    if decided = some ceremony then takeHeads limit now rest taken decided
    else if stored.delivered then takeHeads limit now rest taken decided
    else if !stored.isClaimable now || decide (taken.length ≥ limit) then
      takeHeads limit now rest taken (some ceremony)
    else takeHeads limit now rest (taken ++ [(key, stored)]) (some ceremony)

def recordClaims (leaseUntil : OffsetDateTime) : List (List Byte × StoredOutboxMessage) →
    Update DomainError RedbCeremonyStore (List ClaimedOutboxMessage)
  | [] => pure []
  | (key, stored) :: rest => do
    putMessage codecs key (stored.leased leaseUntil)
    let claimed ← recordClaims leaseUntil rest
    pure (stored.claimed :: claimed)

def claim (limit : Nat) (now : OffsetDateTime) (lease : DurationMs) : RedbCeremonyStore →
    Except DomainError (List ClaimedOutboxMessage) × RedbCeremonyStore :=
  write do
    let leaseUntil := now.plus lease
    let entries ← check fun self => readOutbox codecs self.outbox
    recordClaims codecs leaseUntil (takeHeads limit now entries [] none)

def putAll : List (List Byte × StoredOutboxMessage) → Update DomainError RedbCeremonyStore Unit
  | [] => pure ()
  | (key, stored) :: rest => do
    putMessage codecs key stored
    putAll rest

/-- Apply `change` to every stored message and write back those it accepts. -/
def updateMessages (change : StoredOutboxMessage → StoredOutboxMessage × Bool) :
    RedbCeremonyStore → Except DomainError Unit × RedbCeremonyStore :=
  write do
    let entries ← check fun self => readOutbox codecs self.outbox
    putAll codecs (entries.filterMap fun entry =>
      if (change entry.2).2 then some (entry.1, (change entry.2).1) else none)

def markDelivered (eventIds : List EventId) : RedbCeremonyStore →
    Except DomainError Unit × RedbCeremonyStore :=
  updateMessages codecs (StoredOutboxMessage.markDelivered eventIds)

def markFailed (eventId : EventId) : RedbCeremonyStore →
    Except DomainError Unit × RedbCeremonyStore :=
  updateMessages codecs (StoredOutboxMessage.markFailed eventId)

def quarantine (eventId : EventId) (reason : OutboxQuarantineReason) : RedbCeremonyStore →
    Except DomainError Unit × RedbCeremonyStore :=
  updateMessages codecs (StoredOutboxMessage.quarantined eventId reason)

def quarantined (self : RedbCeremonyStore) : Except DomainError (List ClaimedOutboxMessage) := do
  let entries ← readOutbox codecs self.outbox
  pure ((entries.filter fun entry => entry.2.quarantine.isSome).map fun entry => entry.2.claimed)

def save (session : CeremonyInstance) : RedbCeremonyStore →
    Except DomainError Unit × RedbCeremonyStore :=
  write do
    let stored ← check fun self => self.row codecs session.id
    let revision := (stored.map fun row => row.revision.next).getD CeremonyRevision.initial
    putRow codecs ⟨revision, session⟩

def get (id : CeremonyId) (self : RedbCeremonyStore) : Except DomainError CeremonyInstance := do
  let stored ← self.row codecs id
  okOr (stored.map CeremonyRow.session) (.notFound "ceremony_instance")

def list (self : RedbCeremonyStore) : Except DomainError (List CeremonyInstance) :=
  self.ceremonies.entries.mapM fun entry => do
    let row ← decode codecs.ceremony entry.2
    pure row.session

/-- The port calls this `exists`. -/
def doesExist (id : CeremonyId) (self : RedbCeremonyStore) : Except DomainError Bool := do
  let stored ← self.row codecs id
  pure stored.isSome

end RedbCeremonyStore

end Choreographer.Redb
