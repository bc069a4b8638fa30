import Choreographer.Audit
import Choreographer.Instance

namespace Choreographer.InMemory

open Choreographer.Lib.SortedMaps Choreographer.Lib.Updates
open Choreographer.Texts Choreographer.Values Choreographer.Audit Choreographer.Instance

/-- How many times a ceremony instance has been committed. -/
structure CeremonyRevision where
  value : U64
  positive : 0 < value.val
deriving DecidableEq

namespace CeremonyRevision

@[ext] theorem ext_val {r s : CeremonyRevision} (h : r.value.val = s.value.val) : r = s := by
  obtain ⟨r, hr⟩ := r
  obtain ⟨s, hs⟩ := s
  have h : r = s := Fin.ext h
  subst h
  rfl

def initial : CeremonyRevision := ⟨1, by decide⟩

def next (self : CeremonyRevision) : CeremonyRevision :=
  ⟨saturatingSucc self.value, by
    have := self.positive
    simp only [saturatingSucc_val]
    omega⟩

@[simp] theorem next_val (r : CeremonyRevision) :
    r.next.value.val = min (r.value.val + 1) (2 ^ 64 - 1) := rfl

end CeremonyRevision

inductive ExpectedRevision
  | new
  | exactly (revision : CeremonyRevision)
deriving DecidableEq

namespace ExpectedRevision

def agrees : ExpectedRevision → Option CeremonyRevision → Bool
  | .new, none => true
  | .exactly expected, some stored => expected = stored
  | _, _ => false

def resultingRevision : ExpectedRevision → CeremonyRevision
  | .new => CeremonyRevision.initial
  | .exactly stored => stored.next

theorem agrees_iff {e : ExpectedRevision} {stored : Option CeremonyRevision} :
    e.agrees stored = true ↔ (e = .new ∧ stored = none) ∨
      ∃ r, e = .exactly r ∧ stored = some r := by
  cases e <;> cases stored <;> simp [agrees, eq_comm]

end ExpectedRevision

/-- A message that is enqueued with the state it reports. It has something to say. -/
structure OutboxMessage where
  eventId : EventId
  subject : OutboxSubject
  payload : Value
  enqueuedAt : OffsetDateTime
  notNull : payload.isNull = false

def OutboxMessage.new (eventId : EventId) (subject : OutboxSubject) (payload : Value)
    (enqueuedAt : OffsetDateTime) : Except DomainError OutboxMessage :=
  if h : payload.isNull = true then .error (.emptyField "outbox_message.payload")
  else .ok ⟨eventId, subject, payload, enqueuedAt, Bool.eq_false_iff.mpr h⟩

structure OutboxAttempt where
  value : U32
deriving DecidableEq

def OutboxAttempt.none : OutboxAttempt := ⟨0⟩

def OutboxAttempt.next (self : OutboxAttempt) : OutboxAttempt := ⟨saturatingSucc self.value⟩

structure ClaimedOutboxMessage where
  message : OutboxMessage
  attempt : OutboxAttempt

/-- A committed message and what the store knows about getting it out. -/
structure StoredOutboxMessage where
  message : OutboxMessage
  attempt : OutboxAttempt
  claimedUntil : Option OffsetDateTime
  delivered : Bool
  quarantine : Option OutboxQuarantineReason

namespace StoredOutboxMessage

def enqueued (message : OutboxMessage) : StoredOutboxMessage :=
  ⟨message, OutboxAttempt.none, none, false, none⟩

def isClaimable (self : StoredOutboxMessage) (now : OffsetDateTime) : Bool :=
  !self.delivered && self.quarantine.isNone && self.claimedUntil.all fun t => t ≤ now

def claimed (self : StoredOutboxMessage) : ClaimedOutboxMessage := ⟨self.message, self.attempt⟩

def leased (lease : OffsetDateTime) (self : StoredOutboxMessage) : StoredOutboxMessage :=
  { self with claimedUntil := some lease }

def markDelivered (eventIds : List EventId) (self : StoredOutboxMessage) :
    StoredOutboxMessage × Bool :=
  if self.message.eventId ∈ eventIds then
    ({ self with delivered := true, claimedUntil := none }, true)
  else (self, false)

def markFailed (eventId : EventId) (self : StoredOutboxMessage) : StoredOutboxMessage × Bool :=
  if self.message.eventId = eventId then
    ({ self with attempt := self.attempt.next, claimedUntil := none }, true)
  else (self, false)

def quarantined (eventId : EventId) (reason : OutboxQuarantineReason)
    (self : StoredOutboxMessage) : StoredOutboxMessage × Bool :=
  if self.message.eventId = eventId then
    ({ self with quarantine := some reason, claimedUntil := none }, true)
  else (self, false)

end StoredOutboxMessage

/-- Everything one step of a ceremony changes. It cannot carry facts of another. -/
structure CeremonyCommit where
  session : CeremonyInstance
  expectedRevision : ExpectedRevision
  facts : List AuditFact
  messages : List OutboxMessage
  ownFacts : (facts.any fun fact => fact.ceremonyId ≠ session.id) = false

def CeremonyCommit.new (session : CeremonyInstance) (expectedRevision : ExpectedRevision)
    (facts : List AuditFact) (messages : List OutboxMessage) : Except DomainError CeremonyCommit :=
  if h : (facts.any fun fact => fact.ceremonyId ≠ session.id) = false then
    .ok ⟨session, expectedRevision, facts, messages, h⟩
  else .error (.invariantViolated "a commit cannot carry audit facts from another ceremony")

inductive CommitOutcome
  | committed (revision : CeremonyRevision) (records : List AuditRecord)
  | conflict (expected : ExpectedRevision) (stored : Option CeremonyRevision)

structure StoredCeremony where
  revision : Option CeremonyRevision
  session : Option CeremonyInstance
  journal : List AuditRecord
  outbox : List StoredOutboxMessage

def StoredCeremony.default : StoredCeremony := ⟨none, none, [], []⟩

variable (env : Rendering)

/-- The record a fact becomes behind the head of a journal. -/
def sealBehind (head : Option AuditRecord) (fact : AuditFact) : Except DomainError AuditRecord :=
  match head with
  | some previous => AuditRecord.following env fact previous
  | none => AuditRecord.first env fact

/-- Seal facts one behind the other: the records sealed before the first refusal,
and whether there was one. -/
def sealFacts : Option AuditRecord → List AuditFact → List AuditRecord × Except DomainError Unit
  | _, [] => ([], .ok ())
  | head, fact :: rest =>
    match sealBehind env head fact with
    | .error e => ([], .error e)
    | .ok record =>
      let sealed := sealFacts (some record) rest
      (record :: sealed.1, sealed.2)

abbrev InMemoryCeremonyStore := OrdMap CeremonyId StoredCeremony

namespace InMemoryCeremonyStore

def stored (self : InMemoryCeremonyStore) (id : CeremonyId) : StoredCeremony :=
  (OrdMap.get? self id).getD StoredCeremony.default

def commit (commit : CeremonyCommit) (self : InMemoryCeremonyStore) :
    Except DomainError CommitOutcome × InMemoryCeremonyStore :=
  let id := commit.session.id
  let stored := self.stored id
  let self := OrdMap.insert id stored self
  if !commit.expectedRevision.agrees stored.revision then
    (.ok (.conflict commit.expectedRevision stored.revision), self)
  else
    match sealFacts env stored.journal.getLast? commit.facts with
    | (_, .error e) => (.error e, self)
    | (sealed, .ok ()) =>
      let revision := commit.expectedRevision.resultingRevision
      (.ok (.committed revision sealed), OrdMap.insert id
        { revision := some revision
          session := some commit.session
          journal := stored.journal ++ sealed
          outbox := stored.outbox ++ commit.messages.map StoredOutboxMessage.enqueued } self)

def revision (id : CeremonyId) (self : InMemoryCeremonyStore) : Option CeremonyRevision :=
  (self.stored id).revision

def append (fact : AuditFact) (self : InMemoryCeremonyStore) :
    Except DomainError AuditRecord × InMemoryCeremonyStore :=
  let stored := self.stored fact.ceremonyId
  let self := OrdMap.insert fact.ceremonyId stored self
  match sealBehind env stored.journal.getLast? fact with
  | .error e => (.error e, self)
  | .ok record => (.ok record, OrdMap.insert fact.ceremonyId
      { stored with journal := stored.journal ++ [record] } self)

def records (id : CeremonyId) (self : InMemoryCeremonyStore) : List AuditRecord :=
  (self.stored id).journal

def head (id : CeremonyId) (self : InMemoryCeremonyStore) : Option AuditRecord :=
  (self.stored id).journal.getLast?

def save (session : CeremonyInstance) (self : InMemoryCeremonyStore) : InMemoryCeremonyStore :=
  let stored := self.stored session.id
  OrdMap.insert session.id { stored with
    revision := some ((stored.revision.map CeremonyRevision.next).getD CeremonyRevision.initial)
    session := some session } self

def get (id : CeremonyId) (self : InMemoryCeremonyStore) : Except DomainError CeremonyInstance :=
  okOr (self.stored id).session (.notFound "ceremony_instance")

def list (self : InMemoryCeremonyStore) : List CeremonyInstance :=
  self.values.filterMap StoredCeremony.session

/-- The port calls this `exists`. -/
def doesExist (id : CeremonyId) (self : InMemoryCeremonyStore) : Bool :=
  (self.stored id).session.isSome

/-- Hand out the first undelivered message of a queue, if it can be claimed. -/
def claimHead (now leaseUntil : OffsetDateTime) :
    List StoredOutboxMessage → Option ClaimedOutboxMessage × List StoredOutboxMessage
  | [] => (none, [])
  | entry :: rest =>
    if entry.delivered then
      let (claimed, rest) := claimHead now leaseUntil rest
      (claimed, entry :: rest)
    else if entry.isClaimable now then (some entry.claimed, entry.leased leaseUntil :: rest)
    else (none, entry :: rest)

/-- One message from the queue of a ceremony, unless there are enough already. -/
def claimFrom (limit : Nat) (now leaseUntil : OffsetDateTime)
    (claimed : List ClaimedOutboxMessage) (stored : StoredCeremony) :
    List ClaimedOutboxMessage × StoredCeremony :=
  if claimed.length ≥ limit then (claimed, stored)
  else
    let (message, outbox) := claimHead now leaseUntil stored.outbox
    (claimed ++ message.toList, { stored with outbox })

def claim (limit : Nat) (now : OffsetDateTime) (lease : DurationMs)
    (self : InMemoryCeremonyStore) : List ClaimedOutboxMessage × InMemoryCeremonyStore :=
  let leaseUntil := now.plus lease
  OrdMap.scan (claimFrom limit now leaseUntil) [] self

def updateMessages (change : StoredOutboxMessage → StoredOutboxMessage × Bool)
    (self : InMemoryCeremonyStore) : InMemoryCeremonyStore :=
  self.mapValues fun stored => { stored with outbox := stored.outbox.map fun e => (change e).1 }

def markDelivered (eventIds : List EventId) (self : InMemoryCeremonyStore) :
    InMemoryCeremonyStore := self.updateMessages (StoredOutboxMessage.markDelivered eventIds)

def markFailed (eventId : EventId) (self : InMemoryCeremonyStore) : InMemoryCeremonyStore :=
  self.updateMessages (StoredOutboxMessage.markFailed eventId)

def quarantine (eventId : EventId) (reason : OutboxQuarantineReason)
    (self : InMemoryCeremonyStore) : InMemoryCeremonyStore :=
  self.updateMessages (StoredOutboxMessage.quarantined eventId reason)

def quarantined (self : InMemoryCeremonyStore) : List ClaimedOutboxMessage :=
  ((self.values.flatMap StoredCeremony.outbox).filter fun e => e.quarantine.isSome).map
    StoredOutboxMessage.claimed

variable {env : Rendering} {m : InMemoryCeremonyStore}

theorem stored_insert (id jd : CeremonyId) (s : StoredCeremony) :
    stored (OrdMap.insert id s m) jd = if jd = id then s else m.stored jd := by
  unfold stored
  rw [OrdMap.get?_insert]
  split <;> rfl

theorem stored_touch (id jd : CeremonyId) :
    stored (OrdMap.insert id (m.stored id) m) jd = m.stored jd := by
  rw [stored_insert]
  split
  · next h => rw [h]
  · rfl

def landed (stored : StoredCeremony) (commit : CeremonyCommit) (sealed : List AuditRecord) :
    StoredCeremony where
  revision := some commit.expectedRevision.resultingRevision
  session := some commit.session
  journal := stored.journal ++ sealed
  outbox := stored.outbox ++ commit.messages.map StoredOutboxMessage.enqueued

theorem commit_conflict {c : CeremonyCommit}
    (h : c.expectedRevision.agrees (m.stored c.session.id).revision = false) :
    m.commit env c = (.ok (.conflict c.expectedRevision (m.stored c.session.id).revision),
      OrdMap.insert c.session.id (m.stored c.session.id) m) := by
  simp [commit, h]

theorem commit_refused {c : CeremonyCommit} {sealed : List AuditRecord} {e : DomainError}
    (h : c.expectedRevision.agrees (m.stored c.session.id).revision = true)
    (hs : sealFacts env (m.stored c.session.id).journal.getLast? c.facts = (sealed, .error e)) :
    m.commit env c = (.error e, OrdMap.insert c.session.id (m.stored c.session.id) m) := by
  simp [commit, h, hs]

theorem commit_landed {c : CeremonyCommit} {sealed : List AuditRecord}
    (h : c.expectedRevision.agrees (m.stored c.session.id).revision = true)
    (hs : sealFacts env (m.stored c.session.id).journal.getLast? c.facts = (sealed, .ok ())) :
    m.commit env c = (.ok (.committed c.expectedRevision.resultingRevision sealed),
      OrdMap.insert c.session.id (landed (m.stored c.session.id) c sealed) m) := by
  simp [commit, h, hs, OrdMap.insert_insert, landed]

end InMemoryCeremonyStore

section Sealing

/-- A record that says what a fact says. -/
structure SealOf (fact : AuditFact) (record : AuditRecord) : Prop where
  eventId : record.eventId = ofText fact.eventId
  eventType : record.eventType = fact.eventType
  ceremonyId : record.ceremonyId = ofText fact.ceremonyId

variable {env : Rendering} {head : Option AuditRecord}

theorem sealAt_eq_ok {fact : AuditFact} {sequence : AuditSequence}
    {previousRecordHash : Option AuditRecordHash} {record : AuditRecord}
    (h : AuditRecord.sealAt env fact sequence previousRecordHash = .ok record) :
    SealOf fact record ∧ Honest env record ∧ record.sequence = sequence ∧
      record.previousRecordHash = previousRecordHash := by
  simp only [AuditRecord.sealAt, except_bind_eq_ok] at h
  obtain ⟨hash, hhash, h⟩ := h
  obtain rfl := Except.ok.inj h
  exact ⟨⟨rfl, rfl, rfl⟩, computeHash_ok.mp hhash, rfl, rfl⟩

theorem sealBehind_eq_ok {fact : AuditFact} {record : AuditRecord}
    (h : sealBehind env head fact = .ok record) : SealOf fact record ∧ Joins env head record := by
  cases head with
  | none =>
    obtain ⟨hfact, hhonest, hseq, hprev⟩ := sealAt_eq_ok h
    exact ⟨hfact, hhonest, hprev, hseq, by simp⟩
  | some previous =>
    simp only [sealBehind, AuditRecord.following, except_bind_eq_ok, require_eq_ok,
      decide_eq_true_eq] at h
    obtain ⟨-, hsame, h⟩ := h
    obtain ⟨hfact, hhonest, hseq, hprev⟩ := sealAt_eq_ok h
    refine ⟨hfact, hhonest, hprev, hseq, fun p hp => ?_⟩
    obtain rfl := Option.some.inj hp
    exact hfact.ceremonyId.trans hsame

theorem sealFacts_sealOf {facts : List AuditFact} {sealed : List AuditRecord}
    (h : sealFacts env head facts = (sealed, .ok ())) : List.Forall₂ SealOf facts sealed := by
  induction facts generalizing head sealed with
  | nil =>
    obtain ⟨rfl, -⟩ := Prod.mk.inj h
    exact .nil
  | cons fact rest ih =>
    unfold sealFacts at h
    split at h
    · simp at h
    · next record hrecord =>
      obtain ⟨rfl, hrest⟩ := Prod.mk.inj h
      exact .cons (sealBehind_eq_ok hrecord).1 (ih (Prod.ext rfl hrest))

theorem verify_sealed {journal sealed : List AuditRecord} {facts : List AuditFact}
    (hv : AuditChain.verify env journal = .intact)
    (h : sealFacts env journal.getLast? facts = (sealed, .ok ())) :
    AuditChain.verify env (journal ++ sealed) = .intact := by
  induction facts generalizing journal sealed with
  | nil =>
    obtain ⟨rfl, -⟩ := Prod.mk.inj h
    simpa using hv
  | cons fact rest ih =>
    unfold sealFacts at h
    split at h
    · simp at h
    · next record hrecord =>
      obtain ⟨rfl, hrest⟩ := Prod.mk.inj h
      have hone : AuditChain.verify env (journal ++ [record]) = .intact :=
        verify_concat.mpr ⟨hv, (sealBehind_eq_ok hrecord).2⟩
      rw [List.append_cons]
      exact ih hone (Prod.ext (by simp) (by simpa using hrest))

end Sealing

end Choreographer.InMemory
