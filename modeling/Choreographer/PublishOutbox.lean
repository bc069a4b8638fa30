import Choreographer.Lib.Programs
import Choreographer.OutboxClaims

namespace Choreographer.PublishOutbox

open Choreographer.Lib.SortedMaps Choreographer.Lib.Programs
open Choreographer.Texts Choreographer.Values Choreographer.Instance Choreographer.Audit
open Choreographer.InMemory Choreographer.OutboxClaims

/-- How much a round takes on, and when it gives up on a message. -/
structure PublishOutboxInput where
  batchSize : Nat
  maxAttempts : U32
  lease : DurationMs
  batchSize_ne : batchSize ≠ 0
  maxAttempts_ne : maxAttempts ≠ 0
  lease_ne : lease.get ≠ 0

def PublishOutboxInput.new (batchSize : Nat) (maxAttempts : U32) (lease : DurationMs) :
    Except DomainError PublishOutboxInput :=
  if hb : batchSize = 0 then .error (.mustBeNonZero "publish_outbox.batch_size")
  else if hm : maxAttempts = 0 then .error (.mustBeNonZero "publish_outbox.max_attempts")
  else if hl : lease.get = 0 then .error (.mustBeNonZero "publish_outbox.lease")
  else .ok ⟨batchSize, maxAttempts, lease, hb, hm, hl⟩

def isExhausted (self : OutboxAttempt) (maxAttempts : U32) : Bool := self.value ≥ maxAttempts

/-- What one publishing round did. -/
structure PublishOutboxRound where
  delivered : Nat
  failed : Nat
  quarantined : Nat

namespace PublishOutboxRound

def default : PublishOutboxRound := ⟨0, 0, 0⟩

def recordDelivered (self : PublishOutboxRound) : PublishOutboxRound :=
  { self with delivered := self.delivered + 1 }

def recordFailed (self : PublishOutboxRound) : PublishOutboxRound :=
  { self with failed := self.failed + 1 }

def recordQuarantined (self : PublishOutboxRound) : PublishOutboxRound :=
  { self with quarantined := self.quarantined + 1 }

end PublishOutboxRound

/-- The calls of a publisher. For the record only, what follows a claim carries
the number of that claim, and a quarantine the limit that was reached. -/
inductive Call
  | now
  | claim (limit : Nat) (now : OffsetDateTime) (lease : DurationMs)
  | deliver (message : OutboxMessage) (claim : Nat)
  | markFailed (eventId : EventId) (claim : Nat)
  | markDelivered (eventIds : List EventId) (claim : Nat)
  | quarantine (eventId : EventId) (reason : OutboxQuarantineReason) (claim : Nat)
      (maxAttempts : U32)

def Call.Answer : Call → Type
  | .now => OffsetDateTime
  | .claim _ _ _ => Except DomainError (Nat × List ClaimedOutboxMessage)
  | .deliver _ _ => Except DomainError Unit
  | .markFailed _ _ => Except DomainError Unit
  | .markDelivered _ _ => Except DomainError Unit
  | .quarantine _ _ _ _ => Except DomainError Unit

def calls : Interface := ⟨Call, Call.Answer⟩

abbrev Publisher := ExceptT DomainError (Prog calls)

def ask (c : Call) : Publisher c.Answer := ExceptT.lift (Prog.call (I := calls) c)

/-- Exhaustion is recorded with its cause. -/
def quarantine (claim : Nat) (message : ClaimedOutboxMessage) (maxAttempts : U32) :
    Publisher Unit := do
  let reason ← ExceptT.mk (Prog.done (Text.new ("delivery failed " ++
    message.attempt.value.val.repr ++ " times, at or above the limit of " ++
    maxAttempts.val.repr)))
  ExceptT.mk (Prog.call (I := calls) (.quarantine message.message.eventId reason claim maxAttempts))

def markDelivered (claim : Nat) (delivered : List EventId) : Publisher Unit :=
  if delivered.isEmpty then pure ()
  else ExceptT.mk (Prog.call (I := calls) (.markDelivered delivered claim))

def deliverAll (input : PublishOutboxInput) (claim : Nat) :
    List ClaimedOutboxMessage → List EventId → PublishOutboxRound →
      Publisher (List EventId × PublishOutboxRound)
  | [], delivered, round => pure (delivered, round)
  | message :: rest, delivered, round => do
    if isExhausted message.attempt input.maxAttempts then
      quarantine claim message input.maxAttempts
      deliverAll input claim rest delivered round.recordQuarantined
    else
      let outcome ← ask (.deliver message.message claim)
      match outcome with
      | .ok _ =>
        deliverAll input claim rest (delivered ++ [message.message.eventId]) round.recordDelivered
      | .error _ =>
        ExceptT.mk (Prog.call (I := calls) (.markFailed message.message.eventId claim))
        deliverAll input claim rest delivered round.recordFailed

/-- One round: messages are marked delivered only after the transport confirmed. -/
def publishOutbox (input : PublishOutboxInput) : Publisher PublishOutboxRound := do
  let now ← ask .now
  let (claim, claimed) ← ExceptT.mk (Prog.call (I := calls) (.claim input.batchSize now input.lease))
  let (delivered, round) ← deliverAll input claim claimed [] PublishOutboxRound.default
  markDelivered claim delivered
  pure round

/-- What a publisher did, or the transport told it. With what a claim answered stand the
places in their queues that the messages lie at, by which two of them are told apart. -/
inductive Deed
  | claimed (answer : List ClaimedOutboxMessage) (places : List (CeremonyId × Nat))
      (leaseUntil : OffsetDateTime)
  | confirmed (message : OutboxMessage)
  | refused (message : OutboxMessage)
  | failed (eventId : EventId)
  | delivered (eventIds : List EventId)
  | quarantined (eventId : EventId) (maxAttempts : U32)

def Deed.told (message : OutboxMessage) : Except DomainError Unit → Deed
  | .ok _ => .confirmed message
  | .error _ => .refused message

/-- A deed, the claim it belongs to, and the latest time anybody had read by then. -/
structure Event where
  claim : Nat
  time : OffsetDateTime
  deed : Deed

/-- A store, the last reading of the clock, and all that publishers did so far. -/
structure World where
  store : InMemoryCeremonyStore
  clock : OffsetDateTime
  log : List Event

namespace World

def empty : World := ⟨OrdMap.empty, ⟨0, 0⟩, []⟩

def recorded (w : World) (claim : Nat) (deed : Deed) (store : InMemoryCeremonyStore) : World :=
  { w with store, log := w.log ++ [⟨claim, w.clock, deed⟩] }

end World

/-- What each call answers and does. A claim is numbered by its place in the log.
Nothing is known of the transport, and of the clock only how it may tick. -/
def exec (ticks : OffsetDateTime → OffsetDateTime → Prop) : Semantics calls World
  | .now, w, a, w' => ticks w.clock a ∧ w' = { w with clock := a }
  | .claim limit now lease, w, a, w' =>
    a = .ok (w.log.length, (w.store.claim limit now lease).1) ∧
      w' = w.recorded w.log.length
        (.claimed (w.store.claim limit now lease).1 (places limit now w.store) (now.plus lease))
        (w.store.claim limit now lease).2
  | .deliver message claim, w, a, w' => w' = w.recorded claim (Deed.told message a) w.store
  | .markFailed eventId claim, w, a, w' =>
    a = .ok () ∧ w' = w.recorded claim (.failed eventId) (w.store.markFailed eventId)
  | .markDelivered eventIds claim, w, a, w' =>
    a = .ok () ∧ w' = w.recorded claim (.delivered eventIds) (w.store.markDelivered eventIds)
  | .quarantine eventId reason claim maxAttempts, w, a, w' =>
    a = .ok () ∧
      w' = w.recorded claim (.quarantined eventId maxAttempts) (w.store.quarantine eventId reason)

/-- What everybody else does to the store in the meantime. -/
inductive Drift (env : Rendering) : World → World → Prop
  | commit {w : World} (commit : CeremonyCommit) :
      Drift env w { w with store := (w.store.commit env commit).2 }
  | append {w : World} (fact : AuditFact) :
      Drift env w { w with store := (w.store.append env fact).2 }
  | save {w : World} (session : CeremonyInstance) :
      Drift env w { w with store := w.store.save session }

inductive Spawn : Prog calls Unit → Prop
  | publish (input : PublishOutboxInput) :
      Spawn ((publishOutbox input).run >>= fun _ => pure ())

/-- Any number of publishers and any interleaving. One that is never scheduled
again has crashed. -/
abbrev Runs (env : Rendering) (ticks : OffsetDateTime → OffsetDateTime → Prop) :
    Config calls World → Prop :=
  Reachable (exec ticks) Spawn (Drift env) World.empty

end Choreographer.PublishOutbox
