import Choreographer.Values

namespace Choreographer.Steps

open Choreographer.Lib.Updates Choreographer.Texts Choreographer.Values

/-- The number of an attempt at a step, counted from one. -/
structure StepAttempt where
  get : U32
  positive : 0 < get.val
deriving DecidableEq

namespace StepAttempt

instance : LinearOrder StepAttempt :=
  LinearOrder.lift' (fun a : StepAttempt => a.get)
    (fun a b h => by cases a; cases b; cases h; rfl)

@[ext] theorem ext_val {a b : StepAttempt} (h : a.get.val = b.get.val) : a = b := by
  obtain ⟨a, ha⟩ := a
  obtain ⟨b, hb⟩ := b
  have h : a = b := Fin.ext h
  subst h
  rfl

theorem le_iff {a b : StepAttempt} : a ≤ b ↔ a.get.val ≤ b.get.val := Iff.rfl

def first : StepAttempt := ⟨1, by decide⟩

def new (value : U32) : Except DomainError StepAttempt :=
  if h : 0 < value.val then .ok ⟨value, h⟩ else .error (.mustBeNonZero "step_attempt")

def next (self : StepAttempt) : Except DomainError StepAttempt := new (saturatingSucc self.get)

theorem next_eq_ok {a b : StepAttempt} :
    a.next = .ok b ↔ b.get.val = min (a.get.val + 1) (2 ^ 32 - 1) := by
  have hpos : 0 < (saturatingSucc a.get).val := by
    have := a.positive
    simp only [saturatingSucc_val]
    omega
  unfold next new
  rw [dif_pos hpos]
  constructor
  · intro h
    cases h
    rfl
  · intro h
    exact congrArg _ (ext_val h.symm)

end StepAttempt

inductive StepStatus
  | pending
  | inProgress
  | completed
  | failed
  | waitingForHuman
  | cancelled
deriving DecidableEq, Repr

namespace StepStatus

def isExecutable : StepStatus → Bool
  | .pending | .failed | .waitingForHuman => true
  | _ => false

def isSuccess (self : StepStatus) : Bool := self = .completed

def asLabel : StepStatus → String
  | .pending => "pending"
  | .inProgress => "in_progress"
  | .completed => "completed"
  | .failed => "failed"
  | .waitingForHuman => "waiting_for_human"
  | .cancelled => "cancelled"

end StepStatus

structure StepOutput where
  attributes : Attributes

def StepOutput.empty : StepOutput := ⟨Attributes.empty⟩

/-- The right to execute a step for a while. It never expires before it is held. -/
structure StepLease where
  ownerId : LeaseOwnerId
  idempotencyKey : IdempotencyKey
  acquiredAt : OffsetDateTime
  expiresAt : OffsetDateTime
  lasts : acquiredAt < expiresAt

namespace StepLease

def new (ownerId : LeaseOwnerId) (idempotencyKey : IdempotencyKey)
    (acquiredAt expiresAt : OffsetDateTime) : Except DomainError StepLease :=
  if h : expiresAt ≤ acquiredAt then
    .error (.invariantViolated "step lease must expire after it is acquired")
  else .ok ⟨ownerId, idempotencyKey, acquiredAt, expiresAt, Int.not_le.mp h⟩

def acquire (ownerId : LeaseOwnerId) (idempotencyKey : IdempotencyKey)
    (acquiredAt : OffsetDateTime) (ttl : DurationMs) : Except DomainError StepLease := do
  let _ ← require (ttl.get.val ≤ 2 ^ 63 - 1)
    (.outOfRange "step_lease.ttl_ms" ttl.get.val 0 (2 ^ 63 - 1))
  let expiresAt ← okOr (acquiredAt.checkedAdd (ttl.get.val * 1000000))
    (.outOfRange "step_lease.expires_at" ttl.get.val 0 (2 ^ 63 - 1))
  new ownerId idempotencyKey acquiredAt expiresAt

def isExpiredAt (self : StepLease) (now : OffsetDateTime) : Bool := self.expiresAt ≤ now

end StepLease

/-- What an execution of a step came to: never a status a step has before it
ends, and an error message exactly when it failed. -/
structure StepResult where
  status : StepStatus
  output : StepOutput
  errorMessage : Option StepErrorMessage
  observable : status ≠ .pending ∧ status ≠ .inProgress
  explained : errorMessage.isSome = decide (status = .failed)

namespace StepResult

def new (status : StepStatus) (output : StepOutput) (errorMessage : Option StepErrorMessage) :
    Except DomainError StepResult :=
  if ho : status = .pending ∨ status = .inProgress then
    .error (.invariantViolated "step result status must be observable")
  else if h1 : status = .failed ∧ errorMessage.isNone then
    .error (.emptyField "step_result.error_message")
  else if h2 : status ≠ .failed ∧ errorMessage.isSome then
    .error (.invariantViolated "only failed step results may carry an error message")
  else .ok ⟨status, output, errorMessage, not_or.mp ho, by cases errorMessage <;> simp_all⟩

def completed (output : StepOutput) : Except DomainError StepResult := new .completed output none

def waitingForHuman (output : StepOutput) : Except DomainError StepResult :=
  new .waitingForHuman output none

def failed (errorMessage : StepErrorMessage) : Except DomainError StepResult :=
  new .failed StepOutput.empty (some errorMessage)

end StepResult

structure StepExecutionRecord where
  status : StepStatus
  attempt : StepAttempt
  lease : Option StepLease
  output : StepOutput
  errorMessage : Option StepErrorMessage

namespace StepExecutionRecord

def pending : StepExecutionRecord := ⟨.pending, StepAttempt.first, none, StepOutput.empty, none⟩

def canBeStartedAt (self : StepExecutionRecord) (now : OffsetDateTime) : Bool :=
  self.status.isExecutable ||
    (self.status == .inProgress && self.lease.any fun lease => lease.isExpiredAt now)

def withStarted (self : StepExecutionRecord) (lease : StepLease) (attempt : StepAttempt) :
    StepExecutionRecord :=
  { status := .inProgress, attempt, lease := some lease, output := self.output,
    errorMessage := none }

def withResult (self : StepExecutionRecord) (result : StepResult) : StepExecutionRecord :=
  { status := result.status, attempt := self.attempt, lease := none, output := result.output,
    errorMessage := result.errorMessage }

end StepExecutionRecord

/-- A start is numbered anew after a failure and when it takes an execution
over; a step that was never started, or that waited for a person, keeps its
number. -/
def nextAttemptForStart (record : StepExecutionRecord) : Except DomainError StepAttempt :=
  match record.status with
  | .failed | .inProgress => record.attempt.next
  | _ => .ok record.attempt

theorem nextAttemptForStart_val {record : StepExecutionRecord} {attempt : StepAttempt}
    (h : nextAttemptForStart record = .ok attempt) :
    attempt.get.val = if record.status = .failed ∨ record.status = .inProgress
      then min (record.attempt.get.val + 1) (2 ^ 32 - 1) else record.attempt.get.val := by
  unfold nextAttemptForStart at h
  split at h
  · next hs => simpa [hs] using StepAttempt.next_eq_ok.mp h
  · next hs => simpa [hs] using StepAttempt.next_eq_ok.mp h
  · next hf hp =>
    cases h
    rw [if_neg]
    rintro (hs | hs)
    · exact hf hs
    · exact hp hs

structure RetryPolicy where
  maxAttempts : StepAttempt
  backoff : DurationMs
deriving DecidableEq

def RetryPolicy.singleAttempt : RetryPolicy := ⟨StepAttempt.first, DurationMs.zero⟩

def RetryPolicy.allowsAttempt (self : RetryPolicy) (attempt : StepAttempt) : Bool :=
  attempt ≤ self.maxAttempts

structure StepTimeout where
  duration : DurationMs
  nonZero : duration ≠ DurationMs.zero
deriving DecidableEq

end Choreographer.Steps
