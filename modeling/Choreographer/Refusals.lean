import Choreographer.HumanGuards

namespace Choreographer.Refusals

open Choreographer.Lib.SortedMaps Choreographer.Lib.Updates
open Choreographer.Texts Choreographer.Values Choreographer.Steps Choreographer.DefinitionParts
open Choreographer.Definition Choreographer.Agenda Choreographer.Instance Choreographer.Operations

section InPlace

def insertKey (key : IdempotencyKey) : Update DomainError CeremonyInstance Bool := do
  let self ← get
  modify fun self => { self with idempotencyKeys := OrdSet.add key self.idempotencyKeys }
  pure (!self.idempotencyKeys.contains key)

/-- Starting a step to the letter: the key is put among the used ones before it is known
whether it may be. -/
def startStepInPlace (definition : CeremonyDefinition) (stepId : StepId) (lease : StepLease)
    (now : OffsetDateTime) : Update DomainError CeremonyInstance StepAttempt := do
  check fun self => self.requireActive definition "terminal ceremony instances cannot start steps"
  let step ← check fun _ => okOr (definition.step stepId) (.notFound "ceremony_instance.step")
  check fun self => require (step.stateId = self.currentState)
    (.invalidTransition "ceremony_instance.current_state" "ceremony_step.state")
  let record ← check fun self => okOr (self.stepRecords.get? stepId)
    (.notFound "ceremony_instance.step_record")
  check fun _ => require (record.canBeStartedAt now)
    (.invariantViolated "step lease is still active")
  let nextAttempt ← check fun _ => nextAttemptForStart record
  check fun _ => require (step.retryPolicy.allowsAttempt nextAttempt)
    (.invariantViolated "step retry policy exhausted")
  let inserted ← insertKey lease.idempotencyKey
  check fun _ => require inserted (.alreadyExists "ceremony_instance.idempotency_key")
  modify fun self => { self with
    stepRecords := self.stepRecords.insert stepId (record.withStarted lease nextAttempt) }
  modify fun self => { self with updatedAt := now }
  pure nextAttempt

theorem add_of_contains {key : IdempotencyKey} {keys : OrdSet IdempotencyKey}
    (h : keys.contains key = true) : OrdSet.add key keys = keys := by
  apply OrdMap.ext_get?
  intro other
  rw [OrdSet.add, OrdMap.get?_insert]
  split
  · next he =>
    obtain ⟨_, hget⟩ := OrdMap.contains_iff.mp h
    rw [he, hget]
  · rfl

/-- Putting in a key that is there changes nothing, so a start that is refused for its key
leaves no trace of it. -/
theorem startStepInPlace_eq (definition : CeremonyDefinition) (stepId : StepId) (lease : StepLease)
    (now : OffsetDateTime) : startStepInPlace definition stepId lease now =
      CeremonyInstance.startStep definition stepId lease now := by
  unfold startStepInPlace CeremonyInstance.startStep
  refine congrArg (_ >>= ·) (funext fun _ => ?_)
  refine congrArg (_ >>= ·) (funext fun step => ?_)
  refine congrArg (_ >>= ·) (funext fun _ => ?_)
  refine congrArg (_ >>= ·) (funext fun record => ?_)
  refine congrArg (_ >>= ·) (funext fun _ => ?_)
  refine congrArg (_ >>= ·) (funext fun nextAttempt => ?_)
  refine congrArg (_ >>= ·) (funext fun _ => ?_)
  funext i
  show (insertKey lease.idempotencyKey >>= _ : Update DomainError CeremonyInstance _).on i =
    (check _ >>= _ : Update DomainError CeremonyInstance _).on i
  have hinsert : (insertKey lease.idempotencyKey).on i =
      (.ok (!i.idempotencyKeys.contains lease.idempotencyKey),
        { i with idempotencyKeys := OrdSet.add lease.idempotencyKey i.idempotencyKeys }) := rfl
  have hcheck : (check fun self : CeremonyInstance => require
        (!self.idempotencyKeys.contains lease.idempotencyKey)
        (DomainError.alreadyExists "ceremony_instance.idempotency_key")).on i =
      (require (!i.idempotencyKeys.contains lease.idempotencyKey)
        (DomainError.alreadyExists "ceremony_instance.idempotency_key"), i) := rfl
  rw [bind_on, hinsert, bind_on, hcheck]
  cases hk : i.idempotencyKeys.contains lease.idempotencyKey with
  | false => rfl
  | true =>
    rw [add_of_contains hk]
    rfl

end InPlace

/-- A call on a session or on one of its agenda items that is refused leaves it exactly as
it was. -/
theorem refusal_changes_nothing :
    (∀ (d : CeremonyDefinition) (op : Operation) (i : CeremonyInstance) (e : DomainError),
      op.answer d i = .error e → op.after d i = i) ∧
    (∀ (d : CeremonyDefinition) (stepId : StepId) (lease : StepLease) (now : OffsetDateTime)
      (i : CeremonyInstance) (e : DomainError), Refuses (startStepInPlace d stepId lease now) i e →
      ((startStepInPlace d stepId lease now).on i).2 = i) ∧
    (∀ (roleId : RoleId) (content : CeremonyInterventionContent) (now : OffsetDateTime)
      (item : CeremonyIntervention) (e : DomainError),
      Refuses (CeremonyIntervention.respond roleId content now) item e →
      ((CeremonyIntervention.respond roleId content now).on item).2 = item) ∧
    (∀ (roleId : RoleId) (pack : CeremonyEvidencePack) (now : OffsetDateTime)
      (item : CeremonyIntervention) (e : DomainError),
      Refuses (CeremonyIntervention.respondWithEvidence roleId pack now) item e →
      ((CeremonyIntervention.respondWithEvidence roleId pack now).on item).2 = item) ∧
    ∀ (roleId : RoleId) (now : OffsetDateTime) (item : CeremonyIntervention) (e : DomainError),
      Refuses (CeremonyIntervention.close roleId now) item e →
      ((CeremonyIntervention.close roleId now).on item).2 = item := by
  refine ⟨fun d op i e h => atomic_run d op i e h, fun d stepId lease now i e h => ?_,
    fun roleId content now => CeremonyIntervention.atomic_respond roleId content now,
    fun roleId pack now => CeremonyIntervention.atomic_respondWithEvidence roleId pack now,
    fun roleId now => CeremonyIntervention.atomic_close roleId now⟩
  rw [startStepInPlace_eq] at h ⊢
  exact atomic_startStep stepId lease now i e h

section Release

open Choreographer.HumanGuards

/-- A draft nobody signed off is not released, and stays as it is. -/
theorem refusal_changes_nothing_unsigned :
    Operation.after release (.applyTransition (some lead) publish ⟨1, 0⟩)
      (CeremonyInstance.opened ⟨"r2", by decide⟩ release CeremonyContext.empty ⟨0, 0⟩ none) =
      CeremonyInstance.opened ⟨"r2", by decide⟩ release CeremonyContext.empty ⟨0, 0⟩ none :=
  refusal_changes_nothing.1 release _ _
    (.invariantViolated "ceremony transition guards are not satisfied") rfl

end Release

end Choreographer.Refusals
