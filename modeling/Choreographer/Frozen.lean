import Choreographer.Operations

namespace Choreographer.Frozen

open Choreographer.Lib.SortedMaps Choreographer.Lib.Updates
open Choreographer.Texts Choreographer.Values Choreographer.Steps Choreographer.DefinitionParts
open Choreographer.Definition Choreographer.Agenda Choreographer.Instance Choreographer.Operations

variable {d : CeremonyDefinition} {i i' : CeremonyInstance} {op : Operation}

/-- The finishing time is set exactly on a session that has ended. -/
structure Timed (d : CeremonyDefinition) (i : CeremonyInstance) : Prop where
  matching : i.matchesDefinition d = true
  completed : i.completedAt.isSome = d.isTerminalState i.currentState

theorem timed_opened (id : CeremonyId) (context : CeremonyContext) (now : OffsetDateTime)
    (bound : Option CeremonyDefinitionDigest) :
    Timed d (CeremonyInstance.opened id d context now bound) :=
  ⟨opened_matches .., d.initialStateId_not_terminal.symm⟩

theorem timed_step (hi : Timed d i) (h : Effect d i op i') : Timed d i' := by
  refine ⟨h.identity.2.1.trans hi.matching, ?_⟩
  rcases h.moves with ⟨-, hs, hc⟩ | ⟨roleId, trigger, now, rfl⟩
  · rw [hs, hc]
    exact hi.completed
  · cases h with
    | applyTransition active allowed htransition guarded =>
      have hnone := hi.completed.trans active.running
      simp only
      split
      · next ht => simp [ht]
      · next ht => simp_all

theorem timed_run (hi : Timed d i) (ops : List Operation) : Timed d (runAll d ops i) :=
  runAll_keeps (fun _ _ _ => timed_step) ops hi

def isAssertReason : Operation → Bool
  | .assertReason .. => true
  | _ => false

/-- Two sessions that differ at most in their reasons and in when they were last touched. -/
def SameButReasons (i j : CeremonyInstance) : Prop :=
  j = { i with reasons := j.reasons, updatedAt := j.updatedAt }

theorem SameButReasons.currentState {i j : CeremonyInstance} (h : SameButReasons i j) :
    j.currentState = i.currentState := by
  rw [h]

theorem SameButReasons.trans {i j k : CeremonyInstance} (h : SameButReasons i j)
    (h' : SameButReasons j k) : SameButReasons i k := by
  unfold SameButReasons at h h' ⊢
  rw [h'] at *
  rw [h]

/-- The only call a session that has ended accepts is one that asserts a reason.
A result is refused because a terminal state owns no step. -/
theorem only_reasons_after_end (hend : d.isTerminalState i.currentState = true)
    (h : Effect d i op i') : isAssertReason op = true ∧ SameButReasons i i' := by
  cases h with
  | assertReason => exact ⟨rfl, rfl⟩
  | applyStepResult matching hstep hstate hrecord executing =>
    have := d.stepState_not_terminal hstep
    rw [hstate, hend] at this
    simp at this
  | startStep active | approveGuard active | bindParticipant active | deferGuard active
  | requestIntervention active | respond active | respondWithEvidence active
  | prepareEvidenceRequest active | closeIntervention active | applyTransition active =>
    have := active.running
    rw [hend] at this
    simp at this

theorem same_after_end (hend : d.isTerminalState i.currentState = true) (later : List Operation) :
    SameButReasons i (runAll d later i) := by
  refine runAll_keeps (P := SameButReasons i) (fun j op j' hj h => ?_) later rfl
  have hj' : d.isTerminalState j.currentState = true := by rw [hj.currentState, hend]
  exact hj.trans (only_reasons_after_end hj' h).2

/-- The finishing time is set exactly when a session has ended, and from then on
every call but the assertion of a reason is refused, so that nothing else about
the session ever changes. -/
theorem finished_session_is_frozen (d : CeremonyDefinition) (id : CeremonyId)
    (context : CeremonyContext) (now : OffsetDateTime) (bound : Option CeremonyDefinitionDigest)
    (ops : List Operation) :
    let i := runAll d ops (CeremonyInstance.opened id d context now bound)
    (i.completedAt.isSome = true ↔ d.isTerminalState i.currentState = true) ∧
      (d.isTerminalState i.currentState = true → ∀ later : List Operation,
        SameButReasons i (runAll d later i) ∧
          ∀ op : Operation, (∃ e, op.answer d (runAll d later i) = .error e) ∨
            isAssertReason op = true) := by
  intro i
  have hi : Timed d i := timed_run (timed_opened id context now bound) ops
  refine ⟨by rw [hi.completed], fun hend later => ⟨same_after_end hend later, fun op => ?_⟩⟩
  have hlater : d.isTerminalState (runAll d later i).currentState = true := by
    rw [(same_after_end hend later).currentState, hend]
  rcases after_cases d op (runAll d later i) with ⟨e, he, -⟩ | ⟨-, h⟩
  · exact .inl ⟨e, he⟩
  · exact .inr (only_reasons_after_end hlater h).1

end Choreographer.Frozen
