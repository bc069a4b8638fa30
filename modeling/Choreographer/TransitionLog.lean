import Choreographer.Operations

namespace Choreographer.TransitionLog

open Choreographer.Lib.SortedMaps Choreographer.Lib.Updates
open Choreographer.Texts Choreographer.Values Choreographer.Steps Choreographer.DefinitionParts
open Choreographer.Definition Choreographer.Agenda Choreographer.Instance Choreographer.Operations

variable {d : CeremonyDefinition} {i i' start : CeremonyInstance} {op : Operation}

/-- The moves lead from one state to another without a gap. -/
def IsPath : StateId → List CeremonyTransitionRecord → StateId → Prop
  | s, [], t => s = t
  | s, entry :: rest, t => entry.fromState = s ∧ IsPath entry.toState rest t

theorem isPath_concat {s t : StateId} {log : List CeremonyTransitionRecord}
    {entry : CeremonyTransitionRecord} (h : IsPath s log t) (he : entry.fromState = t) :
    IsPath s (log ++ [entry]) entry.toState := by
  induction log generalizing s with
  | nil => exact ⟨he.trans (Eq.symm h), rfl⟩
  | cons first rest ih => exact ⟨h.1, ih h.2⟩

/-- The transition the definition has for the state and trigger of an entry. -/
structure Declares (d : CeremonyDefinition) (entry : CeremonyTransitionRecord)
    (transition : CeremonyTransition) : Prop where
  declared : transition ∈ d.transitions
  leaves : transition.fromState = entry.fromState
  fired : transition.trigger = entry.trigger
  enters : transition.toState = entry.toState
  only : ∀ other ∈ d.transitions, other.fromState = entry.fromState →
    other.trigger = entry.trigger → other = transition

/-- Every guard of the transition stands on the records and the context of a session. -/
def GuardsStand (d : CeremonyDefinition) (transition : CeremonyTransition)
    (i : CeremonyInstance) : Prop :=
  ∀ guardName, transition.requiredGuards.contains guardName = true →
    ∃ guard, d.guards.get? guardName = some guard ∧
      guard.isSatisfied i.stepRecords i.context = true

theorem guardsStand_of_satisfied {transition : CeremonyTransition}
    (h : d.guardsAreSatisfied transition i.stepRecords i.context = true) :
    GuardsStand d transition i := by
  intro guardName hg
  have := List.all_eq_true.mp h guardName (OrdMap.mem_keys.mpr hg)
  simpa [Option.any_eq_true] using this

/-- The `k`-th entry of the log was appended by one of the calls made so far, on
a session whose guards let it pass. -/
def Appended (d : CeremonyDefinition) (start : CeremonyInstance) (ops : List Operation) (k : Nat)
    (transition : CeremonyTransition) : Prop :=
  ∃ earlier op later, ops = earlier ++ op :: later ∧
    (runAll d earlier start).transitions = (runAll d ops start).transitions.take k ∧
    (op.after d (runAll d earlier start)).transitions =
      (runAll d ops start).transitions.take (k + 1) ∧
    GuardsStand d transition (runAll d earlier start)

/-- What the log says of its `k`-th entry. -/
structure Witnessed (d : CeremonyDefinition) (start : CeremonyInstance) (ops : List Operation)
    (k : Nat) (entry : CeremonyTransitionRecord) : Prop where
  guarded : ∃ transition, Declares d entry transition ∧ Appended d start ops k transition
  allowed : ∀ roleId, entry.appliedBy = some roleId →
    d.roleAllows roleId (.transition entry.trigger) = true
  final : d.isTerminalState entry.toState = true → k + 1 = (runAll d ops start).transitions.length

structure GuardedWalk (d : CeremonyDefinition) (start : CeremonyInstance) (ops : List Operation) :
    Prop where
  path : IsPath d.initialStateId (runAll d ops start).transitions (runAll d ops start).currentState
  entries : ∀ k entry, (runAll d ops start).transitions[k]? = some entry →
    Witnessed d start ops k entry

theorem path_end {s t : StateId} {log : List CeremonyTransitionRecord}
    {entry : CeremonyTransitionRecord} {k : Nat} (h : IsPath s log t) (hk : k + 1 = log.length)
    (he : log[k]? = some entry) : entry.toState = t := by
  induction log generalizing s k with
  | nil => simp at hk
  | cons first rest ih =>
    cases k with
    | zero =>
      obtain rfl : rest = [] := by simpa using hk
      obtain rfl : first = entry := by simpa using he
      exact h.2
    | succ k => exact ih h.2 (by simpa using hk) (by simpa using he)

/-- What the log said of an entry it says after one more call, which appends
nothing behind an entry into a terminal state. -/
theorem witnessed_extend {ops : List Operation} {k : Nat} {entry : CeremonyTransitionRecord}
    (rest : List CeremonyTransitionRecord) (h : Witnessed d start ops k entry)
    (hk : k < (runAll d ops start).transitions.length)
    (ht : (op.after d (runAll d ops start)).transitions = (runAll d ops start).transitions ++ rest)
    (hrest : rest ≠ [] → d.isTerminalState entry.toState = false) :
    Witnessed d start (ops ++ [op]) k entry := by
  obtain ⟨⟨transition, hdecl, earlier, op', later, hops, hbefore, hafter, hguards⟩, hallow,
    hfinal⟩ := h
  refine ⟨⟨transition, hdecl, earlier, op', later ++ [op], by simp [hops], ?_, ?_, hguards⟩,
    hallow, fun hterm => ?_⟩
  · rw [runAll_concat, ht, hbefore, List.take_append_of_le_length (by omega)]
  · rw [runAll_concat, ht, hafter, List.take_append_of_le_length (by omega)]
  · have hnil : rest = [] := by
      by_contra hne
      rw [hrest hne] at hterm
      simp at hterm
    rw [runAll_concat, ht, hnil, List.append_nil]
    exact hfinal hterm

theorem guardedWalk_of_still {ops : List Operation} (h : GuardedWalk d start ops)
    (ht : (op.after d (runAll d ops start)).transitions = (runAll d ops start).transitions)
    (hs : (op.after d (runAll d ops start)).currentState = (runAll d ops start).currentState) :
    GuardedWalk d start (ops ++ [op]) := by
  refine ⟨?_, fun k entry hk => ?_⟩
  · rw [runAll_concat, ht, hs]
    exact h.path
  · rw [runAll_concat, ht] at hk
    exact witnessed_extend [] (h.entries k entry hk)
      (List.getElem?_eq_some_iff.mp hk).1 (by rw [ht, List.append_nil]) (fun hne => absurd rfl hne)

theorem guardedWalk_of_move {ops : List Operation} (entry : CeremonyTransitionRecord)
    {transition : CeremonyTransition} (h : GuardedWalk d start ops)
    (running : d.isTerminalState (runAll d ops start).currentState = false)
    (ht : (op.after d (runAll d ops start)).transitions =
      (runAll d ops start).transitions ++ [entry])
    (hs : (op.after d (runAll d ops start)).currentState = entry.toState)
    (hfrom : entry.fromState = (runAll d ops start).currentState)
    (hdecl : Declares d entry transition) (hguards : GuardsStand d transition (runAll d ops start))
    (hallow : ∀ roleId, entry.appliedBy = some roleId →
      d.roleAllows roleId (.transition entry.trigger) = true) :
    GuardedWalk d start (ops ++ [op]) := by
  refine ⟨?_, fun k found hk => ?_⟩
  · rw [runAll_concat, ht, hs]
    exact isPath_concat h.path hfrom
  rw [runAll_concat, ht] at hk
  by_cases hlt : k < (runAll d ops start).transitions.length
  · rw [List.getElem?_append_left hlt] at hk
    have hw := h.entries k found hk
    refine witnessed_extend _ hw hlt ht fun _ => ?_
    by_contra hterm
    have hend := path_end h.path (hw.final (by simpa using hterm)) hk
    rw [hend, running] at hterm
    simp at hterm
  · have hlen := (List.getElem?_eq_some_iff.mp hk).1
    simp only [List.length_append, List.length_singleton] at hlen
    obtain rfl : k = (runAll d ops start).transitions.length := by omega
    obtain rfl : entry = found := by simpa using hk
    refine ⟨⟨transition, hdecl, ops, op, [], rfl, ?_, ?_, hguards⟩, hallow, fun _ => ?_⟩
    · rw [runAll_concat, ht, List.take_left]
    · rw [runAll_concat, ht, List.take_of_length_le (by simp)]
    · rw [runAll_concat, ht, List.length_append, List.length_singleton]

theorem guardedWalk_step {ops : List Operation} (h : GuardedWalk d start ops) (op : Operation) :
    GuardedWalk d start (ops ++ [op]) := by
  rcases after_cases d op (runAll d ops start) with ⟨e, -, he⟩ | ⟨-, he⟩
  · exact guardedWalk_of_still h (by rw [he]) (by rw [he])
  rcases he.moves with ⟨ht, hs, -⟩ | ⟨roleId, trigger, now, rfl⟩
  · exact guardedWalk_of_still h ht hs
  generalize hj : Operation.after d (.applyTransition roleId trigger now) (runAll d ops start) = j
    at he
  cases he with
  | @applyTransition _ _ _ transition active allowed htransition guarded =>
    obtain ⟨hmem, hfrom, htrigger⟩ :=
      CeremonyDefinition.transitionForTrigger_eq_some.mp htransition
    refine guardedWalk_of_move
      ⟨trigger, (runAll d ops start).currentState, transition.toState, roleId, now⟩
      h active.running (by rw [hj]) (by rw [hj]) rfl ⟨hmem, hfrom, htrigger, rfl, ?_⟩
      (guardsStand_of_satisfied guarded) (fun r hr => allowed r hr)
    intro other ho hof hot
    exact d.transition_unique ho hmem (hof.trans hfrom.symm) (hot.trans htrigger.symm)

theorem guardedWalk_run (hs : start.currentState = d.initialStateId) (ht : start.transitions = [])
    (ops : List Operation) : GuardedWalk d start ops := by
  induction ops using List.reverseRecOn with
  | nil =>
    refine ⟨?_, fun k entry hk => ?_⟩
    · change IsPath d.initialStateId start.transitions start.currentState
      rw [ht, hs]
      exact rfl
    · change start.transitions[k]? = some entry at hk
      simp [ht] at hk
  | append_singleton ops op ih => exact guardedWalk_step ih op

/-- The transition log of a session is a path from the initial state of its
definition to where the session is, along declared transitions, each taken with
its guards standing and by a role that may fire it, and it ends where it enters a
terminal state. -/
theorem log_is_guarded_walk (d : CeremonyDefinition) (id : CeremonyId) (context : CeremonyContext)
    (now : OffsetDateTime) (bound : Option CeremonyDefinitionDigest) (ops : List Operation) :
    GuardedWalk d (CeremonyInstance.opened id d context now bound) ops :=
  guardedWalk_run rfl rfl ops

end Choreographer.TransitionLog
