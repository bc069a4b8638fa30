import Choreographer.Diffs
import Choreographer.Operations

namespace Choreographer.StrandedSessions

open Choreographer.Lib.SortedMaps Choreographer.Lib.Updates
open Choreographer.Texts Choreographer.Values Choreographer.Steps Choreographer.DefinitionParts
open Choreographer.Definition Choreographer.Instance Choreographer.Diffs

/-- The same way from the same state to the same state. -/
structure SameMove (t u : CeremonyTransition) : Prop where
  leaves : u.fromState = t.fromState
  trigger : u.trigger = t.trigger
  enters : u.toState = t.toState

/-- A move that both definitions have now asks for a guard it did not ask for, and no
longer for one that it did. -/
def Trades (before after : CeremonyDefinition) : Prop :=
  ∃ t ∈ before.transitions, ∃ u ∈ after.transitions, SameMove t u ∧
    (∃ added, u.requiredGuards.contains added = true ∧ t.requiredGuards.contains added = false) ∧
    ∃ dropped, t.requiredGuards.contains dropped = true ∧ u.requiredGuards.contains dropped = false

section Quiet

variable {before after : CeremonyDefinition}

theorem not_strands_iff {changes : List CeremonyDefinitionChange} :
    (⟨changes⟩ : CeremonyDefinitionDiff).strandsRunningSessions = false ↔
      ∀ change ∈ changes, change.impact = .carries := by
  simp only [CeremonyDefinitionDiff.strandsRunningSessions, List.any_eq_false,
    decide_eq_true_eq]
  refine forall₂_congr fun change _ => ?_
  cases change.impact <;> simp

/-- A move that did not strand anybody is still there, and it asks for nothing more
unless guards were traded. -/
theorem kept_of_quiet {t : CeremonyTransition} (htrade : ¬ Trades before after)
    (ht : t ∈ before.transitions)
    (h : ∀ change ∈ diffTransition after t, change.impact = .carries) :
    ∃ u ∈ after.transitions, SameMove t u ∧
      ∀ guardName, u.requiredGuards.contains guardName = true →
        t.requiredGuards.contains guardName = true := by
  simp only [diffTransition] at h
  split at h
  · simp at h
  · next u hfind =>
    obtain ⟨hmem, hfrom, htrigger⟩ := counterpart_of_find hfind
    split_ifs at h with hto hguards hsuper
    · simp at h
    · simp at h
    · have hmove : SameMove t u := ⟨hfrom, htrigger, not_not.mp hto⟩
      refine ⟨u, hmem, hmove, fun added hadded => ?_⟩
      by_contra hnew
      simp only [isSuperset, List.all_eq_true, OrdMap.mem_keys, not_forall] at hsuper
      obtain ⟨dropped, hdropped, hgone⟩ := hsuper
      exact htrade ⟨t, ht, u, hmem, hmove, ⟨added, hadded, by simpa using hnew⟩,
        dropped, hdropped, by simpa using hgone⟩
    · refine ⟨u, hmem, ⟨hfrom, htrigger, not_not.mp hto⟩, fun guardName hg => ?_⟩
      rwa [← not_not.mp hguards]

theorem satisfied_of_quiet {guardName : GuardName} {records : OrdMap StepId StepExecutionRecord}
    {context : CeremonyContext} {old now : CeremonyGuard}
    (hold : before.guards.get? guardName = some old)
    (hnow : after.guards.get? guardName = some now)
    (h : ∀ change ∈ diffGuard after guardName old, change.impact = .carries) :
    now.isSatisfied records context = old.isSatisfied records context := by
  have hcond : now.condition = old.condition := by
    by_contra hne
    simp [diffGuard, hnow, hne] at h
  have hname : now.name = old.name :=
    (after.guardsKeyed guardName now hnow).trans (before.guardsKeyed guardName old hold).symm
  simp [CeremonyGuard.isSatisfied, hcond, hname]

theorem enabled_of_quiet (htrade : ¬ Trades before after)
    (hquiet : (CeremonyDefinitionDiff.between before after).strandsRunningSessions = false)
    {t : CeremonyTransition} (ht : t ∈ before.transitions)
    {records : OrdMap StepId StepExecutionRecord} {context : CeremonyContext}
    (henabled : before.guardsAreSatisfied t records context = true) :
    ∃ u ∈ after.transitions, SameMove t u ∧ after.guardsAreSatisfied u records context = true := by
  have hcarries := not_strands_iff.mp hquiet
  have hmoves : ∀ change ∈ diffTransition after t, change.impact = .carries := by
    intro change hc
    apply hcarries
    simp only [diffTransitions, List.mem_append, List.mem_flatMap]
    exact .inl (.inl (.inl (.inl (.inr (.inl ⟨t, ht, hc⟩)))))
  obtain ⟨u, hu, hmove, hless⟩ := kept_of_quiet htrade ht hmoves
  refine ⟨u, hu, hmove, ?_⟩
  simp only [CeremonyDefinition.guardsAreSatisfied, List.all_eq_true, OrdMap.mem_keys] at henabled ⊢
  intro guardName hg
  have hsat := henabled guardName (hless guardName hg)
  obtain ⟨now, hnow⟩ := OrdMap.contains_iff.mp ((after.transitions_sound.1 u hu).guarded guardName hg)
  cases hold : before.guards.get? guardName with
  | none => simp [hold] at hsat
  | some old =>
    have hguard : ∀ change ∈ diffGuard after guardName old, change.impact = .carries := by
      intro change hc
      apply hcarries
      simp only [diffGuards, List.mem_append, List.mem_flatMap]
      exact .inl (.inl (.inr (.inl ⟨(guardName, old), OrdMap.mem_entries.mpr hold, hc⟩)))
    rw [hold] at hsat
    rw [show after.guards.get? guardName = some now from hnow]
    simpa [satisfied_of_quiet hold hnow hguard] using hsat

end Quiet

section Approvals

theorem exists_withdrawn (context : CeremonyContext) (guardName : GuardName) :
    ∃ withdrawn : CeremonyContext, ∀ other, withdrawn.isGuardApproved other =
      (decide (other ≠ guardName) && context.isGuardApproved other) := by
  obtain ⟨⟨entries, hvalid⟩⟩ := context
  cases hget : entries.get? guardName.asStr with
  | none =>
    refine ⟨⟨⟨entries, hvalid⟩⟩, fun other => ?_⟩
    by_cases ho : other = guardName
    · subst ho
      simp [CeremonyContext.isGuardApproved, Attributes.get, hget]
    · simp [ho]
  | some value =>
    obtain ⟨front, back, hentries, hins⟩ := OrdMap.entries_insert_of_lookup entries.sorted hget
    have hsame : checkAttributes (entries.insert guardName.asStr (.bool false)) =
        checkAttributes entries := by
      have hnew : (entries.insert guardName.asStr (.bool false)).entries =
          front ++ (guardName.asStr, .bool false) :: back := hins _
      have hkeys : (entries.insert guardName.asStr (.bool false)).keys = entries.keys := by
        simp [OrdMap.keys, hnew, hentries]
      have hsize : (entries.insert guardName.asStr (.bool false)).size = entries.size := by
        simp [OrdMap.size, hnew, hentries]
      unfold checkAttributes
      rw [hkeys, hsize]
    refine ⟨⟨⟨entries.insert guardName.asStr (.bool false), hsame.trans hvalid⟩⟩, fun other => ?_⟩
    simp only [CeremonyContext.isGuardApproved, Attributes.get, OrdMap.get?_insert]
    by_cases ho : other = guardName
    · simp [ho, Value.asBool]
    · have hs : other.asStr ≠ guardName.asStr := fun he => ho (Text.ext he)
      simp [ho, hs]

theorem isSatisfied_congr {guard : CeremonyGuard} {records : OrdMap StepId StepExecutionRecord}
    {context other : CeremonyContext}
    (h : other.isGuardApproved guard.name = context.isGuardApproved guard.name) :
    guard.isSatisfied records other = guard.isSatisfied records context := by
  unfold CeremonyGuard.isSatisfied
  split <;> first | rfl | exact h

theorem blocked_of_human {before after : CeremonyDefinition} {t u : CeremonyTransition}
    {guardName : GuardName} {guard : CeremonyGuard}
    (hadded : u.requiredGuards.contains guardName = true)
    (hnew : t.requiredGuards.contains guardName = false)
    (hguard : after.guards.get? guardName = some guard)
    (hhuman : guard.condition = .humanApproval) {records : OrdMap StepId StepExecutionRecord}
    {context : CeremonyContext} (henabled : before.guardsAreSatisfied t records context = true) :
    ∃ withdrawn, before.guardsAreSatisfied t records withdrawn = true ∧
      after.guardsAreSatisfied u records withdrawn = false := by
  obtain ⟨withdrawn, hw⟩ := exists_withdrawn context guardName
  refine ⟨withdrawn, ?_, ?_⟩
  · simp only [CeremonyDefinition.guardsAreSatisfied, List.all_eq_true, OrdMap.mem_keys]
      at henabled ⊢
    intro other hother
    have hsat := henabled other hother
    cases hold : before.guards.get? other with
    | none => simp [hold] at hsat
    | some old =>
      have hname : old.name ≠ guardName := by
        rw [before.guardsKeyed other old hold]
        rintro rfl
        rw [hother] at hnew
        simp at hnew
      have happ : withdrawn.isGuardApproved old.name = context.isGuardApproved old.name := by
        rw [hw]
        simp [hname]
      rw [hold] at hsat
      simpa [isSatisfied_congr happ] using hsat
  · simp only [CeremonyDefinition.guardsAreSatisfied, List.all_eq_false, OrdMap.mem_keys]
    refine ⟨guardName, hadded, ?_⟩
    have hunapproved : withdrawn.isGuardApproved guard.name = false := by
      rw [hw, after.guardsKeyed guardName guard hguard]
      simp
    simp [hguard, CeremonyGuard.isSatisfied, hhuman, hunapproved]

end Approvals

/-- A diff that says nothing of stranded sessions is right about them where no guards are
traded. Where a trade brings in a guard that waits for a person, it is wrong about every
session that has not yet heard of that person. -/
theorem quiet_diff_keeps_moves (before after : CeremonyDefinition) :
    (¬ Trades before after →
      (CeremonyDefinitionDiff.between before after).strandsRunningSessions = false →
      ∀ (stateId : StateId) (records : OrdMap StepId StepExecutionRecord)
        (context : CeremonyContext), ∀ t ∈ before.availableTransitions stateId,
        before.guardsAreSatisfied t records context = true →
        ∃ u, after.transitionForTrigger stateId t.trigger = some u ∧ u.toState = t.toState ∧
          after.guardsAreSatisfied u records context = true) ∧
    ∀ t u guardName guard, SameMove t u → u.requiredGuards.contains guardName = true →
      t.requiredGuards.contains guardName = false →
      after.guards.get? guardName = some guard → guard.condition = .humanApproval →
      ∀ records context, before.guardsAreSatisfied t records context = true →
        ∃ withdrawn, before.guardsAreSatisfied t records withdrawn = true ∧
          after.guardsAreSatisfied u records withdrawn = false := by
  refine ⟨?_, ?_⟩
  · intro htrade hquiet stateId records context t ht henabled
    obtain ⟨htmem, hfrom⟩ := List.mem_filter.mp ht
    obtain ⟨u, hu, hmove, hsat⟩ := enabled_of_quiet htrade hquiet htmem henabled
    refine ⟨u, ?_, hmove.enters, hsat⟩
    rw [CeremonyDefinition.transitionForTrigger_eq_some]
    exact ⟨hu, hmove.leaves.trans (of_decide_eq_true hfrom), hmove.trigger⟩
  · intro t u guardName guard _ hadded hnew hguard hhuman records context henabled
    exact blocked_of_human hadded hnew hguard hhuman henabled

section Printing

def writing : StateId := ⟨"writing", by decide⟩
def printed : StateId := ⟨"printed", by decide⟩
def print : TransitionTrigger := ⟨"print", by decide⟩
def spelled : GuardName := ⟨"spelled", by decide⟩
def signed : GuardName := ⟨"signed", by decide⟩

def printing (required : List GuardName) : Except DomainError CeremonyDefinition :=
  CeremonyDefinition.new ⟨"printing", by decide⟩ versionOne none [] []
    [⟨writing, .initial⟩, ⟨printed, .terminal⟩]
    [⟨writing, printed, print, OrdSet.ofList required⟩] []
    [⟨spelled, .always⟩, ⟨signed, .humanApproval⟩] []

def unsignedPrinting : CeremonyDefinition := (printing [spelled]).toOption.get rfl
def signedPrinting : CeremonyDefinition := (printing [signed]).toOption.get rfl

def carefulPrinting : CeremonyDefinition := (printing [spelled, signed]).toOption.get rfl

def approved : CeremonyContext := ⟨⟨OrdMap.empty.insert "signed" (.bool true), rfl⟩⟩

theorem not_trades_relaxed : ¬ Trades carefulPrinting unsignedPrinting := by
  rintro ⟨t, ht, u, hu, _, ⟨added, hadded, hnew⟩, _⟩
  obtain rfl := List.mem_singleton.mp ht
  obtain rfl := List.mem_singleton.mp hu
  have hspelled : added = spelled := by
    have hkeys := OrdMap.mem_keys.mpr hadded
    exact List.mem_singleton.mp hkeys
  subst hspelled
  exact absurd hnew (by decide)

theorem quiet_diff_keeps_moves_relaxed :
    ∃ u, unsignedPrinting.transitionForTrigger writing print = some u ∧ u.toState = printed ∧
      unsignedPrinting.guardsAreSatisfied u OrdMap.empty approved = true :=
  (quiet_diff_keeps_moves carefulPrinting unsignedPrinting).1 not_trades_relaxed (by decide)
    writing OrdMap.empty approved ⟨writing, printed, print, OrdSet.ofList [spelled, signed]⟩
    (List.mem_singleton_self _) (by decide)

def session : CeremonyInstance :=
  CeremonyInstance.start ⟨"p1", by decide⟩ unsignedPrinting CeremonyContext.empty ⟨0, 0⟩

/-- The session could print, and after the change it waits for a signature. -/
theorem traded_guard_strands :
    (CeremonyDefinitionDiff.between unsignedPrinting signedPrinting).strandsRunningSessions
      = false ∧
    ∃ t ∈ unsignedPrinting.availableTransitions session.currentState,
      unsignedPrinting.guardsAreSatisfied t session.stepRecords session.context = true ∧
      ∀ u ∈ signedPrinting.transitions, u.fromState = session.currentState →
        u.trigger = t.trigger →
        signedPrinting.guardsAreSatisfied u session.stepRecords session.context = false := by
  refine ⟨by decide, ⟨writing, printed, print, OrdSet.ofList [spelled]⟩, ?_, by decide, ?_⟩
  · exact List.mem_singleton_self _
  · rintro u hu _ _
    obtain rfl := List.mem_singleton.mp hu
    decide

end Printing

end Choreographer.StrandedSessions
