import Choreographer.Lib.Runs
import Choreographer.WinnerSelection

namespace Choreographer.CompletedDeliberations

open Choreographer.Lib.SortedMaps Choreographer.Lib.Updates Choreographer.Lib.Runs
open Choreographer.Texts Choreographer.Values Choreographer.Deliberations
open Choreographer.WinnerSelection

/-- The calls a deliberation answers, with their arguments. -/
inductive Call
  | addProposal (proposal : Proposal)
  | reviseProposal (proposalId : ProposalId) (newContent : String) (now : OffsetDateTime)
  | attachOutcome (proposalId : ProposalId) (outcome : ValidationOutcome)
  | advance
  | complete (now : OffsetDateTime)
  | reprioritize (ranking : List ProposalId)

def Call.run (d : Deliberation) : Call → Except DomainError Deliberation
  | .addProposal proposal => d.addProposal proposal
  | .reviseProposal proposalId newContent now => d.reviseProposal proposalId newContent now
  | .attachOutcome proposalId outcome => d.attachOutcome proposalId outcome
  | .advance => d.advance
  | .complete now => Prod.fst <$> d.complete now
  | .reprioritize ranking => Prod.fst <$> d.reprioritize ranking

/-- What a call leaves behind. One that is refused leaves everything as it was. -/
def Call.after (call : Call) (d : Deliberation) : Deliberation :=
  match call.run d with
  | .ok d' => d'
  | .error _ => d

/-- Finished, with a date, and everything that was proposed is judged and ranked. -/
structure ReallyComplete (d : Deliberation) : Prop where
  dated : d.completedAt.isSome = true
  ranked : d.ranking.Perm d.proposals.keys
  judged : ∀ id ∈ d.proposals.keys, d.outcomes.contains id = true

/-- Completed in name only if in deed. -/
def Honest (d : Deliberation) : Prop := d.phase = .completed → ReallyComplete d

/-- There is no date before the end. -/
def Undated (d : Deliberation) : Prop := d.phase ≠ .completed → d.completedAt = none

/-- The one call that ends a deliberation without completing it. -/
def Completes (d : Deliberation) (call : Call) : Prop := call = .advance → d.phase ≠ .scoring

section Calls

variable {d d' : Deliberation}

theorem requirePhase_ok {phase : DeliberationPhase} {u : Unit} :
    d.requirePhase phase = .ok u ↔ d.phase = phase := by
  unfold Deliberation.requirePhase
  split_ifs with h
  · simp [h]
  · simp [h]

theorem map_fst_ok {α β : Type} {x : Except DomainError (α × β)} {a : α} :
    Prod.fst <$> x = .ok a ↔ ∃ b, x = .ok (a, b) := by
  rw [except_map_eq_ok, Prod.exists]
  simp

theorem run_cases {call : Call} (h : call.run d = .ok d') :
    (d.phase ≠ .completed ∧ d'.phase ≠ .completed ∧ d'.completedAt = d.completedAt ∧
        (call = .advance → d.phase ≠ .scoring)) ∨
      (call = .advance ∧ d.phase = .scoring ∧ d'.phase = .completed ∧
        d'.completedAt = d.completedAt) ∨
      (∃ now, call = .complete now ∧ d'.phase = .completed ∧ d'.completedAt = some now ∧
        ∃ ts, Sealed d' ts) ∨
      ∃ ranking ts, call = .reprioritize ranking ∧ d.phase = .completed ∧
        ranking.length = d.ranking.length ∧
        (OrdSet.ofList d.ranking).keys = (OrdSet.ofList ranking).keys ∧
        d.materializeRankedTuples ranking = .ok ts ∧ d' = { d with ranking := ranking } := by
  cases call with
  | addProposal proposal =>
    simp only [Call.run, Deliberation.addProposal, except_bind_eq_ok, requirePhase_ok] at h
    obtain ⟨_, hphase, h⟩ := h
    split at h
    · simp at h
    · obtain rfl := Except.ok.inj h
      simp [hphase]
  | reviseProposal proposalId newContent now =>
    simp only [Call.run, Deliberation.reviseProposal, except_bind_eq_ok, requirePhase_ok] at h
    obtain ⟨_, hphase, _, _, _, _, h⟩ := h
    obtain rfl := Except.ok.inj h
    simp [hphase]
  | attachOutcome proposalId outcome =>
    simp only [Call.run, Deliberation.attachOutcome, except_bind_eq_ok, requirePhase_ok] at h
    obtain ⟨_, hphase, h⟩ := h
    split at h
    · simp at h
    · split at h
      · simp at h
      · obtain rfl := Except.ok.inj h
        simp [hphase]
  | advance =>
    simp only [Call.run, Deliberation.advance] at h
    cases hphase : d.phase with
    | completed => simp [hphase, DeliberationPhase.next] at h
    | scoring =>
      simp [hphase, DeliberationPhase.next] at h
      subst h
      simp
    | _ =>
      simp only [hphase, DeliberationPhase.next] at h
      split_ifs at h
      all_goals
        obtain rfl := Except.ok.inj h
        simp
  | complete now =>
    obtain ⟨ranked, h⟩ := map_fst_ok.mp h
    obtain ⟨ts, hsealed, -⟩ := complete_ok h
    have hdated : d'.completedAt = some now := by
      simp only [Deliberation.complete, except_bind_eq_ok] at h
      obtain ⟨_, _, _, _, h⟩ := h
      rw [← (Prod.mk.inj (Except.ok.inj h)).1]
    exact .inr (.inr (.inl ⟨now, rfl, hsealed.completed, hdated, ts, hsealed⟩))
  | reprioritize ranking =>
    obtain ⟨ranked, h⟩ := map_fst_ok.mp h
    simp only [Deliberation.reprioritize, except_bind_eq_ok, requirePhase_ok] at h
    obtain ⟨_, hphase, h⟩ := h
    split at h
    · simp at h
    · next hsame =>
      rw [except_bind_eq_ok] at h
      obtain ⟨ts, hts, h⟩ := h
      rw [not_or, not_not, not_not] at hsame
      have hd' := (Prod.mk.inj (Except.ok.inj h)).1
      exact .inr (.inr (.inr ⟨ranking, ts, rfl, hphase, hsame.1, hsame.2, hts, hd'.symm⟩))

theorem reallyComplete_of_sealed {ts : List Tuple} (h : Sealed d ts)
    (hdated : d.completedAt.isSome = true) : ReallyComplete d := by
  refine ⟨hdated, h.all, ?_⟩
  intro id hid
  obtain ⟨t, ht, rfl⟩ := h.exists_tuple hid
  exact OrdMap.contains_iff.mpr ⟨_, (h.stored t ht).2⟩

theorem ranking_perm {ranking ranking' : List ProposalId} (hnodup : ranking.Nodup)
    (hlen : ranking'.length = ranking.length)
    (hkeys : (OrdSet.ofList ranking).keys = (OrdSet.ofList ranking').keys) :
    ranking'.Perm ranking := by
  have hsub : ranking ⊆ ranking' := by
    intro id hid
    rw [← OrdSet.mem_keys_ofList, ← hkeys, OrdSet.mem_keys_ofList]
    exact hid
  have hperm : ranking.Subperm ranking' := List.subperm_of_subset hnodup hsub
  exact (hperm.perm_of_length_le hlen.le).symm

theorem honest_step {call : Call} (hu : Undated d) (hd : Honest d) (h : call.run d = .ok d') :
    Honest d' ↔ Completes d call := by
  rcases run_cases h with ⟨-, hrunning', -, hcall⟩ | ⟨rfl, hscoring, hended, hdate⟩ |
    ⟨now, rfl, hended, hdate, ts, hsealed⟩ | ⟨ranking, ts, rfl, hended, hlen, hkeys, hts, rfl⟩
  · exact iff_of_true (fun hc => absurd hc hrunning') hcall
  · -- the date is still missing, whatever the ranking
    have hnone : d'.completedAt = none := by
      rw [hdate]
      exact hu (by simp [hscoring])
    apply iff_of_false
    · intro hh
      have hdated := (hh hended).dated
      simp [hnone] at hdated
    · intro hc
      exact hc rfl hscoring
  · refine iff_of_true (fun _ => reallyComplete_of_sealed hsealed ?_) (by simp [Completes])
    simp [hdate]
  · refine iff_of_true (fun _ => ?_) (by simp [Completes])
    obtain ⟨hdated, hranked, hjudged⟩ := hd hended
    have hnodup : d.ranking.Nodup := hranked.nodup_iff.mpr d.proposals.nodup_keys
    exact ⟨hdated, (ranking_perm hnodup hlen hkeys).trans hranked, hjudged⟩

theorem completes_of_refused {call : Call} {e : DomainError} (h : call.run d = .error e) :
    Completes d call := by
  rintro rfl hscoring
  simp [Call.run, Deliberation.advance, hscoring, DeliberationPhase.next] at h

theorem after_step (call : Call) (hu : Undated d) (hd : Honest d) :
    Honest (call.after d) ↔ Completes d call := by
  unfold Call.after
  cases h : call.run d with
  | ok d' => exact honest_step hu hd h
  | error e => exact iff_of_true hd (completes_of_refused h)

theorem undated_after (call : Call) (hu : Undated d) : Undated (call.after d) := by
  unfold Call.after
  cases h : call.run d with
  | error e => exact hu
  | ok d' =>
    rcases run_cases h with ⟨hrunning, -, hdate, -⟩ | ⟨-, -, hended, -⟩ |
      ⟨now, -, hended, -⟩ | ⟨ranking, ts, -, hended, -, -, -, rfl⟩
    · exact fun _ => hdate.trans (hu hrunning)
    · exact fun hne => absurd hended hne
    · exact fun hne => absurd hended hne
    · exact fun hne => absurd hended hne

end Calls

/-- All along a deliberation, what is completed is really complete, if and only if the last
phase is never entered by a mere advance. -/
theorem completed_complete_iff (taskId : TaskId) (specialty : Specialty) (roundsBudget : U32)
    (startedAt : OffsetDateTime) (calls : List Call) :
    (∀ before later, calls = before ++ later →
      Honest (run Call.after before (Deliberation.start taskId specialty roundsBudget startedAt))) ↔
    ∀ before call later, calls = before ++ call :: later →
      Completes (run Call.after before (Deliberation.start taskId specialty roundsBudget startedAt))
        call := by
  apply always_iff Undated
  · exact fun d call => undated_after call
  · exact fun d call => after_step call
  · exact fun _ => rfl
  · exact fun hended => absurd hended (by simp [Deliberation.start])

section Hurried

def topic : TaskId := ⟨"menu", by decide⟩
def cooks : Specialty := ⟨"cooking", by decide⟩
def soup : Proposal :=
  ⟨⟨"soup", by decide⟩, ⟨"chef", by decide⟩, cooks, "soup", Attributes.empty, ⟨0, 0⟩, ⟨0, 0⟩, 0⟩
def liked : ValidationOutcome := ⟨⟨0, by decide⟩, []⟩

/-- One proposal is made and judged, and then the phases are merely gone through. -/
def hurried : List Call :=
  [.addProposal soup, .advance, .advance, .attachOutcome soup.id liked, .advance, .advance]

theorem hurried_not_complete :
    ¬ ∀ (taskId : TaskId) (specialty : Specialty) (roundsBudget : U32) (startedAt : OffsetDateTime)
      (calls : List Call),
      Honest (run Call.after calls
        (Deliberation.start taskId specialty roundsBudget startedAt)) := by
  intro h
  have hdated := (h topic cooks 1 ⟨0, 0⟩ hurried rfl).dated
  have hnone : (run Call.after hurried (Deliberation.start topic cooks 1 ⟨0, 0⟩)).completedAt =
      none := rfl
  rw [hnone] at hdated
  simp at hdated

end Hurried

end Choreographer.CompletedDeliberations
