import Choreographer.Deliberate

namespace Choreographer.WinnerSelection

open Choreographer.Lib.SortedMaps Choreographer.Lib.Updates Choreographer.Lib.Programs
open Choreographer.Texts Choreographer.Values Choreographer.Contracts Choreographer.Deliberations
open Choreographer.Deliberate

/-- A proposal that passed every validator. -/
def Valid (d : Deliberation) (id : ProposalId) : Prop :=
  ∃ outcome, d.outcomes.get? id = some outcome ∧ outcome.allPassed = true

/-- The better score goes first, and of two equal ones the smaller id. -/
def Precedes (d : Deliberation) (a b : ProposalId) : Prop :=
  ∃ oa ob, d.outcomes.get? a = some oa ∧ d.outcomes.get? b = some ob ∧
    (ob.score.key < oa.score.key ∨ ob.score.key = oa.score.key ∧ a ≤ b)

/-- Valid, and ahead of every other valid proposal. -/
def BestValid (d : Deliberation) (winner : ProposalId) : Prop :=
  winner ∈ d.proposals.keys ∧ Valid d winner ∧
    ∀ other ∈ d.proposals.keys, Valid d other → Precedes d winner other

section Ranking

theorem ranksBefore_iff {a b : Tuple} :
    ranksBefore a b = true ↔ b.2.2.score.key < a.2.2.score.key ∨
      b.2.2.score.key = a.2.2.score.key ∧ a.1 ≤ b.1 := by
  unfold ranksBefore Score.cmp
  rw [Ordering.isLE_then_iff_or, compare_lt_iff_lt, compare_eq_iff_eq,
    ← Ordering.ne_gt_iff_isLE, ← ne_eq, compare_le_iff_le]

theorem ranksBefore_trans (a b c : Tuple) (hab : ranksBefore a b = true)
    (hbc : ranksBefore b c = true) : ranksBefore a c = true := by
  rw [ranksBefore_iff] at *
  rcases hab with hab | ⟨hab, hid⟩
  · rcases hbc with hbc | ⟨hbc, _⟩ <;> exact .inl (by omega)
  · rcases hbc with hbc | ⟨hbc, hid'⟩
    · exact .inl (by omega)
    · exact .inr ⟨by omega, hid.trans hid'⟩

theorem ranksBefore_total (a b : Tuple) : (ranksBefore a b || ranksBefore b a) = true := by
  rw [Bool.or_eq_true, ranksBefore_iff, ranksBefore_iff]
  rcases lt_trichotomy a.2.2.score.key b.2.2.score.key with h | h | h
  · exact .inr (.inl h)
  · rcases le_total a.1 b.1 with hid | hid
    · exact .inl (.inr ⟨h.symm, hid⟩)
    · exact .inr (.inr ⟨h, hid⟩)
  · exact .inl (.inl h)

theorem ranksBefore_refl (a : Tuple) : ranksBefore a a = true := by
  simpa using ranksBefore_total a a

/-- The places of a numbered list do not matter for what is said of its outcomes. -/
def pair (c : RankedOutcome) : Proposal × ValidationOutcome := (c.proposal, c.outcome)

theorem map_pair_numbered (ts : List Tuple) : (numbered ts).map pair = ts.map Prod.snd := by
  apply List.ext_getElem?
  intro i
  cases h : ts[i]? <;> simp [numbered, h, pair]

theorem find_numbered (ts : List Tuple) (p : Proposal × ValidationOutcome → Bool) :
    ((numbered ts).find? fun c => p (pair c)).map pair =
      (ts.find? fun t => p t.2).map Prod.snd := by
  have h := congrArg (List.find? p) (map_pair_numbered ts)
  simpa only [List.find?_map, Function.comp_def] using h

theorem filter_numbered (ts : List Tuple) (p : Proposal × ValidationOutcome → Bool) :
    ((numbered ts).filter fun c => p (pair c)).map pair =
      (ts.filter fun t => p t.2).map Prod.snd := by
  have h := congrArg (List.filter p) (map_pair_numbered ts)
  simpa only [List.filter_map, Function.comp_def] using h

end Ranking

section Sealing

variable {d d' : Deliberation} {ts : List Tuple} {ids : List ProposalId}

theorem materialize_ok {id : ProposalId} {t : Tuple} :
    d.materialize id = .ok t ↔ id = t.1 ∧ d.proposals.get? t.1 = some t.2.1 ∧
      d.outcomes.get? t.1 = some t.2.2 := by
  unfold Deliberation.materialize
  simp only [except_bind_eq_ok, okOr_eq_ok]
  constructor
  · rintro ⟨p, hp, o, ho, ht⟩
    obtain rfl := Except.ok.inj ht
    exact ⟨rfl, hp, ho⟩
  · rintro ⟨rfl, hp, ho⟩
    exact ⟨_, hp, _, ho, rfl⟩

theorem materializeRankedTuples_ok : d.materializeRankedTuples ids = .ok ts ↔
    ids = ts.map Prod.fst ∧
      ∀ t ∈ ts, d.proposals.get? t.1 = some t.2.1 ∧ d.outcomes.get? t.1 = some t.2.2 := by
  have hmap : ids.map d.materialize = ts.map .ok ↔ ids = ts.map Prod.fst ∧
      ∀ t ∈ ts, d.proposals.get? t.1 = some t.2.1 ∧ d.outcomes.get? t.1 = some t.2.2 := by
    induction ids generalizing ts with
    | nil => cases ts <;> simp
    | cons id ids ih =>
      cases ts with
      | nil => simp
      | cons t ts =>
        simp only [List.map_cons, List.cons.injEq, materialize_ok, ih, List.forall_mem_cons]
        tauto
  rw [← hmap]
  exact ⟨map_eq_of_mapM_ok, except_mapM_eq_ok⟩

/-- A completed deliberation and the proposals its ranking stands for. -/
structure Sealed (d : Deliberation) (ts : List Tuple) : Prop where
  completed : d.phase = .completed
  ranking : d.ranking = ts.map Prod.fst
  stored : ∀ t ∈ ts, d.proposals.get? t.1 = some t.2.1 ∧ d.outcomes.get? t.1 = some t.2.2
  all : d.ranking.Perm d.proposals.keys

namespace Sealed

theorem rankedOutcomes (h : Sealed d ts) : d.rankedOutcomes = .ok (numbered ts) := by
  have hm := materializeRankedTuples_ok.mpr ⟨h.ranking, h.stored⟩
  simp only [Deliberation.rankedOutcomes, Deliberation.requirePhase, h.completed, if_true, hm]
  rfl

theorem id_eq (h : Sealed d ts) {t : Tuple} (ht : t ∈ ts) : t.2.1.id = t.1 :=
  d.filed t.1 t.2.1 (h.stored t ht).1

theorem valid_iff (h : Sealed d ts) {t : Tuple} (ht : t ∈ ts) :
    Valid d t.1 ↔ t.2.2.allPassed = true := by
  constructor
  · rintro ⟨o, ho, hp⟩
    rw [(h.stored t ht).2] at ho
    rwa [Option.some.inj ho]
  · exact fun hp => ⟨t.2.2, (h.stored t ht).2, hp⟩

theorem precedes (h : Sealed d ts) {a b : Tuple} (ha : a ∈ ts) (hb : b ∈ ts)
    (hab : ranksBefore a b = true) : Precedes d a.1 b.1 :=
  ⟨a.2.2, b.2.2, (h.stored a ha).2, (h.stored b hb).2, ranksBefore_iff.mp hab⟩

theorem exists_tuple (h : Sealed d ts) {id : ProposalId} (hid : id ∈ d.proposals.keys) :
    ∃ t ∈ ts, t.1 = id := by
  rw [← h.all.mem_iff, h.ranking] at hid
  exact List.mem_map.mp hid

end Sealed

def passing (ts : List Tuple) : List Tuple := ts.filter fun t => t.2.2.allPassed
def failing (ts : List Tuple) : List Tuple := ts.filter fun t => !t.2.2.allPassed

theorem passing_perm (ts : List Tuple) : (passing ts ++ failing ts).Perm ts :=
  List.filter_append_perm _ ts

theorem passing_passing_append (ts : List Tuple) :
    passing (passing ts ++ failing ts) = passing ts := by
  simp [passing, failing, List.filter_append, List.filter_filter]

theorem complete_ok {now : OffsetDateTime} {ranked : List RankedOutcome}
    (h : d.complete now = .ok (d', ranked)) :
    ∃ ts, Sealed d' ts ∧ ranked = numbered ts ∧ d'.taskId = d.taskId ∧
      ts.Pairwise fun a b => ranksBefore a b = true := by
  unfold Deliberation.complete at h
  simp only [except_bind_eq_ok] at h
  obtain ⟨_, _, tuples, htuples, h⟩ := h
  obtain ⟨rfl, rfl⟩ := Prod.mk.inj (Except.ok.inj h)
  obtain ⟨hkeys, hstored⟩ := materializeRankedTuples_ok.mp htuples
  have hperm := List.mergeSort_perm tuples ranksBefore
  refine ⟨tuples.mergeSort ranksBefore, ⟨rfl, rfl, ?_, ?_⟩, rfl, rfl, ?_⟩
  · exact fun t ht => hstored t (hperm.mem_iff.mp ht)
  · rw [hkeys]
    exact hperm.map Prod.fst
  · exact List.pairwise_mergeSort ranksBefore_trans ranksBefore_total tuples

theorem reordered_ids (hs : Sealed d ts) :
    (((numbered ts).filter fun c => c.outcome.allPassed) ++
      (numbered ts).filter fun c => !c.outcome.allPassed).map (fun c => c.proposal.id) =
      (passing ts ++ failing ts).map Prod.fst := by
  have hids (p : Proposal × ValidationOutcome → Bool) :
      ((numbered ts).filter fun c => p (pair c)).map (fun c => c.proposal.id) =
        (ts.filter fun t => p t.2).map Prod.fst := by
    have h := congrArg (List.map fun q : Proposal × ValidationOutcome => q.1.id)
      (filter_numbered ts p)
    simp only [List.map_map, Function.comp_def] at h
    refine h.trans (List.map_congr_left fun t ht => ?_)
    exact hs.id_eq (List.mem_of_mem_filter ht)
  rw [List.map_append, List.map_append]
  exact congrArg₂ _ (hids fun q => q.2.allPassed) (hids fun q => !q.2.allPassed)

theorem prioritizeValidOutputs_ok (hs : Sealed d ts) {ranked : List RankedOutcome}
    (h : prioritizeValidOutputs d (numbered ts) = .ok (d', ranked)) :
    Sealed d' (passing ts ++ failing ts) ∧ ranked = numbered (passing ts ++ failing ts) ∧
      d'.taskId = d.taskId := by
  have hperm := passing_perm ts
  have hstored : ∀ t ∈ passing ts ++ failing ts,
      d.proposals.get? t.1 = some t.2.1 ∧ d.outcomes.get? t.1 = some t.2.2 :=
    fun t ht => hs.stored t (hperm.mem_iff.mp ht)
  simp only [prioritizeValidOutputs, reordered_ids hs, Deliberation.reprioritize,
    except_bind_eq_ok] at h
  obtain ⟨_, _, h⟩ := h
  split at h
  · simp at h
  · rw [except_bind_eq_ok] at h
    obtain ⟨us, hus, h⟩ := h
    obtain ⟨rfl, rfl⟩ := Prod.mk.inj (Except.ok.inj h)
    rw [materializeRankedTuples_ok.mpr ⟨rfl, hstored⟩] at hus
    obtain rfl := Except.ok.inj hus
    refine ⟨⟨hs.completed, rfl, hstored, ?_⟩, rfl, rfl⟩
    refine (hperm.map Prod.fst).trans ?_
    rw [← hs.ranking]
    exact hs.all

end Sealing

section Winner

variable {d : Deliberation} {ts : List Tuple} {constraints : TaskConstraints} {c : RankedOutcome}

theorem mem_passing {t : Tuple} : t ∈ passing ts ↔ t ∈ ts ∧ t.2.2.allPassed = true := by
  simp [passing]

theorem exists_of_mem_numbered (hc : c ∈ numbered ts) :
    ∃ t ∈ ts, c.proposal = t.2.1 ∧ c.outcome = t.2.2 := by
  have hmem : pair c ∈ ts.map Prod.snd := by
    rw [← map_pair_numbered]
    exact List.mem_map_of_mem hc
  obtain ⟨t, ht, heq⟩ := List.mem_map.mp hmem
  exact ⟨t, ht, (congrArg Prod.fst heq).symm, (congrArg Prod.snd heq).symm⟩

theorem pickWinner_contract {contract : OutputContract}
    (hc : constraints.outputContract = some contract) (ranked : List RankedOutcome) :
    pickWinner ranked constraints =
      okOr (ranked.find? fun c => c.outcome.allPassed) (.noValidProposal contract.contractId) := by
  simp [pickWinner, hc]

theorem find_valid (ts : List Tuple) :
    ((numbered (passing ts ++ failing ts)).find? fun c => c.outcome.allPassed).map pair =
      (passing ts).head?.map Prod.snd := by
  refine (find_numbered _ fun q => q.2.allPassed).trans ?_
  rw [← List.head?_filter]
  exact congrArg (fun us => Option.map Prod.snd (List.head? us)) (passing_passing_append ts)

theorem bestValid {contract : OutputContract} (h : Sealed d (passing ts ++ failing ts))
    (hs : ts.Pairwise fun a b => ranksBefore a b = true)
    (hc : constraints.outputContract = some contract)
    (hw : pickWinner (numbered (passing ts ++ failing ts)) constraints = .ok c) :
    BestValid d c.proposal.id := by
  rw [pickWinner_contract hc, okOr_eq_ok] at hw
  have hfind := find_valid ts
  rw [hw] at hfind
  cases hp : passing ts with
  | nil => simp [hp] at hfind
  | cons t rest =>
    rw [hp] at hfind
    have hmem : ∀ u ∈ passing ts, u ∈ passing ts ++ failing ts := by simp +contextual
    have ht : t ∈ passing ts := by simp [hp]
    have hsorted : (t :: rest).Pairwise fun a b => ranksBefore a b = true := hp ▸ hs.filter _
    have hid : c.proposal.id = t.1 := by
      rw [show c.proposal = t.2.1 from congrArg Prod.fst (Option.some.inj hfind)]
      exact h.id_eq (hmem t ht)
    rw [hid]
    refine ⟨?_, (h.valid_iff (hmem t ht)).mpr (mem_passing.mp ht).2, fun other ho hv => ?_⟩
    · rw [OrdMap.mem_keys, OrdMap.contains_iff]
      exact ⟨_, (h.stored t (hmem t ht)).1⟩
    · obtain ⟨u, hu, rfl⟩ := h.exists_tuple ho
      have hup : u ∈ passing ts := by
        rw [mem_passing, ← (passing_perm ts).mem_iff]
        exact ⟨hu, (h.valid_iff hu).mp hv⟩
      refine h.precedes (hmem t ht) hu ?_
      rw [hp, List.mem_cons] at hup
      rcases hup with rfl | hup
      · exact ranksBefore_refl u
      · exact List.rel_of_pairwise_cons hsorted hup

end Winner

end Choreographer.WinnerSelection
