import Choreographer.SessionMemory
import Choreographer.Lib.Graphs

namespace Choreographer.Following

open Choreographer.Lib.SortedMaps Choreographer.Lib.ByteStrings Choreographer.Lib.Graphs
open Choreographer.Texts Choreographer.Values Choreographer.MemoryValues
open Choreographer.SessionMemory

instance {rule : PhraseRule} : LinearOrder (Phrase rule) :=
  LinearOrder.lift' (fun t : Phrase rule => utf8 t.asStr)
    (fun _ _ h => Phrase.ext (utf8_injective h))

/-- Where the search for a chain of reasons stands. -/
structure Search where
  frontier : List MemoryEntryId
  arrivedBy : OrdMap MemoryEntryId MemoryRelation
  seen : OrdSet MemoryEntryId

def Search.startingAt (fromEntry : MemoryEntryId) : Search :=
  ⟨[fromEntry], OrdMap.empty, OrdSet.add fromEntry OrdMap.empty⟩

/-- An entry seen for the first time is remembered with the relation that led to it. -/
def Search.meet (self : Search) (relation : MemoryRelation) : Search :=
  if self.seen.contains relation.toEntry then self
  else
    { frontier := self.frontier ++ [relation.toEntry]
      arrivedBy := self.arrivedBy.insert relation.toEntry relation
      seen := OrdSet.add relation.toEntry self.seen }

/-- Look at the entries of the frontier one after another. An entry is put there once, so
one turn for each relation and one more are enough. -/
def explore (relations : List MemoryRelation) (toEntry : MemoryEntryId) : Nat → Search → Search
  | 0, search => search
  | fuel + 1, search =>
    match search.frontier with
    | [] => search
    | here :: frontier =>
      if here = toEntry then { search with frontier }
      else
        explore relations toEntry fuel
          ((relations.filter fun relation => relation.fromEntry = here).foldl Search.meet
            { search with frontier })

/-- Go back by the relations the search came by; each entry of the map is used once. -/
def retrace (arrivedBy : OrdMap MemoryEntryId MemoryRelation) :
    Nat → MemoryEntryId → List MemoryRelation → List MemoryRelation
  | 0, _, chain => chain
  | fuel + 1, here, chain =>
    match arrivedBy.get? here with
    | none => chain
    | some relation => retrace arrivedBy fuel relation.fromEntry (chain ++ [relation])

def chain (relations : List MemoryRelation) (fromEntry toEntry : MemoryEntryId) :
    List MemoryRelation :=
  let arrivedBy := (explore relations toEntry (relations.length + 1)
    (Search.startingAt fromEntry)).arrivedBy
  (retrace arrivedBy arrivedBy.size toEntry []).reverse

def follow (self : InProcessSessionMemory) (scope : MemoryScope) (fromEntry toEntry : MemoryEntryId) :
    MemoryRecollection :=
  match self.scopes.get? scope.asStr with
  | none => .nothing
  | some remembered => .recalled [] (chain remembered.relations fromEntry toEntry)

/-- The relations lead from the first entry to the last, each on from where the one before
it ended. -/
abbrev Explains : MemoryEntryId → List MemoryRelation → MemoryEntryId → Prop :=
  Trail MemoryRelation.fromEntry MemoryRelation.toEntry

section Meeting

variable {relations : List MemoryRelation} {here : MemoryEntryId}

/-- What meeting some relations of one entry adds to a search: each new entry once, with
one of these relations. -/
structure Met (met : List MemoryRelation) (before after : Search) (new : List MemoryEntryId) :
    Prop where
  frontier : after.frontier = before.frontier ++ new
  fresh : ∀ id ∈ new, before.seen.contains id = false ∧ ∃ relation ∈ met,
    relation.toEntry = id ∧ after.arrivedBy.get? id = some relation
  others : ∀ id, id ∉ new → after.arrivedBy.get? id = before.arrivedBy.get? id
  seen : ∀ id, after.seen.contains id = true ↔ before.seen.contains id = true ∨ id ∈ new
  covered : ∀ relation ∈ met, after.seen.contains relation.toEntry = true
  size : (∀ id, before.seen.contains id = false → before.arrivedBy.get? id = none) →
    after.arrivedBy.size = before.arrivedBy.size + new.length

theorem met_foldl (met : List MemoryRelation) (search : Search) :
    ∃ new, Met met search (met.foldl Search.meet search) new := by
  induction met generalizing search with
  | nil => exact ⟨[], by simp, by simp, fun _ _ => rfl, by simp, by simp, fun _ => rfl⟩
  | cons relation rest ih =>
    rw [List.foldl_cons]
    obtain ⟨new, h⟩ := ih (search.meet relation)
    by_cases hseen : search.seen.contains relation.toEntry = true
    · rw [Search.meet, if_pos hseen] at h ⊢
      refine ⟨new, h.frontier, fun id hid => ?_, h.others, h.seen, fun r hr => ?_, h.size⟩
      · obtain ⟨hnot, r, hr, hto, harr⟩ := h.fresh id hid
        exact ⟨hnot, r, List.mem_cons_of_mem relation hr, hto, harr⟩
      · rcases List.mem_cons.mp hr with rfl | hr
        · exact (h.seen _).mpr (.inl hseen)
        · exact h.covered r hr
    · rw [Search.meet, if_neg hseen] at h ⊢
      have hself : relation.toEntry ∉ new := by
        intro hin
        have hnot := (h.fresh _ hin).1
        simp at hnot
      refine ⟨relation.toEntry :: new, ?_, fun id hid => ?_, fun id hid => ?_, fun id => ?_,
        fun r hr => ?_, fun hnone => ?_⟩
      · rw [h.frontier, List.append_assoc, List.singleton_append]
      · rcases List.mem_cons.mp hid with rfl | hid
        · refine ⟨Bool.eq_false_of_not_eq_true hseen, relation, List.mem_cons_self, rfl, ?_⟩
          rw [h.others _ hself, OrdMap.get?_insert_self]
        · obtain ⟨hnot, r, hr, hto, harr⟩ := h.fresh id hid
          rw [OrdSet.contains_add, Bool.or_eq_false_iff] at hnot
          exact ⟨hnot.2, r, List.mem_cons_of_mem relation hr, hto, harr⟩
      · have hne : id ≠ relation.toEntry := fun heq => hid (heq ▸ List.mem_cons_self)
        rw [h.others id fun hin => hid (List.mem_cons_of_mem _ hin), OrdMap.get?_insert_ne _ hne]
      · simp only [h.seen, OrdSet.contains_add, Bool.or_eq_true, decide_eq_true_eq, List.mem_cons]
        tauto
      · rcases List.mem_cons.mp hr with rfl | hr
        · exact (h.seen _).mpr (.inl (by simp))
        · exact h.covered r hr
      · have hfresh := hnone _ (Bool.eq_false_of_not_eq_true hseen)
        have hsize := h.size fun id hid => ?_
        · rw [hsize, OrdMap.size_insert_of_not_contains (by simp [OrdMap.contains, hfresh]),
            List.length_cons]
          omega
        · simp only [OrdSet.contains_add, Bool.or_eq_false_iff, decide_eq_false_iff_not] at hid
          rw [OrdMap.get?_insert_ne _ hid.1]
          exact hnone id hid.2

/-- The turns a search has left at most: the entries of its frontier, and the relations to
entries it has not seen. -/
def Search.turns (relations : List MemoryRelation) (search : Search) : Nat :=
  search.frontier.length + relations.countP fun relation => !search.seen.contains relation.toEntry

theorem turns_meet {relation : MemoryRelation} (h : relation ∈ relations) (search : Search) :
    (search.meet relation).turns relations ≤ search.turns relations := by
  by_cases hseen : search.seen.contains relation.toEntry = true
  · rw [Search.meet, if_pos hseen]
  · have hlt : relations.countP (fun r =>
        !(OrdSet.add relation.toEntry search.seen).contains r.toEntry) <
        relations.countP fun r => !search.seen.contains r.toEntry := by
      refine countP_lt (fun r _ hr => ?_) h (by simpa using hseen) (by simp)
      simp only [OrdSet.contains_add, Bool.not_or, Bool.and_eq_true] at hr
      exact hr.2
    rw [Search.meet, if_neg hseen]
    simp only [Search.turns, List.length_append, List.length_singleton]
    omega

theorem turns_foldl {met : List MemoryRelation} (h : ∀ relation ∈ met, relation ∈ relations)
    (search : Search) : (met.foldl Search.meet search).turns relations ≤ search.turns relations := by
  induction met generalizing search with
  | nil => exact Nat.le_refl _
  | cons relation rest ih =>
    have hrest := ih (fun r hr => h r (List.mem_cons_of_mem relation hr)) (search.meet relation)
    exact Nat.le_trans hrest (turns_meet (h relation List.mem_cons_self) search)

end Meeting

section Exploring

variable {relations : List MemoryRelation} {start toEntry : MemoryEntryId}

/-- A breadth-first search whose entries lie no deeper than it has arrivals. -/
structure Stands (relations : List MemoryRelation) (start : MemoryEntryId)
    (frontier : List MemoryEntryId) (search : Search) (depth : MemoryEntryId → Nat) : Prop where
  layered : Layered MemoryRelation.fromEntry MemoryRelation.toEntry relations start frontier
    (fun id => search.seen.contains id = true) search.arrivedBy.get? depth
  shallow : ∀ id, search.seen.contains id = true → depth id ≤ search.arrivedBy.size

theorem stands_startingAt :
    Stands relations start [start] (Search.startingAt start) fun _ => 0 := by
  refine ⟨?_, fun _ _ => Nat.zero_le _⟩
  have hseen : (fun id => (Search.startingAt start).seen.contains id = true) =
      fun id => id = start := by
    funext id
    simp [Search.startingAt, OrdMap.contains, OrdSet.add, OrdMap.get?_insert]
  rw [hseen]
  exact Layered.initially

theorem stands_expand {here : MemoryEntryId} {frontier : List MemoryEntryId} {search : Search}
    {depth : MemoryEntryId → Nat} (h : Stands relations start (here :: frontier) search depth) :
    ∃ depth', Stands relations start
      ((relations.filter fun r => r.fromEntry = here).foldl Search.meet
        { search with frontier }).frontier
      ((relations.filter fun r => r.fromEntry = here).foldl Search.meet { search with frontier })
      depth' := by
  obtain ⟨new, hmet⟩ := met_foldl (relations.filter fun r => r.fromEntry = here)
    { search with frontier }
  have hout : ∀ relation ∈ relations.filter (fun r => r.fromEntry = here),
      relation ∈ relations ∧ relation.fromEntry = here := by
    intro relation hr
    simpa using List.mem_filter.mp hr
  have hexp : Expansion MemoryRelation.fromEntry MemoryRelation.toEntry relations here new
      (fun id => search.seen.contains id = true)
      (fun id => ((relations.filter fun r => r.fromEntry = here).foldl Search.meet
        { search with frontier }).seen.contains id = true) search.arrivedBy.get?
      ((relations.filter fun r => r.fromEntry = here).foldl Search.meet
        { search with frontier }).arrivedBy.get? := by
    refine ⟨fun id hid => ?_, hmet.others, hmet.seen, fun relation hr hfrom => ?_⟩
    · obtain ⟨hnot, relation, hr, hto, harr⟩ := hmet.fresh id hid
      exact ⟨by simpa using hnot, relation, (hout relation hr).1, (hout relation hr).2, hto, harr⟩
    · exact hmet.covered relation (List.mem_filter.mpr ⟨hr, by simpa using hfrom⟩)
  have hlayers := h.layered.expand hexp
  rw [hmet.frontier]
  refine ⟨_, hlayers, fun id hid => ?_⟩
  have hsize := hmet.size fun id hid => h.layered.unseen id (by simpa using hid)
  have hhere := h.shallow here (h.layered.queued here List.mem_cons_self)
  rw [hsize]
  by_cases hin : id ∈ new
  · have hpos := List.length_pos_of_mem hin
    rw [deepen_new hin]
    show _ ≤ search.arrivedBy.size + _
    omega
  · have hid' := hexp.old hid hin
    have hle := h.shallow id hid'
    rw [hexp.deepen_seen hid']
    show _ ≤ search.arrivedBy.size + _
    omega

theorem explore_ends (fuel : Nat) {search : Search} {depth : MemoryEntryId → Nat}
    (hfuel : search.turns relations ≤ fuel)
    (h : Stands relations start search.frontier search depth)
    (hpast : ∀ id, search.seen.contains id = true → id ∉ search.frontier → id ≠ toEntry) :
    ∃ frontier depth', Stands relations start frontier (explore relations toEntry fuel search) depth' ∧
      (frontier.head? = some toEntry ∨ frontier = [] ∧
        (explore relations toEntry fuel search).seen.contains toEntry = false) := by
  induction fuel generalizing search depth with
  | zero =>
    have hnil : search.frontier = [] := by
      refine List.eq_nil_of_length_eq_zero ?_
      simp only [Search.turns] at hfuel
      omega
    rw [hnil] at h
    refine ⟨[], depth, h, .inr ⟨rfl, ?_⟩⟩
    by_contra hc
    exact hpast toEntry (by simpa [explore] using hc) (by simp [hnil]) rfl
  | succ fuel ih =>
    cases hf : search.frontier with
    | nil =>
      rw [hf] at h
      simp only [explore, hf]
      refine ⟨[], depth, h, .inr ⟨rfl, ?_⟩⟩
      by_contra hc
      exact hpast toEntry (by simpa using hc) (by simp [hf]) rfl
    | cons here frontier =>
      rw [hf] at h
      simp only [explore, hf]
      by_cases heq : here = toEntry
      · rw [if_pos heq]
        exact ⟨here :: frontier, depth, ⟨h.layered, h.shallow⟩, .inl (by rw [heq]; rfl)⟩
      · rw [if_neg heq]
        obtain ⟨new, hmet⟩ := met_foldl (relations.filter fun r => r.fromEntry = here)
          { search with frontier }
        obtain ⟨depth', hnext⟩ := stands_expand h
        refine ih ?_ hnext fun id hid hout hsame => ?_
        · have hsub : ∀ r ∈ relations.filter (fun r => r.fromEntry = here), r ∈ relations :=
            fun r hr => (List.mem_filter.mp hr).1
          have hle := turns_foldl hsub { search with frontier }
          simp only [Search.turns, hf, List.length_cons] at hfuel hle ⊢
          omega
        · rw [hmet.frontier, List.mem_append, not_or] at hout
          have hold := ((hmet.seen id).mp hid).resolve_right hout.2
          refine hpast id hold ?_ hsame
          rw [hf, List.mem_cons, not_or]
          exact ⟨fun hid' => heq (hid'.symm.trans hsame), hout.1⟩

theorem retrace_spec {frontier : List MemoryEntryId} {search : Search} {depth : MemoryEntryId → Nat}
    (h : Stands relations start frontier search depth) (fuel : Nat) {here : MemoryEntryId}
    (hseen : search.seen.contains here = true) (hfuel : depth here ≤ fuel)
    (back : List MemoryRelation) :
    ∃ found, retrace search.arrivedBy fuel here back = back ++ found.reverse ∧
      (∀ relation ∈ found, relation ∈ relations) ∧ Explains start found here ∧
      found.length = depth here := by
  induction fuel generalizing here back with
  | zero =>
    by_cases hstart : here = start
    · subst hstart
      exact ⟨[], by simp [retrace], by simp, rfl, h.layered.startDepth.symm⟩
    · obtain ⟨_, _, _, _, _, hdepth⟩ := h.layered.arrivedBy here hseen hstart
      omega
  | succ fuel ih =>
    by_cases hstart : here = start
    · subst hstart
      exact ⟨[], by simp [retrace, h.layered.startArrived], by simp, rfl,
        h.layered.startDepth.symm⟩
    · obtain ⟨relation, hr, harr, hto, hfrom, hdepth⟩ := h.layered.arrivedBy here hseen hstart
      obtain ⟨found, hfound, hall, hexplains, hlen⟩ := ih hfrom (by omega) (back ++ [relation])
      refine ⟨found ++ [relation], ?_, fun r hmem => ?_, trail_concat.mpr ⟨hexplains, hto⟩, ?_⟩
      · rw [retrace, harr]
        simpa using hfound
      · rcases List.mem_append.mp hmem with hmem | hmem
        · exact hall r hmem
        · rwa [List.mem_singleton.mp hmem]
      · rw [List.length_append, List.length_singleton, hlen, hdepth]

theorem retrace_unseen {arrivedBy : OrdMap MemoryEntryId MemoryRelation} {here : MemoryEntryId}
    (h : arrivedBy.get? here = none) (fuel : Nat) (back : List MemoryRelation) :
    retrace arrivedBy fuel here back = back := by
  cases fuel with
  | zero => rfl
  | succ fuel => rw [retrace, h]

/-- A chain is a shortest way from one entry to the other, or there is none and it is
empty. -/
theorem chain_spec (relations : List MemoryRelation) (start toEntry : MemoryEntryId) :
    (∀ relation ∈ chain relations start toEntry, relation ∈ relations) ∧
      (Explains start (chain relations start toEntry) toEntry ∧
        (∀ path, (∀ relation ∈ path, relation ∈ relations) → Explains start path toEntry →
          (chain relations start toEntry).length ≤ path.length) ∨
      chain relations start toEntry = [] ∧
        ∀ path, (∀ relation ∈ path, relation ∈ relations) → ¬ Explains start path toEntry) := by
  have hturns : (Search.startingAt start).turns relations ≤ relations.length + 1 := by
    have hle := List.countP_le_length (p := fun r : MemoryRelation =>
      !(Search.startingAt start).seen.contains r.toEntry) (l := relations)
    simp only [Search.turns]
    show 1 + _ ≤ _
    omega
  have hpast : ∀ id, (Search.startingAt start).seen.contains id = true →
      id ∉ (Search.startingAt start).frontier → id ≠ toEntry := by
    intro id hid hout
    simp [Search.startingAt, OrdMap.contains, OrdSet.add, OrdMap.get?_insert] at hid hout
    exact absurd hid hout
  obtain ⟨frontier, depth, h, hend⟩ := explore_ends _ hturns stands_startingAt hpast
  unfold chain
  rcases hend with hhead | ⟨rfl, hunseen⟩
  · obtain ⟨rest, rfl⟩ : ∃ rest, frontier = toEntry :: rest := by
      cases frontier with
      | nil => simp at hhead
      | cons first rest => exact ⟨rest, by rw [Option.some.inj hhead]⟩
    have hseen := h.layered.queued toEntry List.mem_cons_self
    obtain ⟨found, hfound, hall, hexplains, hlen⟩ :=
      retrace_spec h _ hseen (h.shallow toEntry hseen) []
    simp only [hfound, List.nil_append, List.reverse_reverse]
    refine ⟨hall, .inl ⟨hexplains, fun path hpath hleads => ?_⟩⟩
    rw [hlen]
    exact h.layered.head_shortest hpath hleads
  · have hnone := h.layered.unseen toEntry (by simp [hunseen])
    simp only [retrace_unseen hnone, List.reverse_nil]
    refine ⟨by simp, .inr ⟨trivial, fun path hpath hleads => ?_⟩⟩
    have hseen := h.layered.seen_of_trail hpath hleads
    simp [hunseen] at hseen

end Exploring

theorem follow_eq (self : InProcessSessionMemory) (scope : MemoryScope)
    (fromEntry toEntry : MemoryEntryId) : follow self scope fromEntry toEntry =
      .recalled [] (chain (self.held scope).relations fromEntry toEntry) := by
  unfold follow InProcessSessionMemory.held
  cases self.scopes.get? scope.asStr with
  | none =>
    have hnil : chain [] fromEntry toEntry = [] :=
      List.eq_nil_iff_forall_not_mem.mpr fun r hr =>
        List.not_mem_nil ((chain_spec [] fromEntry toEntry).1 r hr)
    show MemoryRecollection.nothing = .recalled [] (chain [] fromEntry toEntry)
    rw [hnil]
    rfl
  | some remembered => rfl

/-- Following reasons finds remembered relations that lead from the one entry to the other
by a shortest way, and nothing exactly where there is no way or no need of one. -/
theorem follow_shortest (self : InProcessSessionMemory) (scope : MemoryScope)
    (fromEntry toEntry : MemoryEntryId) :
    ∃ found, follow self scope fromEntry toEntry = .recalled [] found ∧
      (∀ relation ∈ found, relation ∈ (self.held scope).relations) ∧
      (found ≠ [] → Explains fromEntry found toEntry) ∧
      (∀ path, (∀ relation ∈ path, relation ∈ (self.held scope).relations) →
        Explains fromEntry path toEntry → found.length ≤ path.length) ∧
      (found = [] ↔ fromEntry = toEntry ∨ ¬ ∃ path,
        (∀ relation ∈ path, relation ∈ (self.held scope).relations) ∧
          Explains fromEntry path toEntry) := by
  refine ⟨_, follow_eq self scope fromEntry toEntry, ?_⟩
  obtain ⟨hall, ⟨hleads, hshort⟩ | ⟨hnil, hnone⟩⟩ :=
    chain_spec (self.held scope).relations fromEntry toEntry
  · refine ⟨hall, fun _ => hleads, hshort, fun hnil => ?_, ?_⟩
    · rw [hnil] at hleads
      exact .inl hleads
    · rintro (rfl | hno)
      · have hle := hshort [] (by simp) rfl
        exact List.eq_nil_of_length_eq_zero (Nat.le_zero.mp hle)
      · exact absurd ⟨_, hall, hleads⟩ hno
  · refine ⟨hall, fun hne => absurd hnil hne, fun path hpath hleads => ?_, fun _ => ?_, fun _ => hnil⟩
    · exact absurd hleads (hnone path hpath)
    · exact .inr fun ⟨path, hpath, hleads⟩ => hnone path hpath hleads

end Choreographer.Following
