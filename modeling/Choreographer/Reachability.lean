import Choreographer.DefinitionParts
import Choreographer.Lib.Graphs

namespace Choreographer.Reachability

open Choreographer.Lib.SortedMaps Choreographer.Lib.Graphs
open Choreographer.Texts Choreographer.Values Choreographer.DefinitionParts
open Choreographer.DefinitionParts.CeremonyDefinitionParts

section Graph

variable (parts : CeremonyDefinitionParts)

/-- Some transition goes from the one state to the other. -/
def Leads (transitions : List CeremonyTransition) (a b : StateId) : Prop :=
  ∃ t ∈ transitions, t.fromState = a ∧ t.toState = b

def Reaches : StateId → StateId → Prop := Relation.ReflTransGen (Leads parts.transitions)

def IsTerminal (id : StateId) : Prop :=
  ∃ state, parts.states.get? id = some state ∧ state.isTerminal = true

/-- Some way leads on to a terminal state. -/
def CanFinish (id : StateId) : Prop := ∃ last, IsTerminal parts last ∧ Reaches parts id last

/-- A graph sound enough to walk, from its one initial state. -/
structure Walkable (initial : StateId) : Prop where
  sole : ∃ state, parts.states.get? initial = some state ∧ state.isInitial = true ∧
    ∀ id other, parts.states.get? id = some other → other.isInitial = true → id = initial
  resolves : ∀ t ∈ parts.transitions, parts.states.contains t.fromState = true ∧
    parts.states.contains t.toState = true
  ends : ∃ last, IsTerminal parts last

end Graph

section Forward

variable {transitions : List CeremonyTransition} {start : StateId}

/-- One turn of the walk: the state on top of the pending ones is taken off, and where it
leads to goes on top unless it was reached before. -/
def turn (transitions : List CeremonyTransition) :
    List StateId × OrdSet StateId → List StateId × OrdSet StateId
  | ([], reached) => ([], reached)
  | (current :: pending, reached) =>
    if reached.contains current then (pending, reached)
    else
      (((transitions.filter fun t => t.fromState = current).map
        CeremonyTransition.toState).reverse ++ pending, OrdSet.add current reached)

def untaken (transitions : List CeremonyTransition) (reached : OrdSet StateId) : Nat :=
  transitions.countP fun t => !reached.contains t.fromState

theorem untaken_add {current : StateId} {reached : OrdSet StateId}
    (h : reached.contains current = false) (transitions : List CeremonyTransition) :
    untaken transitions (OrdSet.add current reached) +
      (transitions.filter fun t => t.fromState = current).length = untaken transitions reached := by
  unfold untaken
  induction transitions with
  | nil => rfl
  | cons t rest ih =>
    rw [List.countP_cons, List.countP_cons, List.filter_cons]
    simp only [OrdSet.contains_add] at ih ⊢
    by_cases hc : t.fromState = current
    · simp only [hc, decide_true, Bool.true_or, h, if_true, List.length_cons, Bool.not_true,
        Bool.not_false, Bool.false_eq_true, if_false]
      omega
    · simp only [hc, decide_false, Bool.false_or, Bool.false_eq_true, if_false]
      omega

theorem mem_targets {current next : StateId} :
    next ∈ ((transitions.filter fun t => t.fromState = current).map
      CeremonyTransition.toState).reverse ↔ Leads transitions current next := by
  simp only [List.mem_reverse, List.mem_map, List.mem_filter, decide_eq_true_eq, Leads, and_assoc]

/-- With a turn for each pending state and each transition not taken yet, the walk ends by
itself. -/
theorem walk_ends (fuel : Nat) {pending : List StateId} {reached : OrdSet StateId}
    (hfuel : pending.length + untaken transitions reached ≤ fuel)
    (h : Searching (Leads transitions) start pending fun id => reached.contains id = true) :
    (∃ n, (turn transitions)^[n] (pending, reached) = ([], walk transitions fuel pending reached)) ∧
      Searching (Leads transitions) start []
        fun id => (walk transitions fuel pending reached).contains id = true := by
  induction fuel generalizing pending reached with
  | zero =>
    obtain rfl : pending = [] := List.eq_nil_of_length_eq_zero (by omega)
    exact ⟨⟨0, rfl⟩, h⟩
  | succ fuel ih =>
    cases pending with
    | nil => exact ⟨⟨0, rfl⟩, h⟩
    | cons current pending =>
      rw [List.length_cons] at hfuel
      by_cases hc : reached.contains current = true
      · obtain ⟨⟨n, hn⟩, hs⟩ := ih (by omega) (h.skip hc)
        simp only [walk, hc, if_true]
        refine ⟨⟨n + 1, ?_⟩, hs⟩
        rw [Function.iterate_succ_apply, turn, if_pos hc, hn]
      · have hsplit := untaken_add (Bool.eq_false_of_not_eq_true hc) transitions
        have hnext : Searching (Leads transitions) start
            (((transitions.filter fun t => t.fromState = current).map
              CeremonyTransition.toState).reverse ++ pending)
            fun id => (OrdSet.add current reached).contains id = true := by
          refine h.expand (fun _ => mem_targets) fun id => ?_
          rw [OrdSet.contains_add, Bool.or_eq_true, decide_eq_true_eq]
        obtain ⟨⟨n, hn⟩, hs⟩ := ih (by
          rw [List.length_append, List.length_reverse, List.length_map]
          omega) hnext
        simp only [walk, Bool.eq_false_of_not_eq_true hc, Bool.false_eq_true, if_false]
        refine ⟨⟨n + 1, ?_⟩, hs⟩
        rw [Function.iterate_succ_apply, turn, if_neg hc, hn]

end Forward

section Backward

variable {transitions : List CeremonyTransition}

def finishTurn (acc : OrdSet StateId × Bool) (t : CeremonyTransition) : OrdSet StateId × Bool :=
  if acc.1.contains t.toState && !acc.1.contains t.fromState then
    (OrdSet.add t.fromState acc.1, true)
  else acc

theorem finishPass_eq (canFinish : OrdSet StateId) :
    finishPass transitions canFinish = transitions.foldl finishTurn (canFinish, false) := rfl

/-- A pass only adds states that some transition takes to one that can finish, and it says
whether it did. -/
structure Passed (transitions : List CeremonyTransition) (before after : OrdSet StateId × Bool) :
    Prop where
  keeps : ∀ id, before.1.contains id = true → after.1.contains id = true
  sound : ∀ P : StateId → Prop, (∀ t ∈ transitions, P t.toState → P t.fromState) →
    (∀ id, before.1.contains id = true → P id) → ∀ id, after.1.contains id = true → P id
  rests : after.2 = false → before.2 = false ∧ after.1 = before.1 ∧ ∀ t ∈ transitions,
    before.1.contains t.toState = true → before.1.contains t.fromState = true
  grows : after.2 = true → before.2 = true ∨ ∃ t ∈ transitions,
    before.1.contains t.fromState = false ∧ after.1.contains t.fromState = true

theorem passed_foldl (transitions : List CeremonyTransition) (acc : OrdSet StateId × Bool) :
    Passed transitions acc (transitions.foldl finishTurn acc) := by
  induction transitions generalizing acc with
  | nil =>
    exact ⟨fun _ h => h, fun _ _ h => h, fun h => ⟨h, rfl, by simp⟩, fun h => .inl h⟩
  | cons t rest ih =>
    have h := ih (finishTurn acc t)
    rw [List.foldl_cons]
    by_cases hc : (acc.1.contains t.toState && !acc.1.contains t.fromState) = true
    · rw [finishTurn, if_pos hc] at h ⊢
      simp only [Bool.and_eq_true, Bool.not_eq_true'] at hc
      refine ⟨fun id hid => h.keeps id ?_, fun P hP hacc => ?_, fun hrest => ?_, fun _ => ?_⟩
      · rw [OrdSet.contains_add, hid, Bool.or_true]
      · refine h.sound P (fun u hu => hP u (List.mem_cons_of_mem t hu)) fun id hid => ?_
        rw [OrdSet.contains_add, Bool.or_eq_true, decide_eq_true_eq] at hid
        rcases hid with rfl | hid
        · exact hP t List.mem_cons_self (hacc _ hc.1)
        · exact hacc id hid
      · exact absurd (h.rests hrest).1 (by simp)
      · refine .inr ⟨t, List.mem_cons_self, hc.2, h.keeps _ ?_⟩
        rw [OrdSet.contains_add, decide_eq_true rfl, Bool.true_or]
    · rw [finishTurn, if_neg hc] at h ⊢
      refine ⟨h.keeps, fun P hP => ?_, fun hrest => ?_, fun hgrew => ?_⟩
      · exact h.sound P fun u hu => hP u (List.mem_cons_of_mem t hu)
      · obtain ⟨hflag, hsame, hclosed⟩ := h.rests hrest
        refine ⟨hflag, hsame, fun u hu hto => ?_⟩
        rcases List.mem_cons.mp hu with rfl | hu
        · by_contra hfrom
          exact hc (by simp [hto, hfrom])
        · exact hclosed u hu hto
      · rcases h.grows hgrew with hflag | ⟨u, hu, hgrown⟩
        · exact .inl hflag
        · exact .inr ⟨u, List.mem_cons_of_mem t hu, hgrown⟩

theorem passed_finishPass (transitions : List CeremonyTransition) (canFinish : OrdSet StateId) :
    Passed transitions (canFinish, false) (finishPass transitions canFinish) := by
  rw [finishPass_eq]
  exact passed_foldl transitions (canFinish, false)

theorem untaken_lt {before after : OrdSet StateId} {t : CeremonyTransition}
    (hkeeps : ∀ id, before.contains id = true → after.contains id = true) (ht : t ∈ transitions)
    (hbefore : before.contains t.fromState = false) (hafter : after.contains t.fromState = true) :
    untaken transitions after < untaken transitions before := by
  refine countP_lt (fun u _ hu => ?_) ht (by simp [hbefore]) (by simp [hafter])
  by_contra hn
  simp only [Bool.not_eq_true', Bool.not_eq_false] at hu hn
  rw [hkeeps _ hn] at hu
  simp at hu

def passes (transitions : List CeremonyTransition) (n : Nat) (canFinish : OrdSet StateId) :
    OrdSet StateId := (fun s => (finishPass transitions s).1)^[n] canFinish

/-- With a pass for each transition not taken yet and one more, the passes end by
themselves: every one but the last adds something. -/
theorem finishPasses_ends (fuel : Nat) {canFinish : OrdSet StateId}
    (hfuel : untaken transitions canFinish < fuel) :
    ∃ n, finishPasses transitions fuel canFinish = passes transitions n canFinish ∧
      (∀ k < n, (finishPass transitions (passes transitions k canFinish)).2 = true) ∧
      finishPass transitions (passes transitions n canFinish) =
        (passes transitions n canFinish, false) := by
  induction fuel generalizing canFinish with
  | zero => omega
  | succ fuel ih =>
    have h := passed_finishPass transitions canFinish
    cases hpass : finishPass transitions canFinish with
    | mk grown grew =>
      rw [hpass] at h
      cases grew with
      | false =>
        obtain ⟨_, rfl, _⟩ := h.rests rfl
        exact ⟨0, by simp [finishPasses, hpass, passes], by simp, hpass⟩
      | true =>
        obtain ⟨t, ht, hbefore, hafter⟩ := (h.grows rfl).resolve_left (by simp)
        have hlt : untaken transitions grown < untaken transitions canFinish :=
          untaken_lt h.keeps ht hbefore hafter
        have hfuel' : untaken transitions grown < fuel := by omega
        obtain ⟨n, hn, hgrew, hlast⟩ := ih hfuel'
        have hstep : ∀ k, passes transitions (k + 1) canFinish = passes transitions k grown := by
          intro k
          rw [passes, Function.iterate_succ_apply, hpass, passes]
        refine ⟨n + 1, ?_, fun k hk => ?_, ?_⟩
        · rw [finishPasses, hpass, hstep]
          exact hn
        · cases k with
          | zero => rw [passes, Function.iterate_zero, id, hpass]
          | succ k => rw [hstep]; exact hgrew k (by omega)
        · rw [hstep, hlast]

end Backward

section Computed

variable (parts : CeremonyDefinitionParts)

theorem untaken_le (transitions : List CeremonyTransition) (reached : OrdSet StateId) :
    untaken transitions reached ≤ transitions.length := List.countP_le_length

theorem statesReachableFrom_spec (initial : StateId) :
    (∃ n, (turn parts.transitions)^[n] ([initial], OrdMap.empty) =
      ([], parts.statesReachableFrom initial)) ∧
    ∀ id, (parts.statesReachableFrom initial).contains id = true ↔ Reaches parts initial id := by
  have hle := untaken_le parts.transitions OrdMap.empty
  have hstart : Searching (Leads parts.transitions) initial [initial]
      fun id => (OrdMap.empty : OrdSet StateId).contains id = true := by
    simp only [OrdMap.contains, OrdMap.get?_empty, Option.isSome_none, Bool.false_eq_true]
    exact Searching.initially
  obtain ⟨hends, hs⟩ := walk_ends (parts.transitions.length + 1) (by
    rw [List.length_singleton]
    omega) hstart
  exact ⟨hends, hs.complete⟩

def terminals : OrdSet StateId :=
  OrdSet.ofList ((parts.states.entries.filter fun entry => entry.2.isTerminal).map Prod.fst)

theorem mem_terminals (id : StateId) : (terminals parts).contains id = true ↔ IsTerminal parts id := by
  rw [← OrdMap.mem_keys, terminals, OrdSet.mem_keys_ofList, List.mem_map]
  constructor
  · rintro ⟨⟨_, state⟩, hmem, rfl⟩
    obtain ⟨hentry, hterm⟩ := List.mem_filter.mp hmem
    exact ⟨state, OrdMap.mem_entries.mp hentry, hterm⟩
  · rintro ⟨state, hget, hterm⟩
    exact ⟨(id, state), List.mem_filter.mpr ⟨OrdMap.mem_entries.mpr hget, hterm⟩, rfl⟩

theorem passes_sound {P : StateId → Prop}
    (hP : ∀ t ∈ parts.transitions, P t.toState → P t.fromState) {canFinish : OrdSet StateId}
    (h : ∀ id, canFinish.contains id = true → P id) (n : Nat) (id : StateId)
    (hid : (passes parts.transitions n canFinish).contains id = true) : P id := by
  induction n generalizing id with
  | zero => exact h id hid
  | succ n ih =>
    rw [passes, Function.iterate_succ_apply'] at hid
    exact (passed_finishPass parts.transitions _).sound P hP ih id hid

theorem passes_keeps {canFinish : OrdSet StateId} {id : StateId}
    (h : canFinish.contains id = true) (n : Nat) :
    (passes parts.transitions n canFinish).contains id = true := by
  induction n with
  | zero => exact h
  | succ n ih =>
    rw [passes, Function.iterate_succ_apply']
    exact (passed_finishPass parts.transitions _).keeps id ih

theorem statesThatReachATerminal_spec :
    (∃ n, parts.statesThatReachATerminal = passes parts.transitions n (terminals parts) ∧
      (∀ k < n,
        (finishPass parts.transitions (passes parts.transitions k (terminals parts))).2 = true) ∧
      finishPass parts.transitions (passes parts.transitions n (terminals parts)) =
        (passes parts.transitions n (terminals parts), false)) ∧
    ∀ id, parts.statesThatReachATerminal.contains id = true ↔ CanFinish parts id := by
  have hle := untaken_le parts.transitions (terminals parts)
  have hfuel : untaken parts.transitions (terminals parts) < parts.transitions.length + 1 := by omega
  have heq : parts.statesThatReachATerminal =
    finishPasses parts.transitions (parts.transitions.length + 1) (terminals parts) := rfl
  obtain ⟨n, hn, hgrew, hlast⟩ := finishPasses_ends _ hfuel
  rw [← heq] at hn
  refine ⟨⟨n, hn, hgrew, hlast⟩, gathered_iff (fun id hid => ?_) (fun id hid => ?_) ?_⟩
  · rw [hn]
    exact passes_keeps parts ((mem_terminals parts id).mpr hid) n
  · rw [hn] at hid
    show CanFinish parts id
    refine passes_sound parts ?_ (fun id hid => ?_) n id hid
    · rintro t ht ⟨last, hterm, hreach⟩
      exact ⟨last, hterm, hreach.head ⟨t, ht, rfl, rfl⟩⟩
    · exact ⟨id, (mem_terminals parts id).mp hid, .refl⟩
  · rintro _ _ ⟨t, ht, rfl, rfl⟩ hto
    have hpassed := passed_finishPass parts.transitions (passes parts.transitions n (terminals parts))
    rw [hlast] at hpassed
    rw [hn] at hto ⊢
    exact (hpassed.rests rfl).2.2 t ht hto

end Computed

section Reported

variable {parts : CeremonyDefinitionParts} {initial : StateId}

theorem soleInitialStateId_iff : parts.soleInitialStateId = some initial ↔
    ∃ state, parts.states.get? initial = some state ∧ state.isInitial = true ∧
      ∀ id other, parts.states.get? id = some other → other.isInitial = true → id = initial := by
  have hmem : ∀ id state, (id, state) ∈ parts.states.entries.filter (fun e => e.2.isInitial) ↔
      parts.states.get? id = some state ∧ state.isInitial = true := by
    intro id state
    rw [List.mem_filter, OrdMap.mem_entries]
  unfold soleInitialStateId
  constructor
  · intro h
    split at h
    · next entry hone =>
      rw [hone] at hmem
      obtain rfl := Option.some.inj h
      obtain ⟨hget, hinit⟩ := (hmem entry.1 entry.2).mp List.mem_cons_self
      refine ⟨entry.2, hget, hinit, fun id other hother hinit' => ?_⟩
      have hsame := (hmem id other).mpr ⟨hother, hinit'⟩
      rw [List.mem_singleton] at hsame
      rw [← hsame]
    · simp at h
  · rintro ⟨state, hget, hinit, hsole⟩
    have hall : ∀ e ∈ parts.states.entries.filter (fun e => e.2.isInitial), e = (initial, state) := by
      rintro ⟨id, other⟩ he
      obtain ⟨hother, hinit'⟩ := (hmem id other).mp he
      obtain rfl := hsole id other hother hinit'
      rw [Option.some.inj (hget.symm.trans hother)]
    have hnodup : (parts.states.entries.filter fun e => e.2.isInitial).Nodup :=
      List.Nodup.filter _ (List.Nodup.of_map Prod.fst parts.states.nodup_keys)
    have hone : parts.states.entries.filter (fun e => e.2.isInitial) = [(initial, state)] := by
      refine List.perm_singleton.mp ((List.perm_ext_iff_of_nodup hnodup (by simp)).mpr fun e => ?_)
      rw [List.mem_singleton]
      refine ⟨hall e, ?_⟩
      rintro rfl
      exact (hmem initial state).mpr ⟨hget, hinit⟩
    rw [hone]

theorem walkable_iff : Walkable parts initial ↔ parts.soleInitialStateId = some initial ∧
    parts.transitionEndpointsResolve = true ∧
    (parts.states.values.any fun state => state.isTerminal) = true := by
  have hends : (parts.states.values.any fun state => state.isTerminal) = true ↔
      ∃ last, IsTerminal parts last := by
    rw [List.any_eq_true]
    constructor
    · rintro ⟨state, hmem, hterm⟩
      obtain ⟨id, hget⟩ := OrdMap.mem_values.mp hmem
      exact ⟨id, state, hget, hterm⟩
    · rintro ⟨id, state, hget, hterm⟩
      exact ⟨state, OrdMap.mem_values.mpr ⟨id, hget⟩, hterm⟩
  rw [soleInitialStateId_iff, hends]
  simp only [transitionEndpointsResolve, List.all_eq_true, Bool.and_eq_true]
  exact ⟨fun h => ⟨h.sole, h.resolves, h.ends⟩, fun h => ⟨h.1, h.2.1, h.2.2⟩⟩

def remark (reachable canFinish : OrdSet StateId) (id : StateId) : List CeremonyValidationFinding :=
  if !reachable.contains id then
    [.warning (.state id)
      (.invariantViolated "ceremony state is unreachable from the initial state")]
  else if !canFinish.contains id then
    [.warning (.state id)
      (.invariantViolated "no terminal state is reachable from this ceremony state")]
  else []

theorem mem_remark {reachable canFinish : OrdSet StateId} {id other : StateId}
    {defect : DomainError} :
    CeremonyValidationFinding.warning (.state id) defect ∈ remark reachable canFinish other ↔
      id = other ∧ (reachable.contains id = false ∧
        defect = .invariantViolated "ceremony state is unreachable from the initial state" ∨
      reachable.contains id = true ∧ canFinish.contains id = false ∧
        defect = .invariantViolated
          "no terminal state is reachable from this ceremony state") := by
  unfold remark
  cases hr : reachable.contains other with
  | false =>
    simp only [Bool.not_false, if_true, List.mem_singleton, CeremonyValidationFinding.warning,
      CeremonyValidationFinding.mk.injEq, CeremonyValidationLocus.state.injEq, true_and]
    constructor
    · rintro ⟨rfl, hd⟩
      exact ⟨rfl, .inl ⟨hr, hd⟩⟩
    · rintro ⟨rfl, ⟨_, hd⟩ | ⟨hr', _⟩⟩
      · exact ⟨rfl, hd⟩
      · simp [hr] at hr'
  | true =>
    cases hf : canFinish.contains other with
    | false =>
      simp only [Bool.not_true, Bool.false_eq_true, if_false, Bool.not_false, if_true,
        List.mem_singleton, CeremonyValidationFinding.warning, CeremonyValidationFinding.mk.injEq,
        CeremonyValidationLocus.state.injEq, true_and]
      constructor
      · rintro ⟨rfl, hd⟩
        exact ⟨rfl, .inr ⟨hr, hf, hd⟩⟩
      · rintro ⟨rfl, ⟨hr', _⟩ | ⟨_, _, hd⟩⟩
        · simp [hr] at hr'
        · exact ⟨rfl, hd⟩
    | true =>
      simp only [Bool.not_true, Bool.false_eq_true, if_false, List.not_mem_nil, false_iff]
      rintro ⟨rfl, ⟨hr', _⟩ | ⟨_, hf', _⟩⟩
      · simp [hr] at hr'
      · simp [hf] at hf'

theorem mem_reachabilityFindings {id : StateId} {defect : DomainError} :
    CeremonyValidationFinding.warning (.state id) defect ∈ parts.reachabilityFindings ↔
      ∃ initial, Walkable parts initial ∧ parts.states.contains id = true ∧
        (¬ Reaches parts initial id ∧
          defect = .invariantViolated "ceremony state is unreachable from the initial state" ∨
        Reaches parts initial id ∧ ¬ CanFinish parts id ∧
          defect = .invariantViolated
            "no terminal state is reachable from this ceremony state") := by
  simp only [walkable_iff]
  unfold reachabilityFindings
  cases hsole : parts.soleInitialStateId with
  | none => simp
  | some initial =>
    cases hres : parts.transitionEndpointsResolve with
    | false => simp
    | true =>
      cases hends : parts.states.values.any fun state => state.isTerminal with
      | false => simp [CeremonyValidationFinding.warning]
      | true =>
        have hreach := (statesReachableFrom_spec parts initial).2 id
        have hfinish := (statesThatReachATerminal_spec parts).2 id
        have hflat : CeremonyValidationFinding.warning (.state id) defect ∈
            parts.states.keys.flatMap
              (remark (parts.statesReachableFrom initial) parts.statesThatReachATerminal) ↔
            parts.states.contains id = true ∧
              CeremonyValidationFinding.warning (.state id) defect ∈
                remark (parts.statesReachableFrom initial) parts.statesThatReachATerminal id := by
          rw [List.mem_flatMap]
          constructor
          · rintro ⟨other, hmem, hother⟩
            obtain rfl := (mem_remark.mp hother).1
            exact ⟨OrdMap.mem_keys.mp hmem, hother⟩
          · rintro ⟨hmem, hown⟩
            exact ⟨id, OrdMap.mem_keys.mpr hmem, hown⟩
        refine hflat.trans ?_
        rw [mem_remark, ← Bool.not_eq_true, ← Bool.not_eq_true, hreach, hfinish]
        constructor
        · rintro ⟨hmem, _, hcases⟩
          exact ⟨initial, ⟨rfl, rfl, rfl⟩, hmem, hcases⟩
        · rintro ⟨_, ⟨hsame, _⟩, hmem, hcases⟩
          obtain rfl := Option.some.inj hsame
          exact ⟨hmem, rfl, hcases⟩

end Reported

section Severities

theorem severity_errors {findings : List CeremonyValidationFinding} {ι : Type} {l : List ι}
    {f : ι → List CeremonyValidationFinding} (h : ∀ a, ∀ x ∈ f a, x.severity = .error)
    (hf : findings = l.flatMap f) : ∀ x ∈ findings, x.severity = .error := by
  intro x hx
  rw [hf, List.mem_flatMap] at hx
  obtain ⟨a, _, hx⟩ := hx
  exact h a x hx

variable (parts : CeremonyDefinitionParts)

theorem severity_transitionFindings (taken : List (StateId × TransitionTrigger))
    (t : CeremonyTransition) : ∀ x ∈ (parts.transitionFindings taken t).1, x.severity = .error := by
  unfold transitionFindings
  dsimp only
  split
  · simp [CeremonyValidationFinding.error]
  · split_ifs
    · simp [CeremonyValidationFinding.error]
    · simp [CeremonyValidationFinding.error]
    · simp [CeremonyValidationFinding.error]
    · intro x hx
      obtain ⟨_, _, rfl⟩ := List.mem_map.mp hx
      rfl

theorem severity_transitionGraphFindings (taken : List (StateId × TransitionTrigger))
    (transitions : List CeremonyTransition) :
    ∀ x ∈ parts.transitionGraphFindings taken transitions, x.severity = .error := by
  induction transitions generalizing taken with
  | nil => simp [transitionGraphFindings]
  | cons t rest ih =>
    intro x hx
    rcases List.mem_append.mp hx with hx | hx
    · exact severity_transitionFindings parts taken t x hx
    · exact ih _ x hx

theorem severity_stepFindings (entry : StepId × CeremonyStep) :
    ∀ x ∈ parts.stepFindings entry.1 entry.2, x.severity = .error := by
  unfold stepFindings
  split
  · simp [CeremonyValidationFinding.error]
  · split
    · simp [CeremonyValidationFinding.error]
    · simp

theorem severity_guardFindings (entry : GuardName × CeremonyGuard) :
    ∀ x ∈ parts.guardFindings entry.1 entry.2, x.severity = .error := by
  unfold guardFindings
  split
  · simp
  · split
    · simp
    · simp [CeremonyValidationFinding.error]

theorem severity_roleActionFindings (roleId : RoleId) (action : RoleAction) :
    ∀ x ∈ parts.roleActionFindings roleId action, x.severity = .error := by
  unfold roleActionFindings
  intro x hx
  rcases List.mem_append.mp hx with hx | hx
  · split at hx
    · simp at hx
    · split at hx
      · simp at hx
      · rw [List.mem_singleton.mp hx]
        rfl
  · split at hx
    · simp at hx
    · split at hx
      · simp at hx
      · rw [List.mem_singleton.mp hx]
        rfl

theorem severity_initialStateFindings :
    ∀ x ∈ parts.initialStateFindings, x.severity = .error := by
  unfold initialStateFindings
  split_ifs
  · simp [CeremonyValidationFinding.error]
  · simp [CeremonyValidationFinding.error]
  · simp

theorem mem_collectFindings_warning {locus : CeremonyValidationLocus} {defect : DomainError} :
    CeremonyValidationFinding.warning locus defect ∈ parts.collectFindings ↔
      CeremonyValidationFinding.warning locus defect ∈ parts.reachabilityFindings := by
  have hnot : ∀ findings : List CeremonyValidationFinding, (∀ x ∈ findings, x.severity = .error) →
      CeremonyValidationFinding.warning locus defect ∉ findings := by
    intro findings h hmem
    exact absurd (h _ hmem) (by simp [CeremonyValidationFinding.warning])
  have hinit := hnot _ (severity_initialStateFindings parts)
  have hgraph := hnot _ (severity_transitionGraphFindings parts [] parts.transitions)
  have hsteps := hnot _ (severity_errors (l := parts.steps.entries)
    (severity_stepFindings parts) rfl)
  have hguards := hnot _ (severity_errors (l := parts.guards.entries)
    (severity_guardFindings parts) rfl)
  have hroles := hnot _ (severity_errors (l := parts.roles.entries) (fun entry =>
    severity_errors (l := entry.2.allowedActions.keys)
      (severity_roleActionFindings parts entry.1) rfl) rfl)
  unfold collectFindings
  simp only [List.mem_append, hinit, hgraph, hsteps, hguards, hroles, false_or]

end Severities

/-- The two closures of the analysis end and are what they are meant to be, and a state is
warned about exactly when it cannot be reached or, where it can, cannot finish. -/
theorem reachability_warnings_exact (parts : CeremonyDefinitionParts) :
    (∀ initial, (∃ n, (turn parts.transitions)^[n] ([initial], OrdMap.empty) =
        ([], parts.statesReachableFrom initial)) ∧
      ∀ id, (parts.statesReachableFrom initial).contains id = true ↔ Reaches parts initial id) ∧
    ((∃ n, parts.statesThatReachATerminal = passes parts.transitions n (terminals parts) ∧
        (∀ k < n,
          (finishPass parts.transitions (passes parts.transitions k (terminals parts))).2 = true) ∧
        finishPass parts.transitions (passes parts.transitions n (terminals parts)) =
          (passes parts.transitions n (terminals parts), false)) ∧
      ∀ id, parts.statesThatReachATerminal.contains id = true ↔ CanFinish parts id) ∧
    ∀ id defect, CeremonyValidationFinding.warning (.state id) defect ∈ parts.collectFindings ↔
      ∃ initial, Walkable parts initial ∧ parts.states.contains id = true ∧
        (¬ Reaches parts initial id ∧
          defect = .invariantViolated "ceremony state is unreachable from the initial state" ∨
        Reaches parts initial id ∧ ¬ CanFinish parts id ∧
          defect = .invariantViolated
            "no terminal state is reachable from this ceremony state") :=
  ⟨statesReachableFrom_spec parts, statesThatReachATerminal_spec parts, fun _ _ =>
    (mem_collectFindings_warning parts).trans mem_reachabilityFindings⟩

end Choreographer.Reachability
