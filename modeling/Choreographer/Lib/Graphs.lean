import Mathlib.Logic.Relation
import Mathlib.Data.List.Induction

namespace Choreographer.Lib.Graphs

variable {V E : Type}

section Closures

variable {edge : V → V → Prop} {start v : V} {pending : List V} {reached : V → Prop}

/-- A search that still has to look at some nodes: whatever it met can be reached, and it
met whatever follows a node it reached. -/
structure Searching (edge : V → V → Prop) (start : V) (pending : List V) (reached : V → Prop) :
    Prop where
  started : reached start ∨ start ∈ pending
  sound : ∀ v, reached v ∨ v ∈ pending → Relation.ReflTransGen edge start v
  closed : ∀ v w, reached v → edge v w → reached w ∨ w ∈ pending

theorem Searching.initially : Searching edge start [start] fun _ => False where
  started := .inr (List.mem_singleton.mpr rfl)
  sound v hv := by
    rcases hv with hv | hv
    · exact hv.elim
    · rw [List.mem_singleton.mp hv]
  closed _ _ hv := hv.elim

theorem Searching.skip (h : Searching edge start (v :: pending) reached) (hv : reached v) :
    Searching edge start pending reached := by
  have hdrop : ∀ w, reached w ∨ w ∈ v :: pending → reached w ∨ w ∈ pending := by
    rintro w (hw | hw)
    · exact .inl hw
    · rcases List.mem_cons.mp hw with rfl | hw
      · exact .inl hv
      · exact .inr hw
  refine ⟨hdrop _ h.started, fun w hw => h.sound w ?_, fun u w hu he => hdrop w (h.closed u w hu he)⟩
  exact hw.imp_right (List.mem_cons_of_mem v)

theorem Searching.expand {reached' : V → Prop} {next : List V}
    (h : Searching edge start (v :: pending) reached) (hnext : ∀ w, w ∈ next ↔ edge v w)
    (hreached : ∀ w, reached' w ↔ w = v ∨ reached w) :
    Searching edge start (next ++ pending) reached' := by
  have hkeep : ∀ w, reached w ∨ w ∈ v :: pending → reached' w ∨ w ∈ next ++ pending := by
    rintro w (hw | hw)
    · exact .inl ((hreached w).mpr (.inr hw))
    · rcases List.mem_cons.mp hw with rfl | hw
      · exact .inl ((hreached w).mpr (.inl rfl))
      · exact .inr (List.mem_append_right next hw)
  have hv := h.sound v (.inr List.mem_cons_self)
  refine ⟨hkeep _ h.started, ?_, ?_⟩
  · rintro w (hw | hw)
    · rcases (hreached w).mp hw with rfl | hw
      · exact hv
      · exact h.sound w (.inl hw)
    · rcases List.mem_append.mp hw with hw | hw
      · exact hv.tail ((hnext w).mp hw)
      · exact h.sound w (.inr (List.mem_cons_of_mem v hw))
  · intro u w hu he
    rcases (hreached u).mp hu with rfl | hu
    · exact .inr (List.mem_append_left pending ((hnext w).mpr he))
    · exact hkeep w (h.closed u w hu he)

/-- With nothing left to look at, the nodes reached are all there are. -/
theorem Searching.complete (h : Searching edge start [] reached) (v : V) :
    reached v ↔ Relation.ReflTransGen edge start v := by
  refine ⟨fun hv => h.sound v (.inl hv), fun hv => ?_⟩
  induction hv with
  | refl => exact h.started.resolve_right List.not_mem_nil
  | tail _ he ih => exact (h.closed _ _ ih he).resolve_right List.not_mem_nil

/-- A set of nodes with a way to a goal that holds the goals and is closed against the
edges is the set of all of them. -/
theorem gathered_iff {goal gathered : V → Prop} (hgoal : ∀ v, goal v → gathered v)
    (hsound : ∀ v, gathered v → ∃ g, goal g ∧ Relation.ReflTransGen edge v g)
    (hclosed : ∀ v w, edge v w → gathered w → gathered v) (v : V) :
    gathered v ↔ ∃ g, goal g ∧ Relation.ReflTransGen edge v g := by
  refine ⟨hsound v, ?_⟩
  rintro ⟨g, hg, hv⟩
  induction hv using Relation.ReflTransGen.head_induction_on with
  | refl => exact hgoal g hg
  | head he _ ih => exact hclosed _ _ he ih

end Closures

/-- What is left to be done grows less with every step that does some of it. -/
theorem countP_lt {l : List E} {p q : E → Bool} (h : ∀ e ∈ l, q e = true → p e = true) {e : E}
    (he : e ∈ l) (hp : p e = true) (hq : q e = false) : l.countP q < l.countP p := by
  obtain ⟨front, rest, rfl⟩ := List.append_of_mem he
  have hfront := List.countP_mono_left (l := front) fun x hx => h x (by simp [hx])
  have hrest := List.countP_mono_left (l := rest) fun x hx => h x (by simp [hx])
  simp only [List.countP_append, List.countP_cons, hp, hq, Bool.false_eq_true, if_true, if_false]
  omega

section Trails

variable {src dst : E → V}

/-- The edges lead from one node to another, each from where the last one ended. -/
def Trail (src dst : E → V) : V → List E → V → Prop
  | a, [], b => a = b
  | a, e :: es, b => src e = a ∧ Trail src dst (dst e) es b

theorem trail_concat {es : List E} {e : E} {a b : V} :
    Trail src dst a (es ++ [e]) b ↔ Trail src dst a es (src e) ∧ dst e = b := by
  induction es generalizing a with
  | nil =>
    simp only [List.nil_append, Trail]
    exact ⟨fun h => ⟨h.1.symm, h.2⟩, fun h => ⟨h.1.symm, h.2⟩⟩
  | cons f es ih => simp only [List.cons_append, Trail, ih, and_assoc]

end Trails

section Layers

variable {src dst : E → V} {edges : List E} {start here : V} {queue : List V} {seen : V → Prop}
  {arrived : V → Option E} {depth : V → Nat}

/-- A breadth-first search with the edge it came to each node by. The queue is sorted by
depth and spans two layers at most, and what left the queue lies no deeper and has been
left by all its edges. -/
structure Layered (src dst : E → V) (edges : List E) (start : V) (queue : List V)
    (seen : V → Prop) (arrived : V → Option E) (depth : V → Nat) : Prop where
  startSeen : seen start
  startDepth : depth start = 0
  startArrived : arrived start = none
  arrivedBy : ∀ v, seen v → v ≠ start → ∃ e ∈ edges, arrived v = some e ∧ dst e = v ∧
    seen (src e) ∧ depth v = depth (src e) + 1
  unseen : ∀ v, ¬ seen v → arrived v = none
  queued : ∀ v ∈ queue, seen v
  sorted : queue.Pairwise fun u v => depth u ≤ depth v
  narrow : ∀ u ∈ queue, ∀ v ∈ queue, depth v ≤ depth u + 1
  behind : ∀ u, seen u → u ∉ queue → ∀ v ∈ queue, depth u ≤ depth v
  left : ∀ e ∈ edges, seen (src e) → src e ∉ queue →
    seen (dst e) ∧ depth (dst e) ≤ depth (src e) + 1

theorem Layered.initially :
    Layered src dst edges start [start] (fun v => v = start) (fun _ => none) fun _ => 0 where
  startSeen := rfl
  startDepth := rfl
  startArrived := rfl
  arrivedBy _ hv hne := absurd hv hne
  unseen _ _ := rfl
  queued _ hv := List.mem_singleton.mp hv
  sorted := List.pairwise_singleton _ _
  narrow _ _ _ _ := Nat.zero_le _
  behind _ _ _ _ _ := Nat.le_refl _
  left _ _ hseen hout := absurd (List.mem_singleton.mpr hseen) hout

/-- The depths once a node has been left for some new ones. -/
def deepen [DecidableEq V] (depth : V → Nat) (here : V) (new : List V) (v : V) : Nat :=
  if v ∈ new then depth here + 1 else depth v

/-- A node is left by all its edges, and the nodes they lead to that nobody had seen are
arrived at by them. -/
structure Expansion (src dst : E → V) (edges : List E) (here : V) (new : List V)
    (seen seen' : V → Prop) (arrived arrived' : V → Option E) : Prop where
  fresh : ∀ v ∈ new, ¬ seen v ∧ ∃ e ∈ edges, src e = here ∧ dst e = v ∧ arrived' v = some e
  others : ∀ v, v ∉ new → arrived' v = arrived v
  seen_iff : ∀ v, seen' v ↔ seen v ∨ v ∈ new
  covered : ∀ e ∈ edges, src e = here → seen' (dst e)

section Expanding

variable {seen' : V → Prop} {arrived' : V → Option E} {new : List V}

theorem Expansion.not_mem (x : Expansion src dst edges here new seen seen' arrived arrived') {v : V}
    (hv : seen v) : v ∉ new := fun hin => (x.fresh v hin).1 hv

theorem Expansion.kept (x : Expansion src dst edges here new seen seen' arrived arrived') {v : V}
    (hv : seen v) : seen' v := (x.seen_iff v).mpr (.inl hv)

theorem Expansion.old (x : Expansion src dst edges here new seen seen' arrived arrived') {v : V}
    (hv : seen' v) (hout : v ∉ new) : seen v := ((x.seen_iff v).mp hv).resolve_right hout

variable [DecidableEq V]

theorem deepen_new {v : V} (hv : v ∈ new) : deepen depth here new v = depth here + 1 := if_pos hv

theorem Expansion.deepen_seen (x : Expansion src dst edges here new seen seen' arrived arrived')
    {v : V} (hv : seen v) : deepen depth here new v = depth v := if_neg (x.not_mem hv)

variable (h : Layered src dst edges start (here :: queue) seen arrived depth)
  (x : Expansion src dst edges here new seen seen' arrived arrived')

include h

omit [DecidableEq V] in
theorem Layered.tail_seen {v : V} (hv : v ∈ queue) : seen v :=
  h.queued v (List.mem_cons_of_mem here hv)

omit [DecidableEq V] in
theorem Layered.first_le {v : V} (hv : v ∈ queue) : depth here ≤ depth v :=
  (List.pairwise_cons.mp h.sorted).1 v hv

omit [DecidableEq V] in
theorem Layered.near {v : V} (hv : v ∈ queue) : depth v ≤ depth here + 1 :=
  h.narrow here List.mem_cons_self v (List.mem_cons_of_mem here hv)

omit [DecidableEq V] in
theorem Layered.back {v : V} (hv : seen v) (hout : v ∉ queue) : depth v ≤ depth here := by
  by_cases heq : v = here
  · exact Nat.le_of_eq (congrArg depth heq)
  · exact h.behind v hv (by simp [heq, hout]) here List.mem_cons_self

include x

theorem Layered.expand_arrivedBy {v : V} (hv : seen' v) (hne : v ≠ start) :
    ∃ e ∈ edges, arrived' v = some e ∧ dst e = v ∧ seen' (src e) ∧
      deepen depth here new v = deepen depth here new (src e) + 1 := by
  by_cases hin : v ∈ new
  · obtain ⟨_, e, he, hsrc, hdst, harr⟩ := x.fresh v hin
    have hhere := h.queued here List.mem_cons_self
    refine ⟨e, he, harr, hdst, x.kept (hsrc ▸ hhere), ?_⟩
    rw [deepen_new hin, hsrc, x.deepen_seen hhere]
  · obtain ⟨e, he, harr, hdst, hsrc, hd⟩ := h.arrivedBy v (x.old hv hin) hne
    refine ⟨e, he, (x.others v hin).trans harr, hdst, x.kept hsrc, ?_⟩
    rw [x.deepen_seen (x.old hv hin), x.deepen_seen hsrc, hd]

theorem Layered.expand_sorted :
    (queue ++ new).Pairwise fun u v => deepen depth here new u ≤ deepen depth here new v := by
  refine List.pairwise_append.mpr ⟨?_, ?_, ?_⟩
  · refine (List.pairwise_cons.mp h.sorted).2.imp_of_mem fun hu hv hle => ?_
    rwa [x.deepen_seen (h.tail_seen hu), x.deepen_seen (h.tail_seen hv)]
  · refine List.pairwise_of_forall_mem_list fun u hu v hv => ?_
    exact Nat.le_of_eq ((deepen_new hu).trans (deepen_new hv).symm)
  · intro u hu v hv
    rw [x.deepen_seen (h.tail_seen hu), deepen_new hv]
    exact h.near hu

theorem Layered.expand_narrow {u v : V} (hu : u ∈ queue ++ new) (hv : v ∈ queue ++ new) :
    deepen depth here new v ≤ deepen depth here new u + 1 := by
  have hbounds : ∀ w ∈ queue ++ new, depth here ≤ deepen depth here new w ∧
      deepen depth here new w ≤ depth here + 1 := by
    intro w hw
    rcases List.mem_append.mp hw with hw | hw
    · rw [x.deepen_seen (h.tail_seen hw)]
      exact ⟨h.first_le hw, h.near hw⟩
    · rw [deepen_new hw]
      omega
  have hu := hbounds u hu
  have hv := hbounds v hv
  omega

theorem Layered.expand_behind {u v : V} (hu : seen' u) (hout : u ∉ queue ++ new)
    (hv : v ∈ queue ++ new) : deepen depth here new u ≤ deepen depth here new v := by
  rw [List.mem_append, not_or] at hout
  have hseen := x.old hu hout.2
  have hback := h.back hseen hout.1
  rw [x.deepen_seen hseen]
  rcases List.mem_append.mp hv with hv | hv
  · have hfirst := h.first_le hv
    rw [x.deepen_seen (h.tail_seen hv)]
    omega
  · rw [deepen_new hv]
    omega

theorem Layered.expand_left {e : E} (he : e ∈ edges) (hsrc : seen' (src e))
    (hout : src e ∉ queue ++ new) :
    seen' (dst e) ∧ deepen depth here new (dst e) ≤ deepen depth here new (src e) + 1 := by
  rw [List.mem_append, not_or] at hout
  have hseen := x.old hsrc hout.2
  rw [x.deepen_seen hseen]
  by_cases heq : src e = here
  · have hdst := x.covered e he heq
    refine ⟨hdst, ?_⟩
    rw [heq]
    by_cases hin : dst e ∈ new
    · exact Nat.le_of_eq (deepen_new hin)
    · rw [x.deepen_seen (x.old hdst hin)]
      by_cases hq : dst e ∈ queue
      · exact h.near hq
      · exact Nat.le_succ_of_le (h.back (x.old hdst hin) hq)
  · obtain ⟨hdst, hle⟩ := h.left e he hseen (by simp [heq, hout.1])
    exact ⟨x.kept hdst, by rwa [x.deepen_seen hdst]⟩

theorem Layered.expand :
    Layered src dst edges start (queue ++ new) seen' arrived' (deepen depth here new) where
  startSeen := x.kept h.startSeen
  startDepth := by rw [x.deepen_seen h.startSeen, h.startDepth]
  startArrived := by rw [x.others start (x.not_mem h.startSeen), h.startArrived]
  arrivedBy _ hv hne := h.expand_arrivedBy x hv hne
  unseen v hv := by
    have hout : v ∉ new := fun hin => hv ((x.seen_iff v).mpr (.inr hin))
    rw [x.others v hout, h.unseen v fun hs => hv (x.kept hs)]
  queued v hv := by
    rcases List.mem_append.mp hv with hv | hv
    · exact x.kept (h.tail_seen hv)
    · exact (x.seen_iff v).mpr (.inr hv)
  sorted := h.expand_sorted x
  narrow _ hu _ hv := h.expand_narrow x hu hv
  behind _ hu hout _ hv := h.expand_behind x hu hout hv
  left _ he hsrc hout := h.expand_left x he hsrc hout

end Expanding

/-- A trail ends at a node that was seen no deeper than the trail is long, or the search
still has to leave a node before that. -/
theorem Layered.depth_le (h : Layered src dst edges start queue seen arrived depth) {es : List E}
    {v : V} (hes : ∀ e ∈ es, e ∈ edges) (ht : Trail src dst start es v) :
    seen v ∧ depth v ≤ es.length ∨ ∃ q ∈ queue, depth q < es.length := by
  induction es using List.reverseRecOn generalizing v with
  | nil =>
    obtain rfl : start = v := ht
    exact .inl ⟨h.startSeen, by rw [h.startDepth]; exact Nat.zero_le _⟩
  | append_singleton es e ih =>
    obtain ⟨hinit, rfl⟩ := trail_concat.mp ht
    rw [List.length_append, List.length_singleton]
    rcases ih (fun f hf => hes f (List.mem_append_left [e] hf)) hinit with ⟨hsrc, hle⟩ | ⟨q, hq, hlt⟩
    · by_cases hout : src e ∈ queue
      · exact .inr ⟨src e, hout, Nat.lt_succ_of_le hle⟩
      · obtain ⟨hdst, hd⟩ := h.left e (hes e (by simp)) hsrc hout
        exact .inl ⟨hdst, by omega⟩
    · exact .inr ⟨q, hq, by omega⟩

/-- No trail to the first node of the queue is shorter than the search found it deep. -/
theorem Layered.head_shortest (h : Layered src dst edges start (here :: queue) seen arrived depth)
    {es : List E} (hes : ∀ e ∈ es, e ∈ edges) (ht : Trail src dst start es here) :
    depth here ≤ es.length := by
  rcases h.depth_le hes ht with ⟨_, hle⟩ | ⟨q, hq, hlt⟩
  · exact hle
  · rcases List.mem_cons.mp hq with rfl | hq
    · exact Nat.le_of_lt hlt
    · exact Nat.le_trans (h.first_le hq) (Nat.le_of_lt hlt)

/-- A search that has left every node has seen all that can be reached. -/
theorem Layered.seen_of_trail (h : Layered src dst edges start [] seen arrived depth) {es : List E}
    {v : V} (hes : ∀ e ∈ es, e ∈ edges) (ht : Trail src dst start es v) : seen v := by
  rcases h.depth_le hes ht with ⟨hv, _⟩ | ⟨q, hq, _⟩
  · exact hv
  · exact absurd hq List.not_mem_nil

end Layers

end Choreographer.Lib.Graphs
