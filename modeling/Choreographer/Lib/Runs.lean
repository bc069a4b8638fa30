import Mathlib.Data.List.Induction

namespace Choreographer.Lib.Runs

variable {σ ι : Type} {P : List ι → ι → Prop} {cs : List ι} {c : ι}

/-- A property of every call, given the calls before it, is one of the last call and of
all the others. -/
theorem forall_split_concat :
    (∀ before d later, cs ++ [c] = before ++ d :: later → P before d) ↔
      (∀ before d later, cs = before ++ d :: later → P before d) ∧ P cs c := by
  constructor
  · intro h
    refine ⟨fun before d later hsplit => ?_, h cs c [] rfl⟩
    exact h before d (later ++ [c]) (by simp [hsplit])
  · rintro ⟨h, hlast⟩ before d later hsplit
    induction later using List.reverseRecOn with
    | nil =>
      obtain ⟨rfl, hd⟩ := List.append_inj' hsplit rfl
      rwa [← List.singleton_inj.mp hd]
    | append_singleton later last =>
      rw [← List.cons_append, ← List.append_assoc] at hsplit
      exact h before d later (List.append_inj' hsplit rfl).1

theorem exists_split_concat :
    (∃ before d later, cs ++ [c] = before ++ d :: later ∧ P before d) ↔
      (∃ before d later, cs = before ++ d :: later ∧ P before d) ∨ P cs c := by
  have h := @forall_split_concat ι (fun before d => ¬ P before d) cs c
  constructor
  · rintro ⟨before, d, later, hsplit, hP⟩
    by_contra hnone
    rw [not_or] at hnone
    refine h.mpr ⟨?_, hnone.2⟩ before d later hsplit hP
    exact fun before d later hsplit hP => hnone.1 ⟨before, d, later, hsplit, hP⟩
  · intro hsome
    by_contra hnone
    obtain ⟨hothers, hlast⟩ := h.mp fun before d later hsplit hP =>
      hnone ⟨before, d, later, hsplit, hP⟩
    rcases hsome with ⟨before, d, later, hsplit, hP⟩ | hP
    · exact hothers before d later hsplit hP
    · exact hlast hP

/-- Or of the first call and of all the others. -/
theorem forall_split_cons :
    (∀ before d later, c :: cs = before ++ d :: later → P before d) ↔
      P [] c ∧ ∀ before d later, cs = before ++ d :: later → P (c :: before) d := by
  constructor
  · intro h
    refine ⟨h [] c cs rfl, fun before d later hsplit => ?_⟩
    exact h (c :: before) d later (by simp [hsplit])
  · rintro ⟨hfirst, h⟩ before d later hsplit
    cases before with
    | nil =>
      obtain ⟨rfl, -⟩ := List.cons.inj hsplit
      exact hfirst
    | cons b before =>
      obtain ⟨rfl, hrest⟩ := List.cons.inj hsplit
      exact h before d later hrest

theorem forall_split_nil : ∀ before d later, ([] : List ι) = before ++ d :: later → P before d := by
  intro before d later h
  simp at h

theorem forall_prefix_concat {Q : List ι → Prop} :
    (∀ before later, cs ++ [c] = before ++ later → Q before) ↔
      (∀ before later, cs = before ++ later → Q before) ∧ Q (cs ++ [c]) := by
  constructor
  · intro h
    refine ⟨fun before later hsplit => ?_, h (cs ++ [c]) [] (by simp)⟩
    exact h before (later ++ [c]) (by simp [hsplit])
  · rintro ⟨h, hlast⟩ before later hsplit
    induction later using List.reverseRecOn with
    | nil =>
      rw [List.append_nil] at hsplit
      rwa [← hsplit]
    | append_singleton later last =>
      rw [← List.append_assoc] at hsplit
      exact h before later (List.append_inj' hsplit rfl).1

/-- What is true of some calls and of all before them is true of the first ones. -/
theorem filter_append_of_closed {p : ι → Bool}
    (h : cs.Pairwise fun c d => p d = true → p c = true) :
    ∃ late, cs = cs.filter p ++ late ∧ ∀ c ∈ late, p c = false := by
  induction cs with
  | nil => exact ⟨[], rfl, by simp⟩
  | cons c cs ih =>
    obtain ⟨hc, hcs⟩ := List.pairwise_cons.mp h
    by_cases hp : p c = true
    · obtain ⟨late, hlate, hnot⟩ := ih hcs
      refine ⟨late, ?_, hnot⟩
      rw [List.filter_cons_of_pos hp, List.cons_append, ← hlate]
    · refine ⟨c :: cs, ?_, ?_⟩
      · have hnone : cs.filter p = [] :=
          List.filter_eq_nil_iff.mpr fun d hd hpd => hp (hc d hd hpd)
        rw [List.filter_cons_of_neg hp, hnone, List.nil_append]
      · intro d hd
        rcases List.mem_cons.mp hd with rfl | hd
        · simpa using hp
        · exact Bool.not_eq_true _ ▸ fun hpd => hp (hc d hd hpd)

/-- One call after the other. -/
def run (after : ι → σ → σ) (cs : List ι) (s : σ) : σ := cs.foldl (fun s c => after c s) s

variable {after : ι → σ → σ} {s : σ}

@[simp] theorem run_nil : run after [] s = s := rfl

@[simp] theorem run_concat : run after (cs ++ [c]) s = after c (run after cs s) := by
  simp [run]

variable {Ok : ι → Prop}

/-- What every call keeps, every run of such calls keeps. -/
theorem run_keeps_of {Inv : σ → Prop} (hstep : ∀ s c, Ok c → Inv s → Inv (after c s)) (cs : List ι)
    (hcs : ∀ c ∈ cs, Ok c) (hs : Inv s) : Inv (run after cs s) := by
  induction cs using List.reverseRecOn with
  | nil => exact hs
  | append_singleton cs c ih =>
    rw [run_concat]
    exact hstep _ _ (hcs c (by simp)) (ih fun d hd => hcs d (by simp [hd]))

theorem run_keeps {Inv : σ → Prop} (hstep : ∀ s c, Inv s → Inv (after c s)) (cs : List ι)
    (hs : Inv s) : Inv (run after cs s) :=
  @run_keeps_of σ ι after s (fun _ => True) Inv (fun s c _ => hstep s c) cs (fun _ _ => trivial) hs

/-- Something holds all along a run if and only if every call meets a condition on the state
it is made in, when that is so of a single call. -/
theorem always_iff_of (Inv : σ → Prop) {Good : σ → Prop} {Meets : σ → ι → Prop}
    (hstep : ∀ s c, Ok c → Inv s → Inv (after c s))
    (hgood : ∀ s c, Ok c → Inv s → Good s → (Good (after c s) ↔ Meets s c)) (hs : Inv s)
    (hstart : Good s) (cs : List ι) (hcs : ∀ c ∈ cs, Ok c) :
    (∀ before later, cs = before ++ later → Good (run after before s)) ↔
      ∀ before c later, cs = before ++ c :: later → Meets (run after before s) c := by
  induction cs using List.reverseRecOn with
  | nil =>
    constructor
    · intro _
      exact forall_split_nil
    · intro _ before later h
      obtain ⟨rfl, -⟩ := List.append_eq_nil_iff.mp h.symm
      exact hstart
  | append_singleton cs c ih =>
    have hbefore : ∀ d ∈ cs, Ok d := fun d hd => hcs d (by simp [hd])
    rw [forall_prefix_concat, forall_split_concat, run_concat, ← ih hbefore]
    apply and_congr_right
    intro h
    exact hgood _ c (hcs c (by simp)) (run_keeps_of hstep cs hbefore hs) (h cs [] (by simp))

theorem always_iff (Inv : σ → Prop) {Good : σ → Prop} {Meets : σ → ι → Prop}
    (hstep : ∀ s c, Inv s → Inv (after c s))
    (hgood : ∀ s c, Inv s → Good s → (Good (after c s) ↔ Meets s c)) (hs : Inv s) (hstart : Good s)
    (cs : List ι) :
    (∀ before later, cs = before ++ later → Good (run after before s)) ↔
      ∀ before c later, cs = before ++ c :: later → Meets (run after before s) c :=
  @always_iff_of σ ι after s (fun _ => True) Inv Good Meets (fun s c _ => hstep s c)
    (fun s c _ => hgood s c) hs hstart cs fun _ _ => trivial

end Choreographer.Lib.Runs
