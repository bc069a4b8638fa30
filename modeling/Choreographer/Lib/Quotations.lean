import Choreographer.Lib.Brackets

namespace Choreographer.Lib.Quotations

open Choreographer.Lib.Brackets

variable {τ : Type}

section Passes

variable (marks : Marks τ)

/-- One mark read, in or out of a quotation. Nothing is escaped outside of one. -/
def turn : Mode → τ → Option Mode
  | .plain, t =>
    if marks.quotes t then some .quoted else if marks.escapes t then none else some .plain
  | .quoted, t =>
    if marks.breaks t then none
    else if marks.quotes t then some .plain
    else if marks.escapes t then some .escaped
    else some .quoted
  | .escaped, t => if marks.breaks t then none else some .quoted

def pass (m : Mode) (s : List τ) : Option Mode := s.foldlM (turn marks) m

/-- Every quotation ends, and nothing outside of one is escaped. -/
def Closed (s : List τ) : Prop := pass marks .plain s = some .plain

end Passes

variable {marks : Marks τ}

@[simp] theorem pass_nil (m : Mode) : pass marks m [] = some m := rfl

theorem pass_cons (m : Mode) (t : τ) (s : List τ) :
    pass marks m (t :: s) = (turn marks m t).bind fun m' => pass marks m' s := by
  simp [pass, List.foldlM_cons]

theorem pass_append (m : Mode) (s s' : List τ) :
    pass marks m (s ++ s') = (pass marks m s).bind fun m' => pass marks m' s' := by
  simp [pass, List.foldlM_append]

theorem pass_append_of {m m' : Mode} {s : List τ} (h : pass marks m s = some m') (s' : List τ) :
    pass marks m (s ++ s') = pass marks m' s' := by
  rw [pass_append, h, Option.bind_some]

theorem Closed.append {s s' : List τ} (h : Closed marks s) (h' : Closed marks s') :
    Closed marks (s ++ s') :=
  (pass_append_of h s').trans h'

theorem closed_of_unmarked {s : List τ}
    (h : ∀ t ∈ s, marks.quotes t = false ∧ marks.escapes t = false) : Closed marks s := by
  induction s with
  | nil => rfl
  | cons t s ih =>
    obtain ⟨hquotes, hescapes⟩ := h t List.mem_cons_self
    have hturn : turn marks .plain t = some .plain := by simp [turn, hquotes, hescapes]
    rw [Closed, pass_cons, hturn, Option.bind_some]
    exact ih fun t' ht' => h t' (List.mem_cons_of_mem _ ht')

/-- Read from inside of a quotation and from outside of one, the same marks leave
the one where the other is not. -/
theorem pass_opposed {s : List τ} {m m' : Mode}
    (h : pass marks .quoted s = some m) (h' : pass marks .plain s = some m') :
    m = .quoted ∧ m' = .plain ∨ m = .plain ∧ m' = .quoted := by
  induction s generalizing m m' with
  | nil => exact .inl ⟨(Option.some.inj h).symm, (Option.some.inj h').symm⟩
  | cons t s ih =>
    rw [pass_cons, Option.bind_eq_some_iff] at h h'
    obtain ⟨n, hturn, hpass⟩ := h
    obtain ⟨n', hturn', hpass'⟩ := h'
    simp only [turn] at hturn hturn'
    split_ifs at hturn hturn' with hbreaks hquotes hescapes
    · obtain rfl := Option.some.inj hturn
      obtain rfl := Option.some.inj hturn'
      exact (ih hpass' hpass).symm.imp And.symm And.symm
    · obtain rfl := Option.some.inj hturn
      obtain rfl := Option.some.inj hturn'
      exact ih hpass hpass'

theorem mode_of_scan {s : List τ} {m m' n : Mode} {d d' : Nat}
    (h : pass marks m s = some m') (hscan : scan marks (m, d) s = some (n, d')) : m' = n := by
  induction s generalizing m d with
  | nil =>
    obtain rfl := Option.some.inj h
    exact (Prod.mk.inj (Option.some.inj hscan)).1
  | cons t s ih =>
    rw [pass_cons, Option.bind_eq_some_iff] at h
    rw [scan_cons, Option.bind_eq_some_iff] at hscan
    obtain ⟨k, hturn, hpass⟩ := h
    obtain ⟨⟨k', e⟩, hstep, hscan⟩ := hscan
    obtain rfl : k = k' := by
      cases m with
      | plain =>
        simp only [turn] at hturn
        simp only [step] at hstep
        split_ifs at hturn hstep <;> simp_all
      | quoted =>
        simp only [turn] at hturn
        simp only [step] at hstep
        split_ifs at hturn hstep <;> simp_all
      | escaped =>
        simp only [turn] at hturn
        simp only [step] at hstep
        split_ifs at hturn hstep
        simp_all
    exact ih hpass hscan

/-- Between a pair of brackets with everything closed in between, no place is
outside of the pair. -/
theorem inside_of_bracketed {o c : τ} {body cut rest : List τ} {m : Mode} {d : Nat}
    (hpair : Pair marks o c) (hbody : Balanced marks body) (hcut : cut ≠ []) (hrest : rest ≠ [])
    (h : o :: (body ++ [c]) = cut ++ rest) (hscan : scan marks (.plain, 0) cut = some (m, d)) :
    1 ≤ d := by
  obtain ⟨t, cut', rfl⟩ := List.exists_cons_of_ne_nil hcut
  rw [List.cons_append] at h
  obtain ⟨rfl, hcut'⟩ := List.cons.inj h
  -- The closing bracket is in what is left, so that the cut is through the body.
  obtain ⟨rest', u, rfl⟩ := (List.eq_nil_or_concat' rest).resolve_left hrest
  rw [← List.append_assoc] at hcut'
  obtain ⟨rfl, -⟩ := List.append_inj' hcut' rfl
  have hopen : step marks (.plain, 0) o = some (.plain, 1) := by
    simp [step, hpair.quotes_o, hpair.opens_o]
  rw [Brackets.Balanced, scan_append, Option.bind_eq_some_iff] at hbody
  obtain ⟨⟨n, e⟩, hinner, -⟩ := hbody
  rw [scan_cons, hopen, Option.bind_some, scan_deeper hinner 1] at hscan
  obtain ⟨-, rfl⟩ := Prod.mk.inj (Option.some.inj hscan)
  omega

/-- What is left of a bracketed text with a part of it cut off the front is not
a bracketed text. -/
theorem not_bracketed_of_cut {o c : τ} {body body' cut lead : List τ}
    (hpair : Pair marks o c) (hbody : Balanced marks body)
    (hclosed : Closed marks (o :: (body ++ [c])))
    (hbody' : Balanced marks body') (hclosed' : Closed marks (o :: (body' ++ [c])))
    (hlead : ∀ t ∈ lead, Neutral marks t) (hescapes : ∀ t ∈ lead ++ [o], marks.escapes t = false)
    (hcut : cut ≠ []) :
    o :: (body ++ [c]) ≠ cut ++ (lead ++ o :: (body' ++ [c])) := by
  intro h
  have hunmarked : ∀ t ∈ lead ++ [o], marks.quotes t = false ∧ marks.escapes t = false := by
    intro t ht
    refine ⟨?_, hescapes t ht⟩
    rcases List.mem_append.mp ht with ht | ht
    · exact (hlead t ht).1
    · exact List.mem_singleton.mp ht ▸ hpair.quotes_o
  have hrest : Closed marks (lead ++ o :: (body' ++ [c])) :=
    (closed_of_unmarked fun t ht => hunmarked t (List.mem_append_left _ ht)).append hclosed'
  have hrest' : Balanced marks (lead ++ o :: (body' ++ [c])) :=
    (balanced_of_neutral hlead).append (hbody'.bracketed hpair)
  have hwhole := hbody.bracketed hpair
  rw [h, Brackets.Balanced, scan_append, Option.bind_eq_some_iff] at hwhole
  rw [h, Closed, pass_append, Option.bind_eq_some_iff] at hclosed
  obtain ⟨⟨m, d⟩, hscan, hscan'⟩ := hwhole
  obtain ⟨n, hpass, hpass'⟩ := hclosed
  obtain rfl := mode_of_scan hpass hscan
  cases n with
  | plain =>
    have hdepth := inside_of_bracketed hpair hbody hcut (by simp) h hscan
    rw [hrest'.scan_plain d] at hscan'
    simp at hscan'
    omega
  | quoted => exact absurd (pass_opposed hpass' hrest) (by simp)
  | escaped =>
    -- After the first mark of what is left, which is no quotation mark, the escape is over.
    obtain ⟨t, rest, hsplit, ht⟩ : ∃ t rest, lead ++ o :: (body' ++ [c]) = t :: rest ∧
        t ∈ lead ++ [o] := by
      cases lead with
      | nil => exact ⟨o, _, rfl, by simp⟩
      | cons t lead => exact ⟨t, _, rfl, by simp⟩
    obtain ⟨hquotes, hescape⟩ := hunmarked t ht
    rw [hsplit, pass_cons, Option.bind_eq_some_iff] at hpass'
    rw [Closed, hsplit, pass_cons, Option.bind_eq_some_iff] at hrest
    obtain ⟨k, hturn, hpass'⟩ := hpass'
    obtain ⟨k', hturn', hrest⟩ := hrest
    simp only [turn, hquotes, hescape, Bool.false_eq_true, if_false] at hturn hturn'
    split_ifs at hturn
    obtain rfl := Option.some.inj hturn
    obtain rfl := Option.some.inj hturn'
    exact absurd (pass_opposed hpass' hrest) (by simp)

end Choreographer.Lib.Quotations
