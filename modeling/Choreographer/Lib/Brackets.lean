import Mathlib.Data.List.Basic
import Mathlib.Data.Option.Basic

namespace Choreographer.Lib.Brackets

variable {τ : Type}

/-- What a text with brackets and quotations in it is punctuated with. A break is
something that no quotation has in it. -/
structure Marks (τ : Type) where
  opens : τ → Bool
  closes : τ → Bool
  quotes : τ → Bool
  escapes : τ → Bool
  breaks : τ → Bool

inductive Mode
  | plain
  | quoted
  | escaped
deriving DecidableEq

variable (marks : Marks τ)

/-- One mark read, from how things stood to how they stand: in or out of a
quotation, inside of so many brackets. A bracket that closes nothing is wrong. -/
def step : Mode × Nat → τ → Option (Mode × Nat)
  | (.plain, depth), t =>
    if marks.quotes t then some (.quoted, depth)
    else if marks.opens t then some (.plain, depth + 1)
    else if marks.closes t then if depth = 0 then none else some (.plain, depth - 1)
    else some (.plain, depth)
  | (.quoted, depth), t =>
    if marks.breaks t then none
    else if marks.quotes t then some (.plain, depth)
    else if marks.escapes t then some (.escaped, depth)
    else some (.quoted, depth)
  | (.escaped, depth), t => if marks.breaks t then none else some (.quoted, depth)

def scan (state : Mode × Nat) (s : List τ) : Option (Mode × Nat) := s.foldlM (step marks) state

/-- All brackets are closed that are opened, and all quotations. -/
def Balanced (s : List τ) : Prop := scan marks (.plain, 0) s = some (.plain, 0)

/-- Neither a bracket nor a quotation mark. -/
def Neutral (t : τ) : Prop :=
  marks.quotes t = false ∧ marks.opens t = false ∧ marks.closes t = false

variable {marks}

@[simp] theorem scan_nil (state : Mode × Nat) : scan marks state [] = some state := rfl

theorem scan_cons (state : Mode × Nat) (t : τ) (s : List τ) :
    scan marks state (t :: s) = (step marks state t).bind fun state' => scan marks state' s := by
  simp [scan, List.foldlM_cons]

theorem scan_append (state : Mode × Nat) (s s' : List τ) :
    scan marks state (s ++ s') = (scan marks state s).bind fun state' => scan marks state' s' := by
  simp [scan, List.foldlM_append]

theorem scan_append_of {state state' : Mode × Nat} {s : List τ}
    (h : scan marks state s = some state') (s' : List τ) :
    scan marks state (s ++ s') = scan marks state' s' := by
  rw [scan_append, h, Option.bind_some]

theorem step_deeper {m m' : Mode} {d d' : Nat} {t : τ} (h : step marks (m, d) t = some (m', d'))
    (k : Nat) : step marks (m, d + k) t = some (m', d' + k) := by
  cases m with
  | plain =>
    simp only [step] at h ⊢
    split_ifs at h ⊢ with hquotes hopens hcloses hd hdk
    · simp_all
    · simp_all
      omega
    · omega
    · simp_all
      omega
    · simp_all
  | quoted =>
    simp only [step] at h ⊢
    split_ifs at h ⊢ with hbreaks hquotes hescapes
    · simp_all
    · simp_all
    · simp_all
  | escaped =>
    simp only [step] at h ⊢
    split_ifs at h ⊢ with hbreaks
    simp_all

theorem scan_deeper {m m' : Mode} {d d' : Nat} {s : List τ}
    (h : scan marks (m, d) s = some (m', d')) (k : Nat) :
    scan marks (m, d + k) s = some (m', d' + k) := by
  induction s generalizing m d with
  | nil =>
    obtain ⟨rfl, rfl⟩ := Prod.mk.inj (Option.some.inj h)
    rfl
  | cons t s ih =>
    rw [scan_cons, Option.bind_eq_some_iff] at h
    obtain ⟨⟨m₁, d₁⟩, hstep, hscan⟩ := h
    rw [scan_cons, step_deeper hstep k, Option.bind_some]
    exact ih hscan

theorem Balanced.scan_plain {s : List τ} (h : Balanced marks s) (d : Nat) :
    scan marks (.plain, d) s = some (.plain, d) := by
  have hdeeper := scan_deeper h d
  rwa [Nat.zero_add] at hdeeper

theorem Balanced.append {s s' : List τ} (h : Balanced marks s) (h' : Balanced marks s') :
    Balanced marks (s ++ s') :=
  (scan_append_of h s').trans h'

theorem step_neutral {t : τ} (h : Neutral marks t) (d : Nat) :
    step marks (.plain, d) t = some (.plain, d) := by
  simp [step, h.1, h.2.1, h.2.2]

theorem balanced_of_neutral {s : List τ} (h : ∀ t ∈ s, Neutral marks t) : Balanced marks s := by
  induction s with
  | nil => rfl
  | cons t s ih =>
    rw [Balanced, scan_cons, step_neutral (h t (by simp)), Option.bind_some]
    exact ih fun t' ht' => h t' (List.mem_cons_of_mem _ ht')

/-- A pair of brackets. -/
structure Pair (marks : Marks τ) (o c : τ) : Prop where
  quotes_o : marks.quotes o = false
  opens_o : marks.opens o = true
  quotes_c : marks.quotes c = false
  opens_c : marks.opens c = false
  closes_c : marks.closes c = true

theorem Balanced.bracketed {o c : τ} {s : List τ} (h : Balanced marks s) (hpair : Pair marks o c) :
    Balanced marks (o :: (s ++ [c])) := by
  have hopen : step marks (.plain, 0) o = some (.plain, 1) := by
    simp [step, hpair.quotes_o, hpair.opens_o]
  have hclose : step marks (.plain, 1) c = some (.plain, 0) := by
    simp [step, hpair.quotes_c, hpair.opens_c, hpair.closes_c]
  rw [Balanced, scan_cons, hopen, Option.bind_some, scan_append_of (h.scan_plain 1), scan_cons,
    hclose]
  rfl

/-- After a break in a balanced text, which is in no quotation, what is left of it
and a bracket that closes more is not balanced. -/
theorem not_balanced_after_break {s s' : List τ} {t c : τ} (h : Balanced marks (s ++ t :: s'))
    (ht : Neutral marks t) (hbreak : marks.breaks t = true) {o : τ} (hpair : Pair marks o c) :
    ¬ Balanced marks (s' ++ [c]) := by
  intro hrest
  rw [Balanced, scan_append, Option.bind_eq_some_iff] at h
  obtain ⟨⟨m, d⟩, -, hscan⟩ := h
  rw [scan_cons, Option.bind_eq_some_iff] at hscan
  obtain ⟨state, hstep, hscan⟩ := hscan
  cases m with
  | quoted | escaped => simp [step, hbreak] at hstep
  | plain =>
    rw [step_neutral ht] at hstep
    obtain rfl := Option.some.inj hstep
    have hdeep := hrest.scan_plain d
    rw [scan_append_of hscan, scan_cons] at hdeep
    simp [step, hpair.quotes_c, hpair.opens_c, hpair.closes_c] at hdeep

end Choreographer.Lib.Brackets
