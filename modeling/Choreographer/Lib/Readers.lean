import Mathlib.Data.List.TakeWhile
import Mathlib.Data.Option.Basic

namespace Choreographer.Lib.Readers

variable {τ α β : Type} [DecidableEq τ]

/-- What follows a mark that something starts with. -/
def expect (mark : τ) : List τ → Option (List τ)
  | [] => none
  | t :: rest => if t = mark then some rest else none

@[simp] theorem expect_cons_self (mark : τ) (rest : List τ) :
    expect mark (mark :: rest) = some rest := by
  simp [expect]

theorem expect_cons_ne {mark t : τ} (h : t ≠ mark) (rest : List τ) :
    expect mark (t :: rest) = none := by
  simp [expect, h]

theorem expect_eq_some {mark : τ} {s rest : List τ} : expect mark s = some rest ↔ s = mark :: rest := by
  cases s with
  | nil => simp [expect]
  | cons t s => simp [expect]

section Every

/-- Everything comes back as it was just when each thing does. -/
theorem mapM_eq_self {f : α → Option α} {xs : List α} :
    xs.mapM f = some xs ↔ ∀ x ∈ xs, f x = some x := by
  induction xs with
  | nil => simp
  | cons x xs ih =>
    rw [List.mapM_cons, List.forall_mem_cons, ← ih]
    simp only [Option.bind_eq_bind, Option.bind_eq_some_iff, Option.pure_def, Option.some.injEq,
      List.cons.injEq]
    constructor
    · rintro ⟨y, hy, ys, hys, rfl, rfl⟩
      exact ⟨hy, hys⟩
    · rintro ⟨hx, hxs⟩
      exact ⟨x, hx, xs, hxs, rfl, rfl⟩

theorem map_of_mapM {γ : Type} {f : α → Option β} {g : β → γ} {g' : α → γ}
    (h : ∀ x y, f x = some y → g y = g' x) {xs : List α} {ys : List β}
    (hys : xs.mapM f = some ys) : ys.map g = xs.map g' := by
  induction xs generalizing ys with
  | nil =>
    obtain rfl := Option.some.inj hys
    rfl
  | cons x xs ih =>
    rw [List.mapM_cons] at hys
    simp only [Option.bind_eq_bind, Option.bind_eq_some_iff, Option.pure_def] at hys
    obtain ⟨y, hy, ys', hys', heq⟩ := hys
    obtain rfl := Option.some.inj heq
    rw [List.map_cons, List.map_cons, h x y hy, ih hys']

end Every

section Listings

variable (blank : τ → Bool) (comma close : τ) (item : List τ → Option (α × List τ))

def skip (s : List τ) : List τ := s.dropWhile blank

/-- The items of a listing after its first one, up to the closing mark. Every one
of them comes after a comma, so no more of them are left than what is left to read. -/
def more : Nat → List τ → Option (List α × List τ)
  | 0, _ => none
  | n + 1, s =>
    ((expect close (skip blank s)).map fun rest => ([], rest)).or (do
      let rest ← expect comma (skip blank s)
      let x ← item (skip blank rest)
      let xs ← more n x.2
      pure (x.1 :: xs.1, xs.2))

/-- The items of a listing the opening mark of which is read. -/
def listing (s : List τ) : Option (List α × List τ) :=
  ((expect close (skip blank s)).map fun rest => ([], rest)).or (do
    let x ← item (skip blank s)
    let xs ← more blank comma close item x.2.length x.2
    pure (x.1 :: xs.1, xs.2))

/-- Texts with a comma between any two. -/
def joined : List (List τ) → List τ
  | [] => []
  | text :: texts => text ++ texts.flatMap (comma :: ·)

end Listings

section Written

variable {blank : τ → Bool} {comma close : τ}

omit [DecidableEq τ] in
theorem skip_cons {t : τ} (h : blank t = false) (s : List τ) : skip blank (t :: s) = t :: s := by
  simp [skip, h]

/-- A listing can be told from its items: its marks are no blanks, and every item
starts with something that is neither a blank nor the closing mark. -/
structure Punctuated (blank : τ → Bool) (comma close : τ) (texts : List (List τ)) : Prop where
  between : blank comma = false
  ending : blank close = false
  apart : comma ≠ close
  starts : ∀ text ∈ texts, ∃ t rest, text = t :: rest ∧ blank t = false ∧ t ≠ close

omit [DecidableEq τ] in
theorem Punctuated.tail {text : List τ} {texts : List (List τ)}
    (h : Punctuated blank comma close (text :: texts)) : Punctuated blank comma close texts :=
  ⟨h.between, h.ending, h.apart, fun t ht => h.starts t (List.mem_cons_of_mem _ ht)⟩

theorem Punctuated.expect_text {text : List τ} {texts : List (List τ)}
    (h : Punctuated blank comma close (text :: texts)) (rest : List τ) :
    skip blank (text ++ rest) = text ++ rest ∧ expect close (text ++ rest) = none := by
  obtain ⟨t, l, rfl, ht, hne⟩ := h.starts text (by simp)
  exact ⟨skip_cons ht _, expect_cons_ne hne _⟩

variable {text : α → List τ} {f : α → Option β} {item : List τ → Option (β × List τ)}
  {xs : List α}

omit [DecidableEq τ] in
theorem exists_mark (comma close : τ) (texts : List (List τ)) (rest : List τ) :
    ∃ t l, texts.flatMap (comma :: ·) ++ close :: rest = t :: l ∧ (t = comma ∨ t = close) := by
  cases texts with
  | nil => exact ⟨close, rest, rfl, .inr rfl⟩
  | cons text texts => exact ⟨comma, _, rfl, .inl rfl⟩

omit [DecidableEq τ] in
theorem length_lt_flatMap (comma close : τ) (texts : List (List τ)) (rest : List τ) :
    texts.length < (texts.flatMap (comma :: ·) ++ close :: rest).length := by
  induction texts with
  | nil => simp
  | cons text texts ih =>
    simp only [List.flatMap_cons, List.length_append, List.length_cons] at ih ⊢
    omega

omit [DecidableEq τ] in
theorem mapM_cons_read {x : α} {l rest : List τ} {k : List τ → Option (List β × List τ)}
    (hk : k l = (xs.mapM f).map fun ys => (ys, rest)) :
    (((f x).map fun y => (y, l)).bind fun p => (k p.2).bind fun q => some (p.1 :: q.1, q.2)) =
      ((x :: xs).mapM f).map fun ys => (ys, rest) := by
  rw [List.mapM_cons]
  cases f x with
  | none => rfl
  | some y =>
    simp only [Option.map_some, Option.bind_some, hk, Option.bind_eq_bind]
    cases xs.mapM f with
    | none => rfl
    | some ys => rfl

theorem more_written (h : Punctuated blank comma close (xs.map text))
    (hitem : ∀ x ∈ xs, ∀ t rest, t = comma ∨ t = close →
      item (text x ++ t :: rest) = (f x).map fun y => (y, t :: rest))
    {n : Nat} (hn : xs.length < n) (rest : List τ) :
    more blank comma close item n ((xs.map text).flatMap (comma :: ·) ++ close :: rest) =
      (xs.mapM f).map fun ys => (ys, rest) := by
  induction xs generalizing n with
  | nil =>
    cases n with
    | zero => simp at hn
    | succ n => simp [more, skip_cons h.ending]
  | cons x xs ih =>
    cases n with
    | zero => simp at hn
    | succ n =>
      obtain ⟨t, l, hl, ht⟩ := exists_mark comma close (xs.map text) rest
      have hx := hitem x (by simp) t l ht
      have hxs := ih h.tail (fun y hy => hitem y (List.mem_cons_of_mem _ hy))
        (Nat.lt_of_succ_lt_succ hn)
      rw [← hl] at hx
      rw [List.map_cons, List.flatMap_cons, List.cons_append, List.cons_append, List.append_assoc,
        more, skip_cons h.between, expect_cons_ne h.apart, expect_cons_self]
      simp only [Option.map_none, Option.none_or, Option.bind_eq_bind, Option.bind_some,
        (h.expect_text _).1, hx]
      exact mapM_cons_read hxs

theorem listing_written (h : Punctuated blank comma close (xs.map text))
    (hitem : ∀ x ∈ xs, ∀ t rest, t = comma ∨ t = close →
      item (text x ++ t :: rest) = (f x).map fun y => (y, t :: rest)) (rest : List τ) :
    listing blank comma close item (joined comma (xs.map text) ++ close :: rest) =
      (xs.mapM f).map fun ys => (ys, rest) := by
  cases xs with
  | nil => simp [listing, joined, skip_cons h.ending]
  | cons x xs =>
    obtain ⟨t, l, hl, ht⟩ := exists_mark comma close (xs.map text) rest
    have hx := hitem x (by simp) t l ht
    rw [← hl] at hx
    have hn := length_lt_flatMap comma close (xs.map text) rest
    rw [List.length_map] at hn
    have hxs := more_written h.tail (fun y hy => hitem y (List.mem_cons_of_mem _ hy)) hn rest
    rw [List.map_cons, joined, List.append_assoc, listing]
    simp only [(h.expect_text _).1, (h.expect_text _).2, Option.map_none, Option.none_or,
      Option.bind_eq_bind, hx]
    exact mapM_cons_read (k := fun l => more blank comma close item l.length l) hxs

end Written

section Spans

variable {blank : τ → Bool} {comma close : τ} {item : List τ → Option (α × List τ)}
  {s rest : List τ} {xs : List α}

theorem more_cases {n : Nat} (h : more blank comma close item (n + 1) s = some (xs, rest)) :
    (expect close (skip blank s) = some rest ∧ xs = []) ∨
      ∃ rest' x l ys, expect comma (skip blank s) = some rest' ∧
        item (skip blank rest') = some (x, l) ∧
        more blank comma close item n l = some (ys, rest) ∧ xs = x :: ys := by
  rw [more, Option.or_eq_some_iff] at h
  rcases h with h | ⟨-, h⟩
  · obtain ⟨rest', hclose, heq⟩ := Option.map_eq_some_iff.mp h
    obtain ⟨hxs, rfl⟩ := Prod.mk.inj heq
    exact .inl ⟨hclose, hxs.symm⟩
  · simp only [Option.bind_eq_bind, Option.bind_eq_some_iff] at h
    obtain ⟨rest', hcomma, x, hx, ys, hys, heq⟩ := h
    obtain ⟨hxs, rfl⟩ := Prod.mk.inj (Option.some.inj heq)
    exact .inr ⟨rest', x.1, x.2, ys.1, hcomma, hx, hys, hxs.symm⟩

theorem listing_cases (h : listing blank comma close item s = some (xs, rest)) :
    (expect close (skip blank s) = some rest ∧ xs = []) ∨
      ∃ x l ys, item (skip blank s) = some (x, l) ∧
        more blank comma close item l.length l = some (ys, rest) ∧ xs = x :: ys := by
  rw [listing, Option.or_eq_some_iff] at h
  rcases h with h | ⟨-, h⟩
  · obtain ⟨rest', hclose, heq⟩ := Option.map_eq_some_iff.mp h
    obtain ⟨hxs, rfl⟩ := Prod.mk.inj heq
    exact .inl ⟨hclose, hxs.symm⟩
  · simp only [Option.bind_eq_bind, Option.bind_eq_some_iff] at h
    obtain ⟨x, hx, ys, hys, heq⟩ := h
    obtain ⟨hxs, rfl⟩ := Prod.mk.inj (Option.some.inj heq)
    exact .inr ⟨x.1, x.2, ys.1, hx, hys, hxs.symm⟩

omit [DecidableEq τ] in
theorem exists_skip (blank : τ → Bool) (s : List τ) :
    ∃ blanks, s = blanks ++ skip blank s ∧ ∀ t ∈ blanks, blank t = true :=
  ⟨s.takeWhile blank, List.takeWhile_append_dropWhile.symm, fun _ => List.mem_takeWhile_imp⟩

/-- A kind of text that blanks and commas are of, and any two in a row. -/
structure Spanning (blank : τ → Bool) (comma : τ) (P : List τ → Prop) : Prop where
  blanks : ∀ s, (∀ t ∈ s, blank t = true) → P s
  comma : P [comma]
  append : ∀ s s', P s → P s' → P (s ++ s')

variable {P : List τ → Prop}

theorem closed_spans (hP : Spanning blank comma P) (h : expect close (skip blank s) = some rest) :
    ∃ taken, s = taken ++ close :: rest ∧ P taken := by
  obtain ⟨blanks, hs, hblanks⟩ := exists_skip blank s
  rw [expect_eq_some.mp h] at hs
  exact ⟨blanks, hs, hP.blanks _ hblanks⟩

theorem more_spans (hP : Spanning blank comma P)
    (hitem : ∀ s x rest, item s = some (x, rest) → ∃ taken, s = taken ++ rest ∧ P taken)
    {n : Nat} (h : more blank comma close item n s = some (xs, rest)) :
    ∃ taken, s = taken ++ close :: rest ∧ P taken := by
  induction n generalizing s xs with
  | zero => simp [more] at h
  | succ n ih =>
    rcases more_cases h with ⟨hclose, -⟩ | ⟨rest', x, l, ys, hcomma, hx, hys, -⟩
    · exact closed_spans hP hclose
    · obtain ⟨blanks, hs, hblanks⟩ := exists_skip blank s
      obtain ⟨blanks', hs', hblanks'⟩ := exists_skip blank rest'
      obtain ⟨taken, htaken, hPtaken⟩ := hitem _ _ _ hx
      obtain ⟨taken', htaken', hPtaken'⟩ := ih hys
      refine ⟨blanks ++ ([comma] ++ (blanks' ++ (taken ++ taken'))), ?_, ?_⟩
      · rw [hs, expect_eq_some.mp hcomma, hs', htaken, htaken']
        simp only [List.append_assoc, List.cons_append, List.nil_append]
      · exact hP.append _ _ (hP.blanks _ hblanks) (hP.append _ _ hP.comma
          (hP.append _ _ (hP.blanks _ hblanks') (hP.append _ _ hPtaken hPtaken')))

/-- What a listing takes off the front, up to its closing mark, is of the kind that
its items are. -/
theorem listing_spans (hP : Spanning blank comma P)
    (hitem : ∀ s x rest, item s = some (x, rest) → ∃ taken, s = taken ++ rest ∧ P taken)
    (h : listing blank comma close item s = some (xs, rest)) :
    ∃ taken, s = taken ++ close :: rest ∧ P taken := by
  rcases listing_cases h with ⟨hclose, -⟩ | ⟨x, l, ys, hx, hys, -⟩
  · exact closed_spans hP hclose
  · obtain ⟨blanks, hs, hblanks⟩ := exists_skip blank s
    obtain ⟨taken, htaken, hPtaken⟩ := hitem _ _ _ hx
    obtain ⟨taken', htaken', hPtaken'⟩ := more_spans hP hitem hys
    refine ⟨blanks ++ (taken ++ taken'), ?_, ?_⟩
    · rw [hs, htaken, htaken']
      simp only [List.append_assoc]
    · exact hP.append _ _ (hP.blanks _ hblanks) (hP.append _ _ hPtaken hPtaken')

end Spans

end Choreographer.Lib.Readers
