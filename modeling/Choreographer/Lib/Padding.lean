import Mathlib.Data.List.DropRight
import Mathlib.Data.List.TakeWhile

namespace Choreographer.Lib.Padding

variable {τ : Type} {p : τ → Bool} {lead mid tail l : List τ}

/-- All of it is padding. -/
def Pad (p : τ → Bool) (l : List τ) : Prop := ∀ t ∈ l, p t = true

theorem pad_nil : Pad p [] := by
  simp [Pad]

theorem Pad.append {l' : List τ} (h : Pad p l) (h' : Pad p l') : Pad p (l ++ l') := by
  intro t ht
  rcases List.mem_append.mp ht with ht | ht
  · exact h t ht
  · exact h' t ht

/-- What is left without the padding on either side. -/
def strip (p : τ → Bool) (l : List τ) : List τ := (l.dropWhile p).rdropWhile p

theorem rdropWhile_pad (h : Pad p tail) (l : List τ) : (l ++ tail).rdropWhile p = l.rdropWhile p := by
  have hreverse : ∀ t ∈ tail.reverse, p t = true := fun t ht => h t (List.mem_reverse.mp ht)
  simp only [List.rdropWhile, List.reverse_append, List.dropWhile_append_of_pos hreverse]

theorem strip_pad (hlead : Pad p lead) (htail : Pad p tail) (mid : List τ) :
    strip p (lead ++ (mid ++ tail)) = strip p mid := by
  unfold strip
  rw [List.dropWhile_append_of_pos hlead, List.dropWhile_append]
  split_ifs with hmid
  · rw [List.isEmpty_iff.mp hmid, List.dropWhile_eq_nil_iff.mpr htail]
  · exact rdropWhile_pad htail _

theorem strip_eq_nil : strip p l = [] ↔ Pad p l := by
  unfold strip
  rw [List.rdropWhile_eq_nil_iff]
  constructor
  · intro h t ht
    rw [← List.takeWhile_append_dropWhile (p := p) (l := l)] at ht
    rcases List.mem_append.mp ht with ht | ht
    · exact List.mem_takeWhile_imp ht
    · exact h t ht
  · exact fun h t ht => h t ((List.dropWhile_suffix p).subset ht)

theorem exists_strip (p : τ → Bool) (l : List τ) :
    ∃ lead tail, l = lead ++ (strip p l ++ tail) ∧ Pad p lead ∧ Pad p tail := by
  refine ⟨l.takeWhile p, (l.dropWhile p).rtakeWhile p, ?_, fun _ => List.mem_takeWhile_imp,
    fun _ => List.mem_rtakeWhile_imp⟩
  rw [strip, List.rdropWhile_append_rtakeWhile, List.takeWhile_append_dropWhile]

theorem strip_strip (p : τ → Bool) (l : List τ) : strip p (strip p l) = strip p l := by
  obtain ⟨lead, tail, hl, hlead, htail⟩ := exists_strip p l
  have hpad := strip_pad hlead htail (strip p l)
  rw [← hl] at hpad
  exact hpad.symm

theorem strip_bounded {t t' : τ} (h : p t = false) (h' : p t' = false) (mid : List τ) :
    strip p (t :: (mid ++ [t'])) = t :: (mid ++ [t']) := by
  rw [strip, List.dropWhile_cons_of_neg (by simp [h]), ← List.cons_append,
    List.rdropWhile_concat_neg _ _ _ (by simp [h'])]

theorem strip_clean (h : ∀ t ∈ l, p t = false) : strip p l = l := by
  have hdrop : l.dropWhile p = l := by
    cases l with
    | nil => rfl
    | cons t l => exact List.dropWhile_cons_of_neg (by simp [h t List.mem_cons_self])
  rw [strip, hdrop, List.rdropWhile_eq_self_iff]
  intro hne
  simp [h _ (List.getLast_mem hne)]

/-- Where padding begins after the last thing that is none, a text comes apart. -/
theorem last_split {l' tail' : List τ} {t t' : τ} (ht : p t = false) (ht' : p t' = false)
    (htail : Pad p tail) (htail' : Pad p tail') (h : l ++ t :: tail = l' ++ t' :: tail') :
    l = l' ∧ t = t' ∧ tail = tail' := by
  have hcut := congrArg (List.rdropWhile p) h
  rw [List.append_cons, List.append_cons l', rdropWhile_pad htail, rdropWhile_pad htail',
    List.rdropWhile_concat_neg _ _ _ (by simp [ht]),
    List.rdropWhile_concat_neg _ _ _ (by simp [ht'])] at hcut
  obtain ⟨rfl, hmark⟩ := List.append_inj' hcut rfl
  obtain rfl := List.singleton_inj.mp hmark
  exact ⟨rfl, rfl, by simpa using h⟩

section Separators

variable {sep : τ} {a b x y : List τ}

/-- Where the last separator stands is where a text comes apart. -/
theorem last_sep_split (hx : sep ∉ x) (hy : sep ∉ y) (h : a ++ sep :: x = b ++ sep :: y) :
    a = b ∧ x = y := by
  classical
  have hpad {l : List τ} (hl : sep ∉ l) : Pad (fun t => decide (t ≠ sep)) l := by
    intro t ht
    exact decide_eq_true fun heq => hl (heq ▸ ht)
  obtain ⟨hab, -, hxy⟩ := last_split (by simp) (by simp) (hpad hx) (hpad hy) h
  exact ⟨hab, hxy⟩

/-- Or where the first one does. -/
theorem first_sep_split (ha : sep ∉ a) (hb : sep ∉ b) (h : a ++ sep :: x = b ++ sep :: y) :
    a = b ∧ x = y := by
  have hreverse := congrArg List.reverse h
  simp only [List.reverse_append, List.reverse_cons, List.append_assoc, List.singleton_append]
    at hreverse
  obtain ⟨hxy, hab⟩ := last_sep_split (by simpa using ha) (by simpa using hb) hreverse
  exact ⟨List.reverse_injective hab, List.reverse_injective hxy⟩

end Separators

end Choreographer.Lib.Padding
