import Choreographer.Lib.SortedMaps

namespace Choreographer.Lib.Registers

open Choreographer.Lib.SortedMaps

variable {κ ν : Type} [LinearOrder κ]

theorem contains_erase (m : OrdMap κ ν) (k j : κ) :
    (m.erase k).contains j = (decide (j ≠ k) && m.contains j) := by
  by_cases h : j = k
  · simp [OrdMap.contains, OrdMap.get?_erase, h]
  · simp [OrdMap.contains, OrdMap.get?_erase, h]

/-- A register whose every entry is as it should be, and in which there is exactly what
was added to it and not dropped. -/
structure Kept (P : κ → ν → Prop) (added dropped : κ → Nat) (m : OrdMap κ ν) : Prop where
  each : ∀ k v, m.get? k = some v → P k v
  books : ∀ k, added k = dropped k + if m.contains k then 1 else 0

variable {P P' : κ → ν → Prop} {added added' dropped dropped' : κ → Nat} {m : OrdMap κ ν}

theorem kept_empty (P : κ → ν → Prop) : Kept P (fun _ => 0) (fun _ => 0) OrdMap.empty :=
  ⟨by simp, by simp [OrdMap.contains]⟩

theorem Kept.mono (h : Kept P added dropped m) (hP : ∀ k v, P k v → P' k v)
    (hadded : ∀ k, added' k = added k) (hdropped : ∀ k, dropped' k = dropped k) :
    Kept P' added' dropped' m := by
  refine ⟨fun k v hget => hP k v (h.each k v hget), fun k => ?_⟩
  rw [hadded, hdropped]
  exact h.books k

/-- Something is added where there was nothing. -/
theorem Kept.insert (h : Kept P added dropped m) {k : κ} {v : ν} (hfree : m.contains k = false)
    (hv : P k v) (hadded : ∀ j, added' j = added j + if k = j then 1 else 0) :
    Kept P added' dropped (m.insert k v) := by
  constructor
  · intro j u hget
    rw [OrdMap.get?_insert] at hget
    split_ifs at hget with hj
    · obtain rfl := Option.some.inj hget
      exact hj ▸ hv
    · exact h.each j u hget
  · intro j
    have hbooks := h.books j
    rw [hadded j, OrdMap.contains_insert]
    by_cases hj : j = k
    · subst hj
      simp [hfree] at hbooks ⊢
      omega
    · simpa [hj, Ne.symm hj] using hbooks

/-- Something that is there is dropped. -/
theorem Kept.erase (h : Kept P added dropped m) {k : κ} (hthere : m.contains k = true)
    (hdropped : ∀ j, dropped' j = dropped j + if k = j then 1 else 0) :
    Kept P added dropped' (m.erase k) := by
  constructor
  · intro j u hget
    rw [OrdMap.get?_erase] at hget
    split_ifs at hget with hj
    exact h.each j u hget
  · intro j
    have hbooks := h.books j
    rw [hdropped j, contains_erase]
    by_cases hj : j = k
    · subst hj
      simp [hthere] at hbooks ⊢
      omega
    · simpa [hj, Ne.symm hj] using hbooks

end Choreographer.Lib.Registers
