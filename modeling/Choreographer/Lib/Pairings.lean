import Mathlib.Data.List.Forall2

namespace Choreographer.Lib.Pairings

variable {α β γ δ : Type} {R : α → β → Prop} {Q : α → γ → Prop} {as : List α} {bs : List β}

theorem forall₂_filterMap {f : β → Option γ} (h : ∀ a b, R a b → ∃ c, f b = some c ∧ Q a c)
    (hl : List.Forall₂ R as bs) : List.Forall₂ Q as (bs.filterMap f) := by
  induction hl with
  | nil => exact .nil
  | cons hab _ ih =>
    obtain ⟨c, hc, hQ⟩ := h _ _ hab
    rw [List.filterMap_cons_some hc]
    exact .cons hQ ih

theorem map_eq_of_forall₂ (hl : List.Forall₂ R as bs) {f : α → δ} {g : β → δ}
    (h : ∀ a b, R a b → g b = f a) : bs.map g = as.map f := by
  induction hl with
  | nil => rfl
  | cons hab _ ih => rw [List.map_cons, List.map_cons, h _ _ hab, ih]

theorem exists_of_forall₂ (hl : List.Forall₂ R as bs) {a : α} (ha : a ∈ as) : ∃ b ∈ bs, R a b := by
  induction hl with
  | nil => simp at ha
  | cons hab _ ih =>
    obtain rfl | ha := List.mem_cons.mp ha
    · exact ⟨_, List.mem_cons_self, hab⟩
    · obtain ⟨b, hb, hR⟩ := ih ha
      exact ⟨b, List.mem_cons_of_mem _ hb, hR⟩

theorem forall₂_with_mem (hl : List.Forall₂ R as bs) :
    List.Forall₂ (fun a b => R a b ∧ a ∈ as ∧ b ∈ bs) as bs := by
  induction hl with
  | nil => exact .nil
  | cons hab _ ih =>
    refine .cons ⟨hab, by simp, by simp⟩ (ih.imp ?_)
    intro a b h
    exact ⟨h.1, List.mem_cons_of_mem _ h.2.1, List.mem_cons_of_mem _ h.2.2⟩

theorem forall₂_comp {S : β → γ → Prop} {cs : List γ} (hl : List.Forall₂ R as bs)
    (hl' : List.Forall₂ S bs cs) (h : ∀ a b c, R a b → S b c → Q a c) : List.Forall₂ Q as cs := by
  induction hl generalizing cs with
  | nil =>
    cases hl'
    exact .nil
  | cons hR _ ih =>
    cases hl' with
    | cons hS hrest => exact .cons (h _ _ _ hR hS) (ih hrest)

theorem forall₂_set {n : Nat} {a : α} {b : β} (hl : List.Forall₂ R as bs) (hab : R a b) :
    List.Forall₂ R (as.set n a) (bs.set n b) := by
  induction hl generalizing n with
  | nil => exact .nil
  | cons hhead _ ih =>
    cases n with
    | zero => exact .cons hab ‹_›
    | succ n => exact .cons hhead ih

theorem forall₂_getElem {n : Nat} {b : β} (hl : List.Forall₂ R as bs) (hb : bs[n]? = some b) :
    ∃ a, as[n]? = some a ∧ R a b := by
  induction hl generalizing n with
  | nil => simp at hb
  | @cons a _ _ _ hhead _ ih =>
    cases n with
    | zero =>
      obtain rfl := Option.some.inj hb
      exact ⟨a, rfl, hhead⟩
    | succ n => exact ih hb

end Choreographer.Lib.Pairings
