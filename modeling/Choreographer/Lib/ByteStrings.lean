import Mathlib.Data.List.Basic
import Mathlib.Data.List.Lex
import Mathlib.Data.Fin.Basic
import Mathlib.Order.Fin.Basic
import Mathlib.Tactic.Linarith

namespace Choreographer.Lib.ByteStrings

abbrev Byte := Fin 256

instance byte_neZero : NeZero 256 := ⟨by decide⟩

/-- The UTF-8 form of a text. Texts are ordered and measured by it. -/
def utf8 (s : String) : List Byte := s.toByteArray.data.toList.map UInt8.toFin

theorem utf8_injective : Function.Injective utf8 := by
  intro s t h
  have hb : s.toByteArray.data.toList = t.toByteArray.data.toList :=
    List.map_injective_iff.mpr (fun _ _ => UInt8.toFin_inj.mp) h
  exact String.toByteArray_inj.mp (ByteArray.ext (Array.ext' hb))

theorem length_utf8 (s : String) : (utf8 s).length = s.utf8ByteSize := by
  rw [utf8, List.length_map, ← String.size_toByteArray]
  rfl

theorem zero_notMem_utf8EncodeChar {c : Char} (h : c ≠ '\x00') :
    (0 : UInt8) ∉ String.utf8EncodeChar c := by
  have hv : c.val.toNat ≠ 0 := fun he => h (Char.ext (UInt32.toNat_inj.mp he))
  have hc : ∀ n : Nat, 0 < n → n < 256 → (0 : UInt8) ≠ UInt8.ofNat n := by
    intro n h0 h1 he
    have hn := congrArg UInt8.toNat he
    rw [UInt8.toNat_ofNat_of_lt' h1] at hn
    exact h0.ne hn
  unfold String.utf8EncodeChar
  simp only
  split_ifs with h1 h2 h3 <;> simp only [List.mem_cons, List.not_mem_nil, or_false, not_or]
  · exact hc _ (by omega) (by omega)
  · exact ⟨hc _ (by omega) (by omega), hc _ (by omega) (by omega)⟩
  · exact ⟨hc _ (by omega) (by omega), hc _ (by omega) (by omega), hc _ (by omega) (by omega)⟩
  · exact ⟨hc _ (by omega) (by omega), hc _ (by omega) (by omega), hc _ (by omega) (by omega),
      hc _ (by omega) (by omega)⟩

theorem toList_utf8Encode (cs : List Char) :
    cs.utf8Encode.data.toList = cs.flatMap String.utf8EncodeChar := by
  simp [List.utf8Encode, List.data_toByteArray]

/-- A text without the NUL character has no zero byte. -/
theorem zero_notMem_utf8 {s : String} (h : '\x00' ∉ s.toList) : (0 : Byte) ∉ utf8 s := by
  intro hm
  obtain ⟨b, hb, h0⟩ := List.mem_map.mp hm
  have hz : b = 0 := UInt8.toFin_inj.mp h0
  subst hz
  have hs : s = String.ofList s.toList := (String.ofList_toList).symm
  rw [hs, String.toByteArray_ofList, toList_utf8Encode] at hb
  obtain ⟨c, hc, hbc⟩ := List.mem_flatMap.mp hb
  exact zero_notMem_utf8EncodeChar (fun he => h (he ▸ hc)) hbc

/-- A number in big-endian form over a fixed number of bytes. -/
def beBytes : Nat → Nat → List Byte
  | 0, _ => []
  | w + 1, n => beBytes w (n / 256) ++ [Fin.ofNat 256 n]

@[simp] theorem length_beBytes (w n : Nat) : (beBytes w n).length = w := by
  induction w generalizing n with
  | zero => rfl
  | succ w ih => simp [beBytes, ih]

theorem beBytes_inj {w n m : Nat} (hn : n < 256 ^ w) (hm : m < 256 ^ w)
    (h : beBytes w n = beBytes w m) : n = m := by
  induction w generalizing n m with
  | zero => simp at hn hm; omega
  | succ w ih =>
    rw [pow_succ] at hn hm
    obtain ⟨hp, hl⟩ := List.append_inj h (by simp)
    have hd := ih (by omega) (by omega) hp
    have hr : n % 256 = m % 256 := by simpa [Fin.ext_iff, Fin.ofNat] using hl
    omega

theorem append_singleton_lt {α : Type} [LinearOrder α] {l₁ l₂ : List α} {a b : α}
    (hlen : l₁.length = l₂.length) :
    l₁ ++ [a] < l₂ ++ [b] ↔ l₁ < l₂ ∨ l₁ = l₂ ∧ a < b := by
  induction l₁ generalizing l₂ with
  | nil =>
    have hl : l₂ = [] := List.length_eq_zero_iff.mp hlen.symm
    subst hl
    simp [List.cons_lt_cons_iff]
  | cons x l₁ ih =>
    cases l₂ with
    | nil => simp at hlen
    | cons y l₂ =>
      have hlen' : l₁.length = l₂.length := by simpa using hlen
      simp only [List.cons_append, List.cons_lt_cons_iff, ih hlen', List.cons.injEq]
      tauto

/-- Byte order on big-endian forms is the order of the numbers. -/
theorem beBytes_lt_iff {w n m : Nat} (hn : n < 256 ^ w) (hm : m < 256 ^ w) :
    beBytes w n < beBytes w m ↔ n < m := by
  induction w generalizing n m with
  | zero => simp at hn hm; simp [beBytes, hn, hm]
  | succ w ih =>
    have hn' : n / 256 < 256 ^ w := by rw [pow_succ] at hn; omega
    have hm' : m / 256 < 256 ^ w := by rw [pow_succ] at hm; omega
    have hb : beBytes w (n / 256) = beBytes w (m / 256) ↔ n / 256 = m / 256 :=
      ⟨beBytes_inj hn' hm', fun he => by rw [he]⟩
    rw [beBytes, beBytes, append_singleton_lt (by simp), ih hn' hm', hb]
    simp only [Fin.lt_def, Fin.ofNat]
    omega

/-- Words closed by a separator smaller than all their letters compare as the
words do, whatever follows the separator. -/
theorem separated_lt {α : Type} [LinearOrder α] {z : α} {l₁ l₂ : List α}
    (h₁ : ∀ a ∈ l₁, z < a) (h₂ : ∀ a ∈ l₂, z < a) (h : l₁ < l₂) (x y : List α) :
    l₁ ++ z :: x < l₂ ++ z :: y := by
  induction l₁ generalizing l₂ with
  | nil =>
    cases l₂ with
    | nil => simp at h
    | cons b l₂ => exact List.cons_lt_cons_iff.mpr (.inl (h₂ b (by simp)))
  | cons a l₁ ih =>
    cases l₂ with
    | nil => simp at h
    | cons b l₂ =>
      rcases List.cons_lt_cons_iff.mp h with hab | ⟨rfl, hl⟩
      · exact List.cons_lt_cons_iff.mpr (.inl hab)
      · exact List.cons_lt_cons_iff.mpr (.inr ⟨rfl, ih (fun c hc => h₁ c (by simp [hc]))
          (fun c hc => h₂ c (by simp [hc])) hl⟩)

theorem append_lt_append_left {α : Type} [LinearOrder α] (p : List α) {x y : List α} :
    p ++ x < p ++ y ↔ x < y := by
  induction p with
  | nil => simp
  | cons a p ih => simp [ih]

/-- An encoding that can be read off the front of any byte string: what it
wrote and what follows are both determined. -/
def Framed {α : Type} (enc : α → List Byte) : Prop :=
  ∀ a b x y, enc a ++ x = enc b ++ y → a = b ∧ x = y

variable {α β : Type}

theorem Framed.injective {enc : α → List Byte} (h : Framed enc) : Function.Injective enc := by
  intro a b he
  exact (h a b [] [] (by rw [he])).1

theorem Framed.comp {enc : β → List Byte} (h : Framed enc) {f : α → β}
    (hf : Function.Injective f) : Framed (fun a => enc (f a)) := by
  intro a b x y he
  obtain ⟨hab, hxy⟩ := h _ _ x y he
  exact ⟨hf hab, hxy⟩

theorem framed_beBytes (w : Nat) : Framed (fun n : Fin (256 ^ w) => beBytes w n) := by
  intro a b x y h
  obtain ⟨hp, hs⟩ := List.append_inj h (by simp)
  exact ⟨Fin.ext (beBytes_inj a.isLt b.isLt hp), hs⟩

/-- Eight bytes of length, then the bytes themselves. -/
def lengthPrefixed (v : List Byte) : List Byte := beBytes 8 v.length ++ v

theorem framed_lengthPrefixed :
    Framed (fun v : { v : List Byte // v.length < 2 ^ 64 } => lengthPrefixed v.1) := by
  intro a b x y h
  have ha : a.1.length < 256 ^ 8 := a.2
  have hb : b.1.length < 256 ^ 8 := b.2
  simp only [lengthPrefixed, List.append_assoc] at h
  obtain ⟨hl, hr⟩ := List.append_inj h (by simp)
  obtain ⟨hv, hxy⟩ := List.append_inj hr (beBytes_inj ha hb hl)
  exact ⟨Subtype.ext hv, hxy⟩

/-- A zero byte for an absent value, a one byte before a present one. -/
def tagged (enc : α → List Byte) : Option α → List Byte
  | none => [0]
  | some a => 1 :: enc a

theorem framed_tagged {enc : α → List Byte} (h : Framed enc) : Framed (tagged enc) := by
  intro a b x y he
  cases a with
  | none =>
    cases b with
    | none => exact ⟨rfl, by simpa [tagged] using he⟩
    | some b => simp [tagged] at he
  | some a =>
    cases b with
    | none => simp [tagged] at he
    | some b =>
      obtain ⟨hab, hxy⟩ := h a b x y (by simpa [tagged] using he)
      exact ⟨by rw [hab], hxy⟩

end Choreographer.Lib.ByteStrings
