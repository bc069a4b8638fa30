import Choreographer.Lib.ByteStrings
import Choreographer.Lib.Padding

namespace Choreographer.Lib.Lines

open Choreographer.Lib.ByteStrings Choreographer.Lib.Padding

section Frames

variable {τ : Type} {sep : τ}

/-- Texts one after the other, each with a separator after it. -/
def lines (sep : τ) (ls : List (List τ)) : List τ := ls.flatMap (· ++ [sep])

@[simp] theorem lines_nil : lines sep ([] : List (List τ)) = [] := rfl

theorem lines_cons (l : List τ) (ls : List (List τ)) :
    lines sep (l :: ls) = l ++ sep :: lines sep ls := by
  simp [lines]

theorem lines_append (ls ls' : List (List τ)) :
    lines sep (ls ++ ls') = lines sep ls ++ lines sep ls' := by
  simp [lines]

/-- The first line of what is left of some lines is what is left of one of them, and
after it come the lines that came after that one. -/
theorem line_of_suffix {ls : List (List τ)} {s rest : List τ} (hls : ∀ l ∈ ls, sep ∉ l)
    (hs : sep ∉ s) (h : s ++ sep :: rest <:+ lines sep ls) :
    ∃ before l after, ls = before ++ l :: after ∧ s <:+ l ∧ rest = lines sep after := by
  induction ls with
  | nil => simp at h
  | cons l ls ih =>
    obtain ⟨cut, hcut⟩ := h
    rw [lines_cons] at hcut
    obtain ⟨a, ha, hrest⟩ | ⟨a, rfl, hrest⟩ := List.append_eq_append_iff.mp hcut
    · -- The cut is in the first line.
      have hnot : sep ∉ a := fun hm => hls l List.mem_cons_self (ha ▸ List.mem_append_right _ hm)
      obtain ⟨rfl, rfl⟩ := first_sep_split hs hnot hrest
      exact ⟨[], l, ls, rfl, ⟨cut, ha.symm⟩, rfl⟩
    · cases a with
      | nil =>
        obtain ⟨rfl, rfl⟩ := first_sep_split (a := []) (b := s) (by simp) hs hrest
        exact ⟨[], l, ls, rfl, List.nil_suffix, rfl⟩
      | cons t a =>
        rw [List.cons_append] at hrest
        have hrest' := (List.cons.inj hrest).2
        obtain ⟨before, l', after, rfl, hl', hafter⟩ :=
          ih (fun l' hl' => hls l' (List.mem_cons_of_mem _ hl')) ⟨a, hrest'.symm⟩
        exact ⟨l :: before, l', after, rfl, hl', hafter⟩

/-- Lines come apart where they were put together. -/
theorem lines_injective {ls ls' : List (List τ)} (hls : ∀ l ∈ ls, sep ∉ l)
    (hls' : ∀ l ∈ ls', sep ∉ l) (h : lines sep ls = lines sep ls') : ls = ls' := by
  induction ls generalizing ls' with
  | nil =>
    cases ls' with
    | nil => rfl
    | cons l ls' => simp [lines_cons] at h
  | cons l ls ih =>
    cases ls' with
    | nil => simp [lines_cons] at h
    | cons l' ls' =>
      rw [lines_cons, lines_cons] at h
      obtain ⟨rfl, hrest⟩ := first_sep_split (hls l List.mem_cons_self)
        (hls' l' List.mem_cons_self) h
      rw [ih (fun m hm => hls m (List.mem_cons_of_mem _ hm))
        (fun m hm => hls' m (List.mem_cons_of_mem _ hm)) hrest]

end Frames

section Decoding

/-- The text that some bytes are the UTF-8 form of, if they are of any. -/
def decode (bytes : List Byte) : Option String :=
  String.fromUTF8? ⟨(bytes.map UInt8.ofFin).toArray⟩

theorem toByteArray_of_decode {bytes : List Byte} {t : String} (h : decode bytes = some t) :
    utf8 t = bytes := by
  unfold decode String.fromUTF8? at h
  split_ifs at h with hvalid
  obtain rfl := Option.some.inj h
  have hfin : UInt8.toFin ∘ UInt8.ofFin = id := rfl
  simp [utf8, String.fromUTF8, hfin]

theorem decode_utf8 (t : String) : decode (utf8 t) = some t := by
  have hbytes : (⟨((utf8 t).map UInt8.ofFin).toArray⟩ : ByteArray) = t.toByteArray := by
    have hfin : UInt8.ofFin ∘ UInt8.toFin = id := rfl
    simp [utf8, hfin]
  unfold decode String.fromUTF8?
  rw [hbytes, dif_pos t.isValidUTF8]
  rfl

theorem utf8_append (s t : String) : utf8 (s ++ t) = utf8 s ++ utf8 t := by
  simp [utf8]

/-- What is left of the bytes of a text, if it is a text, is what is left of its
characters. -/
theorem suffix_of_utf8 {s t : String} (h : utf8 t <:+ utf8 s) : t.toList <:+ s.toList := by
  obtain ⟨cut, hcut⟩ := h
  let place : String.Pos.Raw := ⟨cut.length⟩
  have hlength := congrArg List.length hcut
  rw [List.length_append, length_utf8, length_utf8] at hlength
  have hextract : s.toByteArray.extract cut.length s.utf8ByteSize = t.toByteArray := by
    apply ByteArray.ext
    apply Array.ext'
    apply List.map_injective_iff.mpr fun _ _ => UInt8.toFin_inj.mp
    have hdrop := congrArg (List.drop cut.length) hcut
    rw [List.drop_left] at hdrop
    change utf8 t = List.drop cut.length (List.map UInt8.toFin s.toByteArray.data.toList) at hdrop
    rw [ByteArray.data_extract, Array.toList_extract, List.extract_eq_take_drop, List.map_take,
      List.map_drop, ← hdrop, List.take_of_length_le]
    · rfl
    · rw [length_utf8]
      omega
  have hplace : place.IsValid s := by
    rw [String.Pos.Raw.isValid_iff_isValidUTF8_extract_utf8ByteSize]
    refine ⟨?_, ?_⟩
    · simp [String.Pos.Raw.le_iff, place]
      omega
    · rw [hextract]
      exact t.isValidUTF8
  obtain ⟨s₁, s₂, rfl, hs₁⟩ := String.Pos.Raw.isValid_iff_exists_append.mp hplace
  have hs₁ : cut.length = (utf8 s₁).length := by
    rw [length_utf8]
    simpa [place, String.Pos.Raw.ext_iff] using hs₁
  rw [utf8_append] at hcut
  obtain ⟨-, htail⟩ := List.append_inj hcut hs₁
  rw [utf8_injective htail, String.toList_append]
  exact List.suffix_append _ _

theorem toNat_of_mem_utf8EncodeChar {c : Char} {b : UInt8} (hb : b.toNat < 128)
    (h : b ∈ String.utf8EncodeChar c) : c.toNat = b.toNat := by
  have hlarge : ∀ n : Nat, 128 ≤ n → n < 256 → b ≠ UInt8.ofNat n := by
    rintro n hlow hhigh rfl
    rw [UInt8.toNat_ofNat_of_lt' hhigh] at hb
    omega
  by_cases hascii : c.val.toNat ≤ 127
  · have hform : String.utf8EncodeChar c = [UInt8.ofNat c.val.toNat] := by
      simp only [String.utf8EncodeChar, if_pos hascii]
    rw [hform] at h
    have hlt : c.val.toNat < 256 := by omega
    rw [List.mem_singleton.mp h, UInt8.toNat_ofNat_of_lt' hlt]
    rfl
  · exfalso
    unfold String.utf8EncodeChar at h
    simp only [if_neg hascii] at h
    split_ifs at h with h2 h3 <;>
      simp only [List.mem_cons, List.not_mem_nil, or_false] at h
    · obtain h | h := h <;> exact hlarge _ (by omega) (by omega) h
    · obtain h | h | h := h <;> exact hlarge _ (by omega) (by omega) h
    · obtain h | h | h | h := h <;> exact hlarge _ (by omega) (by omega) h

/-- A text without some plain character has no byte that is one. -/
theorem byte_notMem_utf8 {s : String} {b : Byte} (hb : b.val < 128)
    (h : ∀ c ∈ s.toList, c.toNat ≠ b.val) : b ∉ utf8 s := by
  intro hm
  obtain ⟨byte, hbyte, rfl⟩ := List.mem_map.mp hm
  have hs : s = String.ofList s.toList := String.ofList_toList.symm
  rw [hs, String.toByteArray_ofList, toList_utf8Encode] at hbyte
  obtain ⟨c, hc, hbc⟩ := List.mem_flatMap.mp hbyte
  exact h c hc (toNat_of_mem_utf8EncodeChar hb hbc)

theorem newline_notMem_utf8 {s : String} (h : '\n' ∉ s.toList) : (10 : Byte) ∉ utf8 s := by
  apply byte_notMem_utf8 (by decide)
  intro c hc hten
  exact h (Char.toNat_inj.mp (hten.trans rfl : c.toNat = '\n'.toNat) ▸ hc)

end Decoding

end Choreographer.Lib.Lines
