import Choreographer.Fences
import Choreographer.KernelPages
import Choreographer.Lib.Quotations

namespace Choreographer.JsonFrames

open Choreographer.Lib.SortedMaps Choreographer.Lib.Brackets Choreographer.Lib.Padding
open Choreographer.Lib.Readers Choreographer.Lib.Quotations
open Choreographer.Texts Choreographer.Values Choreographer.Documents Choreographer.JsonTexts
open Choreographer.EvidenceGates Choreographer.Fences

section Documents

theorem turn_quoted {c : Char} (hcontrol : ¬ c.toNat < 0x20) (hquote : c ≠ '"') :
    turn jsonMarks .quoted c = some (if c = '\\' then .escaped else .quoted) := by
  simp only [turn, jsonMarks, decide_eq_true_eq, if_neg hcontrol, beq_iff_eq, if_neg hquote]
  split_ifs <;> rfl

theorem turn_escaped {c : Char} (hcontrol : ¬ c.toNat < 0x20) :
    turn jsonMarks .escaped c = some .quoted := by
  simp only [turn, jsonMarks, decide_eq_true_eq, if_neg hcontrol]

theorem pass_quoted {body : List Char} (h : TextBody body) :
    pass jsonMarks .quoted body = some .quoted := by
  induction h with
  | nil => rfl
  | char hcontrol hquote hescape _ ih =>
    rw [pass_cons, turn_quoted hcontrol hquote, if_neg hescape, Option.bind_some, ih]
  | escape hcontrol _ ih =>
    rw [pass_cons, turn_quoted (by decide) (by decide), if_pos rfl, Option.bind_some, pass_cons,
      turn_escaped hcontrol, Option.bind_some, ih]

theorem closed_of_kind {kind : Char → Bool} {s : List Char} (hs : ∀ c ∈ s, kind c = true)
    (hquote : kind '"' = false) (hescape : kind '\\' = false) : Closed jsonMarks s := by
  apply closed_of_unmarked
  intro c hc
  have hne (w : Char) (hw : kind w = false) : c ≠ w := by
    rintro rfl
    simp [hs c hc] at hw
  simp [jsonMarks, hne _ hquote, hne _ hescape]

theorem documental_closed : Documental (Closed jsonMarks) where
  blanks _ hs := closed_of_kind hs rfl rfl
  comma := rfl
  append _ _ := Closed.append
  colon := rfl
  text body hbody := by
    have hopen : pass jsonMarks .plain ('"' :: body) = some .quoted := pass_quoted hbody
    exact pass_append_of hopen ['"']
  numeral _ hs := closed_of_kind hs (by decide) (by decide)
  word word hword := by
    simp only [List.mem_cons, List.not_mem_nil, or_false] at hword
    rcases hword with rfl | rfl | rfl <;> rfl
  bracket _ hs := Closed.append (s := ['[']) rfl (hs.append rfl)
  brace _ hs := Closed.append (s := ['{']) rfl (hs.append rfl)

end Documents

section Cuts

variable {floats : Floats}

theorem object_text {text : String} {fields : List (String × Value)}
    (h : read floats (trim text) = some (.object fields)) :
    ∃ body, strip isWhitespace text.toList = '{' :: (body ++ ['}']) ∧ Balanced jsonMarks body ∧
      Closed jsonMarks ('{' :: (body ++ ['}'])) := by
  obtain ⟨body, hbody, hbalanced⟩ := braces_of_read h
  obtain ⟨taken, htaken, hclosed⟩ := documental_closed.of_readValue (read_eq_some.mp h)
  rw [← strip_object h, toList_trim, strip_strip] at hbody
  refine ⟨body, hbody, hbalanced, ?_⟩
  rw [← strip_object h, toList_trim, strip_strip, hbody, List.append_nil] at htaken
  exact htaken ▸ hclosed

/-- What is left of the text of an object, with anything but blanks cut off its
front, is the text of no object. -/
theorem trim_eq_of_cut {text rest : String} {fields fields' : List (String × Value)}
    (h : read floats (trim text) = some (.object fields))
    (h' : read floats (trim rest) = some (.object fields')) (hcut : rest.toList <:+ text.toList) :
    trim rest = trim text := by
  obtain ⟨body, hbody, hbalanced, hclosed⟩ := object_text h
  obtain ⟨body', hbody', hbalanced', hclosed'⟩ := object_text h'
  obtain ⟨lead, tail, htext, hlead, htail⟩ := exists_strip isWhitespace text.toList
  obtain ⟨lead', tail', hrest, hlead', htail'⟩ := exists_strip isWhitespace rest.toList
  obtain ⟨cut, hcut⟩ := hcut
  rw [← String.toList_inj, toList_trim, toList_trim, hbody, hbody']
  rw [hbody] at htext
  rw [hbody'] at hrest
  -- Both end with the same brace.
  have hends : (cut ++ (lead' ++ '{' :: body')) ++ '}' :: tail' =
      (lead ++ '{' :: body) ++ '}' :: tail := by
    rw [htext, hrest] at hcut
    simpa using hcut
  obtain ⟨hfront, -, -⟩ := last_split rfl rfl htail' htail hends
  have hsame {a : List Char} (ha : Pad isWhitespace a)
      (heq : lead' ++ '{' :: body' = a ++ '{' :: body) :
      '{' :: (body' ++ ['}']) = '{' :: (body ++ ['}']) := by
    have hbraces : lead' ++ '{' :: (body' ++ ['}']) = a ++ '{' :: (body ++ ['}']) := by
      simpa using congrArg (· ++ ['}']) heq
    have hstrip := congrArg (strip isWhitespace) hbraces
    have hclean {l : List Char} (hl : Pad isWhitespace l) (b : List Char) :
        strip isWhitespace (l ++ '{' :: (b ++ ['}'])) = '{' :: (b ++ ['}']) := by
      have hpad := strip_pad hl pad_nil ('{' :: (b ++ ['}']))
      rwa [List.append_nil, strip_bounded rfl rfl] at hpad
    rwa [hclean hlead', hclean ha] at hstrip
  obtain ⟨a, hpad, heq⟩ | ⟨a, hpad, heq⟩ := List.append_eq_append_iff.mp hfront
  · exact hsame (fun c hc => hlead c (hpad ▸ List.mem_append_right _ hc)) heq
  · by_cases ha : a = []
    · subst ha
      exact hsame pad_nil heq.symm
    · -- The cut goes into the object.
      exfalso
      refine not_bracketed_of_cut pair_brace hbalanced hclosed hbalanced' hclosed'
        (fun c hc => neutral_of_isWhitespace (hlead' c hc)) ?_ ha ?_
      · intro c hc
        obtain hc | hc := List.mem_append.mp hc
        · have hblank := hlead' c hc
          simp only [jsonMarks, beq_eq_false_iff_ne]
          rintro rfl
          exact absurd hblank (by decide)
        · obtain rfl := List.mem_singleton.mp hc
          rfl
      · simpa using congrArg (· ++ ['}']) heq

end Cuts

section Fields

theorem get_json (fields : List (String × Value)) (key : String) :
    KernelPages.get (json fields) key = (OrdMap.ofList fields).get? key := by
  simp only [KernelPages.get, json, Value.asObject, Option.bind_some, OrdMap.ofList_entries]

end Fields

section Written

variable {floats : Floats}

def Printable (s : List Char) : Prop := ∀ c ∈ s, ¬ c.toNat < 0x20

theorem printable_append {s s' : List Char} (h : Printable s) (h' : Printable s') :
    Printable (s ++ s') := by
  intro c hc
  obtain hc | hc := List.mem_append.mp hc
  · exact h c hc
  · exact h' c hc

theorem printable_cons {c : Char} {s : List Char} (hc : ¬ c.toNat < 0x20) (h : Printable s) :
    Printable (c :: s) :=
  List.forall_mem_cons.mpr ⟨hc, h⟩

theorem printable_joined {texts : List (List Char)} (h : ∀ text ∈ texts, Printable text) :
    Printable (joined ',' texts) := by
  cases texts with
  | nil => simp [joined, Printable]
  | cons text texts =>
    refine printable_append (h text List.mem_cons_self) ?_
    intro c hc
    obtain ⟨text', htext', hc⟩ := List.mem_flatMap.mp hc
    exact printable_cons (by decide) (h text' (List.mem_cons_of_mem _ htext')) c hc

theorem digitChar_printable : ∀ n < 16, ¬ (Nat.digitChar n).toNat < 0x20 := by decide

theorem writeChar_printable (c : Char) : Printable (writeChar c) := by
  unfold writeChar
  split_ifs with h1 h2 h3 h4 h5 h6 h7 h8
  · simp [Printable]
  · simp [Printable]
  · simp [Printable]
  · simp [Printable]
  · simp [Printable]
  · simp [Printable]
  · simp [Printable]
  · have hhigh := digitChar_printable (c.toNat / 16) (by omega)
    have hlow := digitChar_printable (c.toNat % 16) (by omega)
    simp only [Printable, List.forall_mem_cons]
    exact ⟨by decide, by decide, by decide, by decide, hhigh, hlow, by simp⟩
  · exact List.forall_mem_singleton.mpr h8

theorem writeText_printable (s : String) : Printable (writeText s) := by
  refine printable_cons (by decide) (printable_append ?_ (List.forall_mem_singleton.mpr (by decide)))
  intro c hc
  obtain ⟨d, -, hc⟩ := List.mem_flatMap.mp hc
  exact writeChar_printable d c hc

theorem writeNumber_printable (floats : Floats) (n : Number) : Printable (writeNumber floats n) := by
  intro c hc
  have hnumeral := writeNumber_numeral floats n c hc
  simp only [isNumeral, isAsciiDigit, Bool.or_eq_true, Bool.and_eq_true, decide_eq_true_eq,
    beq_iff_eq, Char.le_def, UInt32.le_iff_toNat_le] at hnumeral
  obtain ((((⟨hlow, -⟩ | rfl) | rfl) | rfl) | rfl) | rfl := hnumeral
  · have hzero : 48 ≤ c.toNat := hlow
    omega
  all_goals decide

/-- A document is written without a control character in it, so that it is all on
one line. -/
theorem write_printable (floats : Floats) (value : Value) : Printable (write floats value) := by
  have hbetween {o c : Char} {texts : List (List Char)} (ho : ¬ o.toNat < 0x20)
      (hc : ¬ c.toNat < 0x20) (h : ∀ text ∈ texts, Printable text) :
      Printable (o :: (joined ',' texts ++ [c])) :=
    printable_cons ho (printable_append (printable_joined h) (List.forall_mem_singleton.mpr hc))
  induction value using document_induction with
  | null => simp [write, Printable]
  | bool b => cases b <;> simp [write, Printable]
  | number n =>
    rw [write]
    exact writeNumber_printable floats n
  | string s =>
    rw [write]
    exact writeText_printable s
  | array items ih =>
    rw [write, writeItems_eq]
    apply hbetween (by decide) (by decide)
    intro text htext
    obtain ⟨item, hitem, rfl⟩ := List.mem_map.mp htext
    exact ih item hitem
  | object entries ih =>
    rw [write, writeFields_eq]
    apply hbetween (by decide) (by decide)
    intro text htext
    obtain ⟨e, he, rfl⟩ := List.mem_map.mp htext
    exact printable_append (writeText_printable e.1) (printable_cons (by decide) (ih e he))

theorem newline_notMem_write (floats : Floats) (value : Value) : '\n' ∉ write floats value :=
  fun hm => write_printable floats value _ hm (by decide)

end Written

end Choreographer.JsonFrames
