import Choreographer.EvidenceGates
import Choreographer.JsonTexts

namespace Choreographer.Fences

open Choreographer.Lib.Brackets Choreographer.Lib.Padding
open Choreographer.Texts Choreographer.Values Choreographer.JsonTexts Choreographer.EvidenceGates

/-- Which characters are letters. None of them is a blank. -/
structure Letters where
  isLetter : Char → Bool
  visible : ∀ c, isLetter c = true → isWhitespace c = false

def isTagChar (letters : Letters) (c : Char) : Bool :=
  letters.isLetter c || isAsciiDigit c || c == '+' || c == '-' || c == '_' || c == '.' || c == '#'

/-- A payload that is one fenced block: with a line of its own for the opening fence,
and perhaps a tag on it, or with the text right after the fence. -/
inductive Layout (letters : Letters)
  | opened (tag : List Char) (h : ∀ c ∈ tag, isTagChar letters c = true)
  | direct (newline : Bool)

variable {letters : Letters}

def ended (newline : Bool) (t : List Char) : List Char := t ++ if newline then ['\n'] else []

def Layout.inner : Layout letters → List Char → List Char
  | .opened tag _, t => tag ++ '\n' :: t
  | .direct newline, t => ended newline t

def Layout.payload (layout : Layout letters) (t : String) : String :=
  String.ofList (fence ++ (layout.inner t.toList ++ fence))

def firstLine (inner : List Char) : List Char := inner.takeWhile (· ≠ '\n')

/-- The first line is all there is, or is blank, or has a space in it. -/
def Kept (inner : List Char) : Prop :=
  '\n' ∉ inner ∨ Pad isWhitespace (firstLine inner) ∨ ' ' ∈ strip isWhitespace (firstLine inner)

/-- The layouts in which the text is found. -/
def Layout.Clear : Layout letters → List Char → Prop
  | .opened .., _ => True
  | .direct newline, t => Kept (ended newline t)

def inside (inner : List Char) : String :=
  match splitOnce '\n' inner with
  | some (info, body) =>
    if (trim (String.ofList info)).toList.contains ' ' then trim (String.ofList inner)
    else trim (String.ofList body)
  | none => trim (String.ofList inner)

section Stripping

theorem trim_congr {l l' : List Char} (h : strip isWhitespace l = strip isWhitespace l') :
    trim (String.ofList l) = trim (String.ofList l') := by
  rw [← String.toList_inj, toList_trim, toList_trim, String.toList_ofList, String.toList_ofList, h]

theorem stripStart_eq_some {mark s rest : List Char} :
    stripStart mark s = some rest ↔ s = mark ++ rest := by
  unfold stripStart
  split_ifs with h
  · obtain ⟨rest', rfl⟩ := List.isPrefixOf_iff_prefix.mp h
    simp [eq_comm]
  · simp only [false_iff]
    rintro rfl
    simp at h

theorem stripEnd_eq_some {mark s rest : List Char} :
    stripEnd mark s = some rest ↔ s = rest ++ mark := by
  unfold stripEnd
  split_ifs with h
  · obtain ⟨rest', rfl⟩ := List.isSuffixOf_iff_suffix.mp h
    simp [eq_comm]
  · simp only [false_iff]
    rintro rfl
    simp at h

theorem fenced_iff {l inner : List Char} :
    (stripStart fence l).bind (stripEnd fence) = some inner ↔ l = fence ++ (inner ++ fence) := by
  rw [Option.bind_eq_some_iff]
  simp only [stripStart_eq_some, stripEnd_eq_some]
  constructor
  · rintro ⟨rest, rfl, rfl⟩
    rfl
  · rintro rfl
    exact ⟨_, rfl, rfl⟩

theorem strip_cases (payload : String) :
    ((∀ inner, (trim payload).toList ≠ fence ++ (inner ++ fence)) ∧
        stripMarkdownFences payload = trim payload) ∨
      ∃ inner, (trim payload).toList = fence ++ (inner ++ fence) ∧
        stripMarkdownFences payload = inside inner := by
  cases hfenced : (stripStart fence (trim payload).toList).bind (stripEnd fence) with
  | none =>
    refine .inl ⟨fun inner h => ?_, ?_⟩
    · rw [fenced_iff.mpr h] at hfenced
      simp at hfenced
    · simp only [stripMarkdownFences, hfenced]
  | some inner =>
    refine .inr ⟨inner, fenced_iff.mp hfenced, ?_⟩
    simp only [stripMarkdownFences, hfenced]
    rfl

theorem strip_fenced {payload : String} {inner : List Char}
    (h : (trim payload).toList = fence ++ (inner ++ fence)) :
    stripMarkdownFences payload = inside inner := by
  simp only [stripMarkdownFences, fenced_iff.mpr h]
  rfl

theorem splitOnce_none {l : List Char} (h : '\n' ∉ l) : splitOnce '\n' l = none := by
  have hdrop : l.dropWhile (· ≠ '\n') = [] := by
    rw [List.dropWhile_eq_nil_iff]
    intro c hc
    have hne : c ≠ '\n' := fun heq => h (heq ▸ hc)
    simpa using hne
  rw [splitOnce, List.span_eq_takeWhile_dropWhile, hdrop]

theorem splitOnce_some {info body : List Char} (h : '\n' ∉ info) :
    splitOnce '\n' (info ++ '\n' :: body) = some (info, body) := by
  have hinfo : ∀ c ∈ info, decide (c ≠ '\n') = true := by
    intro c hc
    have hne : c ≠ '\n' := fun heq => h (heq ▸ hc)
    simpa using hne
  rw [splitOnce, List.span_eq_takeWhile_dropWhile, List.takeWhile_append_of_pos hinfo,
    List.dropWhile_append_of_pos hinfo]
  simp

theorem inside_whole {inner : List Char} (h : '\n' ∉ inner) :
    inside inner = trim (String.ofList inner) := by
  simp only [inside, splitOnce_none h]

theorem inside_line {info body : List Char} (h : '\n' ∉ info) :
    inside (info ++ '\n' :: body) =
      if ' ' ∈ strip isWhitespace info then trim (String.ofList (info ++ '\n' :: body))
      else trim (String.ofList body) := by
  simp only [inside, splitOnce_some h, toList_trim, String.toList_ofList, List.contains_eq_mem,
    decide_eq_true_eq]

end Stripping

/-- The library that reads documents does so as JSON has it. -/
def ReadsJson (floats : Floats) (serde : SerdeJson) : Prop :=
  ∀ text, (serde.fromStr text).toOption = read floats text

section Objects

variable {floats : Floats} {serde : SerdeJson} {t : String} {object : List (String × Value)}

theorem parse_iff (hserde : ReadsJson floats serde) {payload : String} :
    parseJsonObject serde payload = .ok object ↔
      read floats (stripMarkdownFences payload) = some (.object object) := by
  rw [← hserde]
  unfold parseJsonObject
  cases serde.fromStr (stripMarkdownFences payload) with
  | error err => simp [Except.toOption]
  | ok value => cases value <;> simp [Except.toOption]

theorem parse_congr {payload payload' : String}
    (h : stripMarkdownFences payload = stripMarkdownFences payload') :
    parseJsonObject serde payload = parseJsonObject serde payload' := by
  unfold parseJsonObject
  rw [h]

theorem isWhitespace_of_isBlank {c : Char} (h : isBlank c = true) : isWhitespace c = true := by
  simp only [isBlank, Bool.or_eq_true, beq_iff_eq] at h
  rcases h with ((rfl | rfl) | rfl) | rfl <;> rfl

/-- Of the blanks around the text of an object, all that are taken for blanks anywhere
are such as may stand there. -/
theorem strip_object (h : read floats t = some (.object object)) :
    strip isWhitespace t.toList = strip isBlank t.toList := by
  obtain ⟨body, hbody, -⟩ := braces_of_read h
  obtain ⟨lead, tail, ht, hlead, htail⟩ := exists_strip isBlank t.toList
  have hpad {l : List Char} (hl : Pad isBlank l) : Pad isWhitespace l :=
    fun c hc => isWhitespace_of_isBlank (hl c hc)
  rw [ht, strip_pad (hpad hlead) (hpad htail), strip_pad hlead htail, hbody,
    strip_bounded rfl rfl, strip_bounded rfl rfl]

theorem braces_of_trim (h : read floats t = some (.object object)) :
    ∃ body, strip isWhitespace t.toList = '{' :: (body ++ ['}']) ∧ Balanced jsonMarks body := by
  rw [strip_object h]
  exact braces_of_read h

theorem read_trim (h : read floats t = some (.object object)) :
    read floats (trim t) = some (.object object) := by
  obtain ⟨body, hbody, -⟩ := braces_of_trim h
  rw [← h]
  refine read_of_strip ?_
  rw [toList_trim, ← strip_object h, hbody, strip_bounded rfl rfl]

theorem strip_unfenced (h : read floats t = some (.object object)) :
    stripMarkdownFences t = trim t := by
  obtain ⟨body, hbody, -⟩ := braces_of_trim h
  rcases strip_cases t with ⟨-, hstrip⟩ | ⟨inner, hinner, -⟩
  · exact hstrip
  · rw [toList_trim, hbody] at hinner
    simp [fence] at hinner

theorem parse_object (hserde : ReadsJson floats serde) (h : read floats t = some (.object object)) :
    parseJsonObject serde t = .ok object := by
  rw [parse_iff hserde, strip_unfenced h]
  exact read_trim h

theorem neutral_of_isWhitespace {c : Char} (h : isWhitespace c = true) : Neutral jsonMarks c := by
  have hne (w : Char) (hw : isWhitespace w = false) : c ≠ w := by
    rintro rfl
    simp [h] at hw
  simp [Neutral, jsonMarks, hne '"' (by decide), hne '[' (by decide), hne '{' (by decide),
    hne ']' (by decide), hne '}' (by decide)]

/-- What is between a line break inside of an object and the brace that closes it
is no object, whatever blanks are around. -/
theorem not_object_inside {info body tail : List Char}
    (hbalanced : Balanced jsonMarks (info ++ '\n' :: body)) (htail : Pad isWhitespace tail) :
    read floats (trim (String.ofList (body ++ '}' :: tail))) ≠ some (.object object) := by
  intro h
  obtain ⟨body', hbody', hbalanced'⟩ := braces_of_trim h
  rw [toList_trim, strip_strip, String.toList_ofList] at hbody'
  obtain ⟨lead, tail', hl, hlead, htail'⟩ := exists_strip isWhitespace (body ++ '}' :: tail)
  rw [hbody'] at hl
  have hsplit : body ++ '}' :: tail = (lead ++ '{' :: body') ++ '}' :: tail' := by
    simpa using hl
  obtain ⟨rfl, -, -⟩ := last_split rfl rfl htail htail' hsplit
  refine not_balanced_after_break hbalanced ⟨rfl, rfl, rfl⟩ rfl pair_brace ?_
  have hblanks : Balanced jsonMarks lead :=
    balanced_of_neutral fun c hc => neutral_of_isWhitespace (hlead c hc)
  have hwhole := hblanks.append (hbalanced'.bracketed pair_brace)
  simpa using hwhole

theorem not_object_blank {body : List Char} (hbody : Pad isWhitespace body) :
    read floats (trim (String.ofList body)) ≠ some (.object object) := by
  intro h
  obtain ⟨body', hbody', -⟩ := braces_of_trim h
  rw [toList_trim, strip_strip, String.toList_ofList, strip_eq_nil.mpr hbody] at hbody'
  simp at hbody'

theorem pad_newline (newline : Bool) : Pad isWhitespace (if newline then ['\n'] else []) := by
  cases newline with
  | false => exact pad_nil
  | true =>
    intro c hc
    obtain rfl := List.mem_singleton.mp hc
    rfl

theorem not_object_after_line (h : read floats t = some (.object object)) {newline : Bool}
    {info body : List Char} (hsplit : ended newline t.toList = info ++ '\n' :: body)
    (hinfo : ¬ Pad isWhitespace info) {object' : List (String × Value)} :
    read floats (trim (String.ofList body)) ≠ some (.object object') := by
  obtain ⟨b, hb, hbalanced⟩ := braces_of_trim h
  obtain ⟨lead, tail, ht, hlead, htail⟩ := exists_strip isWhitespace t.toList
  obtain ⟨tail', htail', hinner⟩ : ∃ tail', Pad isWhitespace tail' ∧
      ended newline t.toList = lead ++ '{' :: (b ++ '}' :: tail') := by
    refine ⟨ended newline tail, ?_, ?_⟩
    · exact htail.append (pad_newline newline)
    · rw [ht, hb]
      simp [ended]
  rw [hinner] at hsplit
  rcases List.append_eq_append_iff.mp hsplit with ⟨a, rfl, ha⟩ | ⟨c, rfl, -⟩
  · cases a with
    | nil => simp at ha
    | cons c info =>
      obtain ⟨rfl, hrest⟩ := List.cons.inj ha
      rcases List.append_eq_append_iff.mp hrest with ⟨a, rfl, hend⟩ | ⟨c, rfl, hc⟩
      · cases a with
        | nil => simp at hend
        | cons c a =>
          obtain ⟨-, rfl⟩ := List.cons.inj hend
          exact not_object_blank fun c hc => htail' c (by simp [hc])
      · cases c with
        | nil => simp at hc
        | cons c x =>
          obtain ⟨rfl, rfl⟩ := List.cons.inj hc
          exact not_object_inside hbalanced htail'
  · exact absurd (fun c hc => hlead c (List.mem_append_left _ hc)) hinfo

end Objects

section Layouts

variable {floats : Floats} {serde : SerdeJson} {t : String} {object : List (String × Value)}

theorem isWhitespace_of_isTagChar {c : Char} (h : isTagChar letters c = true) :
    isWhitespace c = false := by
  simp only [isTagChar, Bool.or_eq_true, beq_iff_eq] at h
  rcases h with (((((h | h) | rfl) | rfl) | rfl) | rfl) | rfl
  · exact letters.visible c h
  · simp only [isAsciiDigit, Bool.and_eq_true, decide_eq_true_eq, Char.le_def,
      UInt32.le_iff_toNat_le] at h
    have hlow : 48 ≤ c.toNat := h.1
    have hhigh : c.toNat ≤ 57 := h.2
    exact isWhitespace_of_between (by omega) (by omega)
  · rfl
  · rfl
  · rfl
  · rfl
  · rfl

theorem trim_payload (inner : List Char) :
    (trim (String.ofList (fence ++ (inner ++ fence)))).toList = fence ++ (inner ++ fence) := by
  have hsplit : fence ++ (inner ++ fence) =
      '`' :: (('`' :: '`' :: (inner ++ ['`', '`'])) ++ ['`']) := by
    simp [fence]
  rw [toList_trim, String.toList_ofList, hsplit, strip_bounded rfl rfl]

theorem strip_payload (layout : Layout letters) (t : String) :
    stripMarkdownFences (layout.payload t) = inside (layout.inner t.toList) :=
  strip_fenced (trim_payload _)

theorem inside_opened {tag : List Char} (h : ∀ c ∈ tag, isTagChar letters c = true) (t : String) :
    inside (tag ++ '\n' :: t.toList) = trim t := by
  have hclean : ∀ c ∈ tag, isWhitespace c = false := fun c hc => isWhitespace_of_isTagChar (h c hc)
  have hline : '\n' ∉ tag := fun hmem => absurd (hclean _ hmem) (by decide)
  have hspace : ' ' ∉ tag := fun hmem => absurd (hclean _ hmem) (by decide)
  rw [inside_line hline, strip_clean hclean, if_neg hspace, String.ofList_toList]

theorem exists_line {l : List Char} (h : '\n' ∈ l) :
    ∃ body, l = firstLine l ++ '\n' :: body ∧ '\n' ∉ firstLine l := by
  obtain ⟨info, body, hl, hinfo⟩ := List.eq_append_cons_of_mem h
  have hfirst : firstLine l = info := by
    have hne : ∀ c ∈ info, decide (c ≠ '\n') = true := by
      intro c hc
      have hne : c ≠ '\n' := fun heq => hinfo (heq ▸ hc)
      simpa using hne
    rw [firstLine, hl, List.takeWhile_append_of_pos hne]
    simp
  exact ⟨body, by rw [hfirst, hl], by rwa [hfirst]⟩

theorem trim_ended (newline : Bool) (t : String) :
    trim (String.ofList (ended newline t.toList)) = trim t := by
  have hstrip : strip isWhitespace ([] ++ ended newline t.toList) = strip isWhitespace t.toList :=
    strip_pad pad_nil (pad_newline newline) t.toList
  rw [List.nil_append] at hstrip
  rw [trim_congr hstrip, String.ofList_toList]

theorem parse_direct_iff (hserde : ReadsJson floats serde)
    (h : read floats t = some (.object object)) (newline : Bool) :
    parseJsonObject serde ((Layout.direct newline : Layout letters).payload t) =
      parseJsonObject serde t ↔ Kept (ended newline t.toList) := by
  have hpayload : stripMarkdownFences ((Layout.direct newline : Layout letters).payload t) =
      inside (ended newline t.toList) := strip_payload _ _
  constructor
  · intro hparse
    by_contra hkept
    simp only [Kept, not_or, not_not] at hkept
    obtain ⟨hline, hinfo, hspace⟩ := hkept
    obtain ⟨body, hbody, hfirst⟩ := exists_line hline
    rw [parse_object hserde h, parse_iff hserde, hpayload, hbody, inside_line hfirst,
      if_neg hspace] at hparse
    exact not_object_after_line h hbody hinfo hparse
  · intro hkept
    refine parse_congr ?_
    rw [hpayload, strip_unfenced h, ← trim_ended newline t]
    by_cases hline : '\n' ∈ ended newline t.toList
    · obtain ⟨body, hbody, hfirst⟩ := exists_line hline
      rcases hkept with hnone | hblank | hspace
      · exact absurd hline hnone
      · have hpad : Pad isWhitespace (firstLine (ended newline t.toList) ++ ['\n']) :=
          hblank.append (pad_newline true)
        have hstrip := strip_pad hpad pad_nil body
        rw [List.append_nil, List.append_assoc, List.singleton_append, ← hbody] at hstrip
        rw [trim_congr hstrip, hbody, inside_line hfirst, strip_eq_nil.mpr hblank,
          if_neg (by simp)]
      · rw [hbody, inside_line hfirst, if_pos hspace]
    · exact inside_whole hline

theorem parse_layout_iff (hserde : ReadsJson floats serde)
    (h : read floats t = some (.object object)) (layout : Layout letters) :
    parseJsonObject serde (layout.payload t) = parseJsonObject serde t ↔
      layout.Clear t.toList := by
  cases layout with
  | opened tag htag =>
    refine iff_of_true (parse_congr ?_) trivial
    rw [strip_payload, strip_unfenced h]
    exact inside_opened htag t
  | direct newline => exact parse_direct_iff hserde h newline

end Layouts

/-- What may be left of a payload without the text that was read off it: blanks, and
fences around the text with a tag after the first. -/
inductive Cosmetic (letters : Letters) : List Char → List Char → Prop
  | blank {before after : List Char} (hbefore : Pad isWhitespace before)
    (hafter : Pad isWhitespace after) : Cosmetic letters before after
  | fenced {w₁ w₂ tag w₃ w₄ w₅ : List Char} (h₁ : Pad isWhitespace w₁) (h₂ : Pad isWhitespace w₂)
    (htag : ∀ c ∈ tag, isTagChar letters c = true) (h₃ : Pad isWhitespace w₃)
    (h₄ : Pad isWhitespace w₄) (h₅ : Pad isWhitespace w₅) :
    Cosmetic letters (w₁ ++ (fence ++ (w₂ ++ (tag ++ w₃)))) (w₄ ++ (fence ++ w₅))

/-- No other text is ignored. -/
def LeavesCosmetics (letters : Letters) (payload : String) : Prop :=
  ∃ before after, payload.toList = before ++ ((stripMarkdownFences payload).toList ++ after) ∧
    Cosmetic letters before after

/-- A fenced block with something on the line of its opening fence that has no
space in it and is no tag. -/
def Remarks (letters : Letters) (payload : String) : Prop :=
  ∃ info body, (trim payload).toList = fence ++ ((info ++ '\n' :: body) ++ fence) ∧ '\n' ∉ info ∧
    ' ' ∉ strip isWhitespace info ∧ ∃ c ∈ strip isWhitespace info, isTagChar letters c = false

section Leftovers

variable {floats : Floats} {serde : SerdeJson} {payload : String} {object : List (String × Value)}

theorem exists_trim (l : List Char) :
    ∃ lead tail, l = lead ++ ((trim (String.ofList l)).toList ++ tail) ∧ Pad isWhitespace lead ∧
      Pad isWhitespace tail := by
  rw [toList_trim, String.toList_ofList]
  exact exists_strip isWhitespace l

theorem leaves_whole {inner : List Char} (hinner : (trim payload).toList = fence ++ (inner ++ fence))
    (h : stripMarkdownFences payload = trim (String.ofList inner)) :
    LeavesCosmetics letters payload := by
  obtain ⟨w₁, w₅, hpayload, h₁, h₅⟩ := exists_strip isWhitespace payload.toList
  obtain ⟨w₂, w₄, hinner', h₂, h₄⟩ := exists_trim inner
  refine ⟨w₁ ++ (fence ++ (w₂ ++ ([] ++ []))), w₄ ++ (fence ++ w₅), ?_,
    .fenced h₁ h₂ (by simp) pad_nil h₄ h₅⟩
  rw [hpayload, ← toList_trim, hinner, h]
  nth_rewrite 1 [hinner']
  simp

theorem leaves_body {info body : List Char}
    (hinner : (trim payload).toList = fence ++ ((info ++ '\n' :: body) ++ fence))
    (htag : ∀ c ∈ strip isWhitespace info, isTagChar letters c = true)
    (h : stripMarkdownFences payload = trim (String.ofList body)) :
    LeavesCosmetics letters payload := by
  obtain ⟨w₁, w₅, hpayload, h₁, h₅⟩ := exists_strip isWhitespace payload.toList
  obtain ⟨w₂, w₃, hinfo, h₂, h₃⟩ := exists_strip isWhitespace info
  obtain ⟨w₃', w₄, hbody, h₃', h₄⟩ := exists_trim body
  have hbetween : Pad isWhitespace (w₃ ++ (['\n'] ++ w₃')) :=
    h₃.append ((pad_newline true).append h₃')
  refine ⟨_, _, ?_, Cosmetic.fenced h₁ h₂ htag hbetween h₄ h₅⟩
  rw [hpayload, ← toList_trim, hinner, h]
  nth_rewrite 1 [hinfo, hbody]
  simp

theorem leaves_of_not_remarks (h : ¬ Remarks letters payload) : LeavesCosmetics letters payload := by
  rcases strip_cases payload with ⟨-, hstrip⟩ | ⟨inner, hinner, hstrip⟩
  · obtain ⟨lead, tail, hpayload, hlead, htail⟩ := exists_strip isWhitespace payload.toList
    refine ⟨lead, tail, ?_, .blank hlead htail⟩
    rwa [hstrip, toList_trim]
  · by_cases hline : '\n' ∈ inner
    · obtain ⟨info, body, rfl, hinfo⟩ := List.eq_append_cons_of_mem hline
      rw [inside_line hinfo] at hstrip
      split_ifs at hstrip with hspace
      · exact leaves_whole hinner hstrip
      · refine leaves_body hinner (fun c hc => ?_) hstrip
        by_contra htag
        exact h ⟨info, body, hinner, hinfo, hspace, c, hc, by simpa using htag⟩
    · rw [inside_whole hline] at hstrip
      exact leaves_whole hinner hstrip

/-- What is left before the text that was read is the opening fence with its line and
blanks, where the text ends with a brace. -/
theorem before_eq {before before' core w₄ w₅ w₄' w₅' : List Char} (h₄ : Pad isWhitespace w₄)
    (h₅ : Pad isWhitespace w₅) (h₄' : Pad isWhitespace w₄') (h₅' : Pad isWhitespace w₅')
    (h : before ++ (core ++ ['}'] ++ (w₄ ++ (fence ++ w₅))) =
      before' ++ (core ++ ['}'] ++ (w₄' ++ (fence ++ w₅')))) : before = before' := by
  have hpad {w w' : List Char} (hw : Pad isWhitespace w) (hw' : Pad isWhitespace w') :
      Pad (· != '}') (w ++ (fence ++ w')) := by
    have hblank {l : List Char} (hl : Pad isWhitespace l) : Pad (· != '}') l := by
      intro c hc
      have hne : c ≠ '}' := by
        rintro rfl
        exact absurd (hl _ hc) (by decide)
      simpa using hne
    exact (hblank hw).append (Pad.append (by simp [Pad, fence]) (hblank hw'))
  have hsplit : (before ++ core) ++ '}' :: (w₄ ++ (fence ++ w₅)) =
      (before' ++ core) ++ '}' :: (w₄' ++ (fence ++ w₅')) := by
    simpa using h
  obtain ⟨hbefore, -, -⟩ := last_split (by simp) (by simp) (hpad h₄ h₅) (hpad h₄' h₅') hsplit
  exact List.append_cancel_right hbefore

theorem after_fence {w w' l l' : List Char} (hw : Pad isWhitespace w) (hw' : Pad isWhitespace w')
    (h : w ++ (fence ++ l) = w' ++ (fence ++ l')) : l = l' := by
  have hdrop := congrArg (List.dropWhile isWhitespace) h
  rw [List.dropWhile_append_of_pos hw, List.dropWhile_append_of_pos hw'] at hdrop
  have hfence (m : List Char) : (fence ++ m).dropWhile isWhitespace = fence ++ m := rfl
  rw [hfence, hfence] at hdrop
  exact List.append_cancel_left hdrop

theorem not_leaves_of_remarks (hserde : ReadsJson floats serde)
    (h : parseJsonObject serde payload = .ok object) (hremarks : Remarks letters payload) :
    ¬ LeavesCosmetics letters payload := by
  obtain ⟨info, body, hinner, hinfo, hspace, c, hc, htag⟩ := hremarks
  have hstrip : stripMarkdownFences payload = trim (String.ofList body) := by
    rw [strip_fenced hinner, inside_line hinfo, if_neg hspace]
  rw [parse_iff hserde, hstrip] at h
  obtain ⟨core, hcore, -⟩ := braces_of_trim h
  rw [toList_trim, strip_strip, String.toList_ofList] at hcore
  rintro ⟨before, after, hpayload, hcosmetic⟩
  rw [hstrip, toList_trim, String.toList_ofList, hcore] at hpayload
  cases hcosmetic with
  | blank hbefore hafter =>
    rw [toList_trim, hpayload, strip_pad hbefore hafter, strip_bounded rfl rfl] at hinner
    simp [fence] at hinner
  | @fenced w₁ w₂ tag w₃ w₄ w₅ h₁ h₂ htags h₃ h₄ h₅ =>
    obtain ⟨lead, tail, hwhole, hlead, htail⟩ := exists_strip isWhitespace payload.toList
    obtain ⟨lead', tail', hbody, hlead', htail'⟩ := exists_strip isWhitespace body
    rw [← toList_trim, hinner, hpayload, hbody, hcore] at hwhole
    have hsame : w₁ ++ (fence ++ (w₂ ++ (tag ++ w₃))) ++
        ('{' :: core ++ ['}'] ++ (w₄ ++ (fence ++ w₅))) =
        lead ++ (fence ++ (info ++ '\n' :: lead')) ++
          ('{' :: core ++ ['}'] ++ (tail' ++ (fence ++ tail))) := by
      simpa using hwhole
    have hbefore := before_eq h₄ h₅ htail' htail hsame
    have hline : w₂ ++ (tag ++ w₃) = info ++ '\n' :: lead' := after_fence h₁ hlead hbefore
    have hstripped : strip isWhitespace ([] ++ (info ++ '\n' :: lead')) =
        strip isWhitespace info :=
      strip_pad pad_nil ((pad_newline true).append hlead') info
    have hclean : ∀ c ∈ tag, isWhitespace c = false :=
      fun c hc => isWhitespace_of_isTagChar (htags c hc)
    rw [List.nil_append, ← hline, strip_pad h₂ h₃, strip_clean hclean] at hstripped
    rw [← hstripped] at hc
    simp [htags c hc] at htag

end Leftovers

/-- Fences are cosmetic but for two cases of the first line after the opening one: where
the text of the object starts on it, without a space and not to its end, that line is
lost; and what stands on it without a space and is no tag is ignored. -/
theorem fences_cosmetic_iff (letters : Letters) {floats : Floats} {serde : SerdeJson}
    (hserde : ReadsJson floats serde) :
    (∀ t object, read floats t = some (.object object) → ∀ layout : Layout letters,
        (parseJsonObject serde (layout.payload t) = parseJsonObject serde t ↔
          layout.Clear t.toList)) ∧
      ∀ payload object, parseJsonObject serde payload = .ok object →
        (LeavesCosmetics letters payload ↔ ¬ Remarks letters payload) := by
  refine ⟨fun t object h layout => parse_layout_iff hserde h layout, fun payload object h => ?_⟩
  refine ⟨fun hleaves hremarks => ?_, leaves_of_not_remarks⟩
  exact not_leaves_of_remarks hserde h hremarks hleaves

def asciiLetters : Letters where
  isLetter := Char.isAlpha
  visible c h := by
    change (decide (65 ≤ c.val ∧ c.val ≤ 90) ||
      (decide (97 ≤ c.val) && decide (c.val ≤ 122))) = true at h
    have hrange : (65 ≤ c.toNat ∧ c.toNat ≤ 90) ∨ (97 ≤ c.toNat ∧ c.toNat ≤ 122) := by
      simpa [UInt32.le_iff_toNat_le] using h
    exact isWhitespace_of_between (by omega) (by omega)

def jsonSerde : SerdeJson where
  fromStr text := match read zeroFloats text with
    | some value => .ok value
    | none => .error "expected value"
  toString value := String.ofList (write zeroFloats value)

theorem readsJson_jsonSerde : ReadsJson zeroFloats jsonSerde := by
  intro text
  simp only [jsonSerde]
  cases read zeroFloats text with
  | none => rfl
  | some value => rfl

def emptyObject : String := "\x7b\x7d"

def remarkPayload : String := "```Here-is-the-answer!\n\x7b\x7d```"

def taggedPayload : String := "```json\n\x7b\x7d```"

theorem fences_not_cosmetic :
    parseJsonObject jsonSerde ((Layout.direct true : Layout asciiLetters).payload emptyObject) ≠
        parseJsonObject jsonSerde emptyObject ∧
      parseJsonObject jsonSerde remarkPayload = .ok [] ∧
      ¬ LeavesCosmetics asciiLetters remarkPayload := by
  have hparse : parseJsonObject jsonSerde remarkPayload = .ok [] := rfl
  have hlost : parseJsonObject jsonSerde
      ((Layout.direct true : Layout asciiLetters).payload emptyObject) =
      .error "proposal is not valid JSON: expected value" := rfl
  have hfound : parseJsonObject jsonSerde emptyObject = .ok [] := rfl
  refine ⟨by simp [hlost, hfound], hparse, not_leaves_of_remarks readsJson_jsonSerde hparse ?_⟩
  exact ⟨"Here-is-the-answer!".toList, emptyObject.toList, by decide, by decide, by decide, '!',
    by decide, by decide⟩

theorem fences_cosmetic_tagged :
    parseJsonObject jsonSerde ((Layout.direct false : Layout asciiLetters).payload emptyObject) =
        parseJsonObject jsonSerde emptyObject ∧
      LeavesCosmetics asciiLetters taggedPayload := by
  have hfences := fences_cosmetic_iff asciiLetters readsJson_jsonSerde
  refine ⟨(hfences.1 emptyObject [] rfl (.direct false)).mpr (.inl (by decide)), ?_⟩
  refine (hfences.2 taggedPayload [] rfl).mpr ?_
  rintro ⟨info, body, hinner, hinfo, -, c, hc, htag⟩
  have hwhole : (trim taggedPayload).toList =
      fence ++ (("json".toList ++ '\n' :: emptyObject.toList) ++ fence) := by decide
  rw [hwhole, List.append_cancel_left_eq, List.append_cancel_right_eq] at hinner
  have hsplit := congrArg (splitOnce '\n') hinner
  rw [splitOnce_some (by decide), splitOnce_some hinfo] at hsplit
  obtain ⟨rfl, -⟩ := Prod.mk.inj (Option.some.inj hsplit)
  have hjson : (strip isWhitespace "json".toList).all (isTagChar asciiLetters) = true := by decide
  simp [List.all_eq_true.mp hjson c hc] at htag

end Choreographer.Fences
