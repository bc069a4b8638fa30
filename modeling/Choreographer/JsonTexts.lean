import Choreographer.Documents
import Choreographer.Lib.Brackets
import Choreographer.Lib.Padding
import Choreographer.Lib.Readers

namespace Choreographer.JsonTexts

open Choreographer.Lib.SortedMaps Choreographer.Lib.Brackets Choreographer.Lib.Padding
open Choreographer.Lib.Readers
open Choreographer.Texts Choreographer.Values Choreographer.Documents

section Numbers

def isNumeral (c : Char) : Bool :=
  isAsciiDigit c || c == '-' || c == '+' || c == '.' || c == 'e' || c == 'E'

/-- How a number that is not a whole one, or too large for one, is written and
read. Nothing is read off what is no number or out of range. -/
structure Floats where
  write : U64 → List Char
  read : List Char → Option U64
  read_nil : read [] = none
  write_ne : ∀ bits, write bits ≠ []
  write_numeral : ∀ bits, ∀ c ∈ write bits, isNumeral c = true

def zeroFloats : Floats where
  write _ := ['0', '.', '0']
  read s := if s = ['0', '.', '0'] then some 0 else none
  read_nil := rfl
  write_ne _ := by decide
  write_numeral _ := List.all_eq_true.mp (by decide)

variable (floats : Floats)

def readWhole (digits : List Char) : Option Nat :=
  let n := Nat.ofDigitChars 10 digits 0
  if Nat.toDigits 10 n = digits then some n else none

def readPosInt (s : List Char) : Option Number :=
  (readWhole s).bind fun n => if h : n < 2 ^ 64 then some (.posInt ⟨n, h⟩) else none

/-- The number one below zero is the first of the negative ones. -/
def readNegInt (s : List Char) : Option Number := do
  let digits ← expect '-' s
  let n ← readWhole digits
  if h : 0 < n ∧ n ≤ 2 ^ 63 then some (.negInt ⟨n - 1, by omega⟩) else none

def readNumber (s : List Char) : Option Number :=
  (readPosInt s).or ((readNegInt s).or ((floats.read s).map .float))

def writeNumber : Number → List Char
  | .posInt n => Nat.toDigits 10 n.val
  | .negInt n => '-' :: Nat.toDigits 10 (n.val + 1)
  | .float bits => floats.write bits

end Numbers

section Strings

def hexDigit (c : Char) : Option Nat :=
  if '0' ≤ c ∧ c ≤ '9' then some (c.toNat - 48)
  else if 'a' ≤ c ∧ c ≤ 'f' then some (c.toNat - 87)
  else if 'A' ≤ c ∧ c ≤ 'F' then some (c.toNat - 55)
  else none

def readHex : List Char → Option (Nat × List Char)
  | a :: b :: c :: d :: rest => do
    let a ← hexDigit a
    let b ← hexDigit b
    let c ← hexDigit c
    let d ← hexDigit d
    pure (((a * 16 + b) * 16 + c) * 16 + d, rest)
  | _ => none

/-- A character outside of the first plane is written as two escapes, and neither
of them stands alone. -/
def readUnicode (s : List Char) : Option (Char × List Char) := do
  let first ← readHex s
  if 0xd800 ≤ first.1 ∧ first.1 < 0xdc00 then
    let rest ← expect '\\' first.2
    let rest ← expect 'u' rest
    let second ← readHex rest
    if 0xdc00 ≤ second.1 ∧ second.1 < 0xe000 then
      some (Char.ofNat (0x10000 + (first.1 - 0xd800) * 0x400 + (second.1 - 0xdc00)), second.2)
    else none
  else if 0xdc00 ≤ first.1 ∧ first.1 < 0xe000 then none
  else some (Char.ofNat first.1, first.2)

def shortEscapes : List (Char × Char) :=
  [('"', '"'), ('\\', '\\'), ('/', '/'), ('b', '\x08'), ('f', '\x0c'), ('n', '\n'), ('r', '\r'),
    ('t', '\t')]

def readEscape : List Char → Option (Char × List Char)
  | [] => none
  | c :: rest =>
    if c = 'u' then readUnicode rest else (shortEscapes.lookup c).map fun meant => (meant, rest)

def readChar (c : Char) (rest : List Char) : Option (Char × List Char) :=
  if c = '\\' then readEscape rest else some (c, rest)

/-- A text up to the quotation mark that ends it. No control character stands in it
as itself. -/
def readText : Nat → List Char → Option (List Char × List Char)
  | 0, _ => none
  | _ + 1, [] => none
  | n + 1, c :: rest =>
    if c = '"' then some ([], rest)
    else if c.toNat < 0x20 then none
    else
      (readChar c rest).bind fun first =>
        (readText n first.2).map fun others => (first.1 :: others.1, others.2)

def writeChar (c : Char) : List Char :=
  if c = '"' then ['\\', '"']
  else if c = '\\' then ['\\', '\\']
  else if c = '\x08' then ['\\', 'b']
  else if c = '\x0c' then ['\\', 'f']
  else if c = '\n' then ['\\', 'n']
  else if c = '\r' then ['\\', 'r']
  else if c = '\t' then ['\\', 't']
  else if c.toNat < 0x20 then
    ['\\', 'u', '0', '0', Nat.digitChar (c.toNat / 16), Nat.digitChar (c.toNat % 16)]
  else [c]

def writeText (s : String) : List Char := '"' :: (s.toList.flatMap writeChar ++ ['"'])

def readString (s : List Char) : Option (String × List Char) := do
  let rest ← expect '"' s
  let text ← readText rest.length rest
  pure (String.ofList text.1, text.2)

end Strings

section Values

variable (floats : Floats)

def isBlank (c : Char) : Bool := c == ' ' || c == '\n' || c == '\r' || c == '\t'

def readWord (s : List Char) (word : String) (value : Value) : Option (Value × List Char) :=
  (s.dropPrefix? word.toList).map fun rest => (value, rest)

def readNumeral (s : List Char) : Option (Value × List Char) :=
  (readNumber floats (s.takeWhile isNumeral)).map fun n => (.number n, s.dropWhile isNumeral)

def readScalar (s : List Char) : Option (Value × List Char) :=
  ((readString s).map fun text => (.string text.1, text.2)).or
    ((readNumeral floats s).or
      ((readWord s "null" .null).or
        ((readWord s "true" (.bool true)).or (readWord s "false" (.bool false)))))

def readField (item : List Char → Option (Value × List Char)) (s : List Char) :
    Option ((String × Value) × List Char) := do
  let key ← readString s
  let rest ← expect ':' (skip isBlank key.2)
  let value ← item (skip isBlank rest)
  pure ((key.1, value.1), value.2)

def readValue : Nat → List Char → Option (Value × List Char)
  | 0, s => readScalar floats s
  | depth + 1, s =>
    (((expect '[' s).bind (listing isBlank ',' ']' (readValue depth))).map fun items =>
        (.array items.1, items.2)).or
      ((((expect '{' s).bind (listing isBlank ',' '}' (readField (readValue depth)))).map fun fields =>
          (.object (OrdMap.ofList fields.1).entries, fields.2)).or
        (readScalar floats s))

def maxNesting : Nat := 127

def read (text : String) : Option Value :=
  (readValue floats maxNesting (strip isBlank text.toList)).bind fun value =>
    if value.2 = [] then some value.1 else none

mutual

def write : Value → List Char
  | .null => "null".toList
  | .bool true => "true".toList
  | .bool false => "false".toList
  | .number n => writeNumber floats n
  | .string s => writeText s
  | .array items => '[' :: (joined ',' (writeItems items) ++ [']'])
  | .object entries => '{' :: (joined ',' (writeFields entries) ++ ['}'])

def writeItems : List Value → List (List Char)
  | [] => []
  | item :: items => write item :: writeItems items

def writeFields : List (String × Value) → List (List Char)
  | [] => []
  | (key, value) :: entries => (writeText key ++ ':' :: write value) :: writeFields entries

end

end Values

section NumbersBack

variable {floats : Floats}

theorem readWhole_toDigits (n : Nat) : readWhole (Nat.toDigits 10 n) = some n := by
  simp [readWhole, Nat.ofDigitChars_ten_toDigits]

theorem isAsciiDigit_of_mem {n : Nat} {c : Char} (h : c ∈ Nat.toDigits 10 n) :
    isAsciiDigit c = true := by
  have hdigit := Nat.isDigit_of_mem_toDigits (b := 10) (n := n) (by omega) (by omega) h
  simpa [Char.isDigit, isAsciiDigit, Char.le_def, UInt32.le_iff_toNat_le] using hdigit

theorem readPosInt_minus (digits : List Char) : readPosInt ('-' :: digits) = none := by
  have hne : Nat.toDigits 10 (Nat.ofDigitChars 10 ('-' :: digits) 0) ≠ '-' :: digits := by
    intro h
    have hdigit := isAsciiDigit_of_mem (h ▸ List.mem_cons_self : '-' ∈ Nat.toDigits 10 _)
    revert hdigit
    decide
  simp [readPosInt, readWhole, hne]

theorem readNumber_writeNumber {n : Number} (h : ∀ bits, n ≠ .float bits) :
    readNumber floats (writeNumber floats n) = some n := by
  cases n with
  | posInt n => simp [readNumber, writeNumber, readPosInt, readWhole_toDigits]
  | negInt n =>
    have hn : 0 < n.val + 1 ∧ n.val + 1 ≤ 2 ^ 63 := ⟨Nat.succ_pos _, n.isLt⟩
    have hread : readNegInt ('-' :: Nat.toDigits 10 (n.val + 1)) = some (.negInt n) := by
      simp only [readNegInt, expect_cons_self, Option.bind_eq_bind, Option.bind_some,
        readWhole_toDigits, dif_pos hn]
      rfl
    rw [readNumber, writeNumber, readPosInt_minus, hread]
    rfl
  | float bits => exact absurd rfl (h bits)

theorem writeNumber_numeral (floats : Floats) (n : Number) :
    ∀ c ∈ writeNumber floats n, isNumeral c = true := by
  cases n with
  | posInt n =>
    intro c hc
    simp [isNumeral, isAsciiDigit_of_mem hc]
  | negInt n =>
    intro c hc
    rcases List.mem_cons.mp hc with rfl | hc
    · rfl
    · simp [isNumeral, isAsciiDigit_of_mem hc]
  | float bits => exact floats.write_numeral bits

theorem writeNumber_ne (floats : Floats) (n : Number) : writeNumber floats n ≠ [] := by
  cases n with
  | posInt n => exact Nat.toDigits_ne_nil
  | negInt n => simp [writeNumber]
  | float bits => exact floats.write_ne bits

end NumbersBack

section StringsBack

theorem hexDigit_digitChar : ∀ n < 16, hexDigit (Nat.digitChar n) = some n := by decide

theorem readHex_control {n : Nat} (h : n < 0x20) (rest : List Char) :
    readHex ('0' :: '0' :: Nat.digitChar (n / 16) :: Nat.digitChar (n % 16) :: rest) =
      some (n, rest) := by
  have hzero : hexDigit '0' = some 0 := rfl
  have hvalue : n / 16 * 16 + n % 16 = n := by omega
  simp [readHex, hzero, hexDigit_digitChar (n / 16) (by omega),
    hexDigit_digitChar (n % 16) (by omega), hvalue]

theorem readText_escape {c meant : Char} {rest s : List Char} (n : Nat)
    (h : readEscape (c :: rest) = some (meant, s)) :
    readText (n + 1) ('\\' :: c :: rest) =
      (readText n s).map fun others => (meant :: others.1, others.2) := by
  have hquote : '\\' ≠ '"' := by decide
  have hcontrol : ¬ '\\'.toNat < 0x20 := by decide
  rw [readText, if_neg hquote, if_neg hcontrol, readChar, if_pos rfl, h, Option.bind_some]

theorem readText_writeChar (c : Char) (n : Nat) (rest : List Char) :
    readText (n + 1) (writeChar c ++ rest) =
      (readText n rest).map fun others => (c :: others.1, others.2) := by
  unfold writeChar
  split_ifs with h1 h2 h3 h4 h5 h6 h7 h8
  · subst h1
    exact readText_escape n rfl
  · subst h2
    exact readText_escape n rfl
  · subst h3
    exact readText_escape n rfl
  · subst h4
    exact readText_escape n rfl
  · subst h5
    exact readText_escape n rfl
  · subst h6
    exact readText_escape n rfl
  · subst h7
    exact readText_escape n rfl
  · refine readText_escape n ?_
    have hrange : ¬ (0xd800 ≤ c.toNat ∧ c.toNat < 0xdc00) := by omega
    have hrange' : ¬ (0xdc00 ≤ c.toNat ∧ c.toNat < 0xe000) := by omega
    simp [readEscape, readUnicode, readHex_control h8, hrange, hrange']
  · rw [List.cons_append, List.nil_append, readText, if_neg h1, if_neg h8, readChar, if_neg h2,
      Option.bind_some]

theorem readText_write {cs : List Char} {n : Nat} (h : cs.length < n) (rest : List Char) :
    readText n (cs.flatMap writeChar ++ '"' :: rest) = some (cs, rest) := by
  induction cs generalizing n with
  | nil =>
    cases n with
    | zero => simp at h
    | succ n => simp [readText]
  | cons c cs ih =>
    cases n with
    | zero => simp at h
    | succ n =>
      rw [List.flatMap_cons, List.append_assoc, readText_writeChar,
        ih (Nat.lt_of_succ_lt_succ h)]
      rfl

theorem writeChar_ne (c : Char) : writeChar c ≠ [] := by
  unfold writeChar
  split_ifs <;> simp

theorem length_le_flatMap_writeChar (cs : List Char) :
    cs.length ≤ (cs.flatMap writeChar).length := by
  induction cs with
  | nil => simp
  | cons c cs ih =>
    have hc := List.length_pos_iff.mpr (writeChar_ne c)
    rw [List.flatMap_cons, List.length_append, List.length_cons]
    omega

theorem readString_writeText (s : String) (rest : List Char) :
    readString (writeText s ++ rest) = some (s, rest) := by
  have hn : s.toList.length < (s.toList.flatMap writeChar ++ '"' :: rest).length := by
    have hle := length_le_flatMap_writeChar s.toList
    rw [List.length_append, List.length_cons]
    omega
  rw [writeText, List.cons_append, List.append_assoc, List.cons_append, List.nil_append]
  rw [readString, expect_cons_self]
  simp only [Option.bind_eq_bind, Option.bind_some, readText_write hn]
  simp

end StringsBack

section ValuesBack

variable {floats : Floats}

theorem readNumeral_of_not {c : Char} (h : isNumeral c = false) (s : List Char) :
    readNumeral floats (c :: s) = none := by
  have hnil : readNumber floats [] = none := by
    simp [readNumber, readPosInt, readWhole, readNegInt, expect, floats.read_nil]
  simp [readNumeral, h, hnil]

theorem readWord_of_ne {c w : Char} (h : c ≠ w) (s word : List Char) (value : Value) :
    readWord (c :: s) (String.ofList (w :: word)) value = none := by
  simp [readWord, List.dropPrefix?, h]

theorem readScalar_bracket {c : Char} (h : c = '[' ∨ c = '{') (s : List Char) :
    readScalar floats (c :: s) = none := by
  have hstring : readString (c :: s) = none := by
    rcases h with rfl | rfl <;> simp [readString, expect]
  have hnumeral : isNumeral c = false := by
    rcases h with rfl | rfl <;> decide
  have hword : ∀ value, readWord (c :: s) "null" value = none ∧ readWord (c :: s) "true" value = none ∧
      readWord (c :: s) "false" value = none := by
    rcases h with rfl | rfl <;> simp [readWord, List.dropPrefix?]
  simp [readScalar, hstring, readNumeral_of_not hnumeral, hword]

theorem readValue_array (depth : Nat) (s : List Char) :
    readValue floats (depth + 1) ('[' :: s) =
      (listing isBlank ',' ']' (readValue floats depth) s).map fun items =>
        (.array items.1, items.2) := by
  have hbrace : expect '{' ('[' :: s) = none := expect_cons_ne (by decide) s
  simp [readValue, hbrace, readScalar_bracket]

theorem readValue_object (depth : Nat) (s : List Char) :
    readValue floats (depth + 1) ('{' :: s) =
      (listing isBlank ',' '}' (readField (readValue floats depth)) s).map fun fields =>
        (.object (OrdMap.ofList fields.1).entries, fields.2) := by
  have hbracket : expect '[' ('{' :: s) = none := expect_cons_ne (by decide) s
  simp [readValue, hbracket, readScalar_bracket]

theorem readValue_scalar {c : Char} (h : c ≠ '[') (h' : c ≠ '{') (depth : Nat) (s : List Char) :
    readValue floats depth (c :: s) = readScalar floats (c :: s) := by
  cases depth with
  | zero => rfl
  | succ depth => simp [readValue, expect_cons_ne h, expect_cons_ne h']

/-- What follows a number does not go on with it. -/
def Stops (rest : List Char) : Prop := ∀ c ∈ rest.head?, isNumeral c = false

theorem takeWhile_append_stops {s rest : List Char} (h : ∀ c ∈ s, isNumeral c = true)
    (hrest : Stops rest) :
    (s ++ rest).takeWhile isNumeral = s ∧ (s ++ rest).dropWhile isNumeral = rest := by
  rw [List.takeWhile_append_of_pos h, List.dropWhile_append_of_pos h]
  cases rest with
  | nil => simp
  | cons c rest => simp [hrest c rfl]

theorem readScalar_numeral {c : Char} (h : isNumeral c = true) (s : List Char) :
    readScalar floats (c :: s) = readNumeral floats (c :: s) := by
  have hne (w : Char) (hw : isNumeral w = false) : c ≠ w := by
    rintro rfl
    simp [h] at hw
  have hstring : readString (c :: s) = none := by
    simp [readString, expect_cons_ne (hne '"' (by decide))]
  have hnull : readWord (c :: s) "null" .null = none := readWord_of_ne (hne 'n' (by decide)) ..
  have htrue : readWord (c :: s) "true" (.bool true) = none :=
    readWord_of_ne (hne 't' (by decide)) ..
  have hfalse : readWord (c :: s) "false" (.bool false) = none :=
    readWord_of_ne (hne 'f' (by decide)) ..
  simp [readScalar, hstring, hnull, htrue, hfalse]

theorem writeNumber_cons (floats : Floats) (n : Number) :
    ∃ c s, writeNumber floats n = c :: s ∧ isNumeral c = true := by
  obtain ⟨c, s, hs⟩ := List.exists_cons_of_ne_nil (writeNumber_ne floats n)
  exact ⟨c, s, hs, writeNumber_numeral floats n c (by rw [hs]; exact List.mem_cons_self)⟩

theorem readValue_number (depth : Nat) (n : Number) {rest : List Char} (h : Stops rest) :
    readValue floats depth (writeNumber floats n ++ rest) =
      (readNumber floats (writeNumber floats n)).map fun m => (.number m, rest) := by
  obtain ⟨htake, hdrop⟩ := takeWhile_append_stops (writeNumber_numeral floats n) h
  obtain ⟨c, s, hs, hc⟩ := writeNumber_cons floats n
  have hbracket : c ≠ '[' := by
    rintro rfl
    exact absurd hc (by decide)
  have hbrace : c ≠ '{' := by
    rintro rfl
    exact absurd hc (by decide)
  rw [hs, List.cons_append, readValue_scalar hbracket hbrace, readScalar_numeral hc,
    ← List.cons_append, ← hs, readNumeral, htake, hdrop]

theorem readValue_string (depth : Nat) (s : String) (rest : List Char) :
    readValue floats depth (writeText s ++ rest) = some (.string s, rest) := by
  have hread := readString_writeText s rest
  rw [writeText, List.cons_append] at hread ⊢
  rw [readValue_scalar (by decide) (by decide), readScalar, hread]
  rfl

theorem isBlank_of_isNumeral {c : Char} (h : isNumeral c = true) : isBlank c = false := by
  by_contra hblank
  simp only [Bool.not_eq_false, isBlank, Bool.or_eq_true, beq_iff_eq] at hblank
  rcases hblank with ((rfl | rfl) | rfl) | rfl <;> exact absurd h (by decide)

theorem write_cons (floats : Floats) (value : Value) :
    ∃ c s, write floats value = c :: s ∧ isBlank c = false ∧ c ≠ ']' ∧ c ≠ '}' := by
  cases value with
  | null => exact ⟨'n', _, rfl, by decide⟩
  | bool b =>
    cases b with
    | true => exact ⟨'t', _, rfl, by decide⟩
    | false => exact ⟨'f', _, rfl, by decide⟩
  | number n =>
    obtain ⟨c, s, hs, hc⟩ := writeNumber_cons floats n
    have hne (w : Char) (hw : isNumeral w = false) : c ≠ w := by
      rintro rfl
      simp [hc] at hw
    exact ⟨c, s, hs, isBlank_of_isNumeral hc, hne ']' (by decide), hne '}' (by decide)⟩
  | string s => exact ⟨'"', _, rfl, by decide⟩
  | array items => exact ⟨'[', _, rfl, by decide⟩
  | object entries => exact ⟨'{', _, rfl, by decide⟩

theorem writeItems_eq (items : List Value) : writeItems floats items = items.map (write floats) := by
  induction items with
  | nil => rfl
  | cons item items ih => rw [writeItems, ih, List.map_cons]

def fieldText (floats : Floats) (e : String × Value) : List Char :=
  writeText e.1 ++ ':' :: write floats e.2

theorem writeFields_eq (entries : List (String × Value)) :
    writeFields floats entries = entries.map (fieldText floats) := by
  induction entries with
  | nil => rfl
  | cons e entries ih => rw [writeFields, ih, List.map_cons, fieldText]

/-- What is read where a document was written: numbers can come back changed, and
what nests too deep does not come back. -/
def reread (floats : Floats) : Nat → Value → Option Value
  | _, .null => some .null
  | _, .bool b => some (.bool b)
  | _, .number n => (readNumber floats (writeNumber floats n)).map .number
  | _, .string s => some (.string s)
  | 0, .array _ | 0, .object _ => none
  | depth + 1, .array items => (items.mapM (reread floats depth)).map .array
  | depth + 1, .object entries =>
    (entries.mapM fun e => (reread floats depth e.2).map fun value => (e.1, value)).map
      fun fields => .object (OrdMap.ofList fields).entries

theorem readField_write {item : List Char → Option (Value × List Char)} {f : Value → Option Value}
    {e : String × Value} {rest : List Char}
    (h : item (write floats e.2 ++ rest) = (f e.2).map fun back => (back, rest)) :
    readField item (fieldText floats e ++ rest) =
      ((f e.2).map fun value => (e.1, value)).map fun field => (field, rest) := by
  obtain ⟨c, s, hs, hblank, -⟩ := write_cons floats e.2
  have hskip : skip isBlank (write floats e.2 ++ rest) = write floats e.2 ++ rest := by
    rw [hs, List.cons_append, skip_cons hblank]
  have hcolon (l : List Char) : skip isBlank (':' :: l) = ':' :: l := skip_cons (by decide) l
  rw [fieldText, List.append_assoc, List.cons_append, readField, readString_writeText]
  simp only [Option.bind_eq_bind, Option.bind_some, hcolon, expect_cons_self, hskip, h]
  cases f e.2 with
  | none => rfl
  | some back => rfl

theorem stops_cons {c : Char} (h : isNumeral c = false) (rest : List Char) : Stops (c :: rest) := by
  intro c' hc'
  rwa [← Option.some.inj hc']

theorem stops_mark {close c : Char} (hclose : isNumeral close = false) (h : c = ',' ∨ c = close)
    (rest : List Char) : Stops (c :: rest) := by
  rcases h with rfl | rfl
  · exact stops_cons (by decide) rest
  · exact stops_cons hclose rest

theorem readValue_word {c : Char} (hquote : c ≠ '"') (hnumeral : isNumeral c = false) (h : c ≠ '[')
    (h' : c ≠ '{') (depth : Nat) (s : List Char) :
    readValue floats depth (c :: s) =
      (readWord (c :: s) "null" .null).or
        ((readWord (c :: s) "true" (.bool true)).or (readWord (c :: s) "false" (.bool false))) := by
  have hstring : readString (c :: s) = none := by
    simp [readString, expect_cons_ne hquote]
  rw [readValue_scalar h h', readScalar, hstring, readNumeral_of_not hnumeral]
  rfl

theorem readValue_write_scalar {value : Value} (hvalue : isContainer value = false) (depth : Nat)
    {rest : List Char} (h : Stops rest) :
    readValue floats depth (write floats value ++ rest) =
      (reread floats depth value).map fun back => (back, rest) := by
  cases value with
  | null =>
    have hword : write floats .null = ['n', 'u', 'l', 'l'] := rfl
    rw [hword, List.cons_append, readValue_word (by decide) (by decide) (by decide) (by decide)]
    simp [readWord, List.dropPrefix?, reread]
  | bool b =>
    cases b with
    | true =>
      have hword : write floats (.bool true) = ['t', 'r', 'u', 'e'] := rfl
      rw [hword, List.cons_append, readValue_word (by decide) (by decide) (by decide) (by decide)]
      simp [readWord, List.dropPrefix?, reread]
    | false =>
      have hword : write floats (.bool false) = ['f', 'a', 'l', 's', 'e'] := rfl
      rw [hword, List.cons_append, readValue_word (by decide) (by decide) (by decide) (by decide)]
      simp [readWord, List.dropPrefix?, reread]
  | number n =>
    rw [write, reread, readValue_number depth n h, Option.map_map]
    rfl
  | string s =>
    rw [write, reread, readValue_string]
    rfl
  | array | object => simp [isContainer] at hvalue

theorem punctuated_items (items : List Value) :
    Punctuated isBlank ',' ']' (items.map (write floats)) := by
  refine ⟨by decide, by decide, by decide, fun text htext => ?_⟩
  obtain ⟨item, -, rfl⟩ := List.mem_map.mp htext
  obtain ⟨c, s, hs, hblank, hclose, -⟩ := write_cons floats item
  exact ⟨c, s, hs, hblank, hclose⟩

theorem punctuated_fields (entries : List (String × Value)) :
    Punctuated isBlank ',' '}' (entries.map (fieldText floats)) := by
  refine ⟨by decide, by decide, by decide, fun text htext => ?_⟩
  obtain ⟨e, -, rfl⟩ := List.mem_map.mp htext
  exact ⟨'"', _, rfl, by decide⟩

theorem readValue_write (depth : Nat) (value : Value) {rest : List Char} (h : Stops rest) :
    readValue floats depth (write floats value ++ rest) =
      (reread floats depth value).map fun back => (back, rest) := by
  induction depth generalizing value rest with
  | zero =>
    cases value with
    | array items | object entries => exact readScalar_bracket (by simp) _
    | null | bool | number | string => exact readValue_write_scalar rfl _ h
  | succ depth ih =>
    cases value with
    | array items =>
      rw [write, writeItems_eq, List.cons_append, List.append_assoc, List.cons_append,
        List.nil_append, readValue_array, listing_written (punctuated_items items)
          fun item _ c l hc => ih item (stops_mark (by decide) hc l), reread]
      cases items.mapM (reread floats depth) with
      | none => rfl
      | some back => rfl
    | object entries =>
      rw [write, writeFields_eq, List.cons_append, List.append_assoc, List.cons_append,
        List.nil_append, readValue_object, listing_written (punctuated_fields entries)
          fun e _ c l hc => readField_write (ih e.2 (stops_mark (by decide) hc l)), reread]
      cases entries.mapM fun e => (reread floats depth e.2).map fun value => (e.1, value) with
      | none => rfl
      | some back => rfl
    | null | bool | number | string => exact readValue_write_scalar rfl _ h

/-- A number that is read as it was written. -/
def Steady (floats : Floats) (bits : U64) : Prop :=
  readNumber floats (floats.write bits) = some (.float bits)

/-- A document whose objects have their keys in order, as every map has them. -/
def Keyed (value : Value) : Prop :=
  ∀ n part, Lies value n part → ∀ entries, part = .object entries →
    entries.Pairwise fun a b => a.1 < b.1

/-- A document that nests within a limit, and whose numbers are all read as they were written. -/
def Returns (floats : Floats) (depth : Nat) (value : Value) : Prop :=
  ∀ n part, Lies value n part →
    passed n part ≤ depth ∧ ∀ bits, part = .number (.float bits) → Steady floats bits

theorem passed_succ (n : Nat) (part : Value) : passed (n + 1) part = passed n part + 1 := by
  unfold passed
  split_ifs <;> rfl

theorem returns_array {depth : Nat} {items : List Value} :
    Returns floats (depth + 1) (.array items) ↔ ∀ item ∈ items, Returns floats depth item := by
  have hroot : passed 0 (.array items) = 1 := rfl
  unfold Returns
  rw [forall_lies_array, hroot]
  simp [passed_succ]

theorem returns_object {depth : Nat} {entries : List (String × Value)} :
    Returns floats (depth + 1) (.object entries) ↔ ∀ e ∈ entries, Returns floats depth e.2 := by
  have hroot : passed 0 (.object entries) = 1 := rfl
  unfold Returns
  rw [forall_lies_object, hroot]
  simp [passed_succ]

theorem not_returns_zero {value : Value} (h : isContainer value = true) :
    ¬ Returns floats 0 value := by
  intro hreturns
  have hpassed := (hreturns 0 value (.root value)).1
  simp [passed, h] at hpassed

theorem reread_scalar {value : Value} (h : isContainer value = false) (depth : Nat) :
    reread floats depth value = some value ↔ Returns floats depth value := by
  unfold Returns
  rw [forall_lies_scalar h]
  cases value with
  | number n =>
    cases n with
    | float bits => simp [reread, writeNumber, Steady, passed, isContainer]
    | posInt n | negInt n =>
      simp [reread, readNumber_writeNumber, passed, isContainer]
  | null | bool b | string s => simp [reread, passed, isContainer]
  | array | object => simp [isContainer] at h

theorem ofList_of_sorted {l : List (String × Value)} (h : l.Pairwise fun a b => a.1 < b.1) :
    (OrdMap.ofList l).entries = l :=
  congrArg OrdMap.entries (OrdMap.ofList_entries ⟨l, h⟩)

theorem keyed_array {items : List Value} (h : Keyed (.array items)) : ∀ item ∈ items, Keyed item :=
  fun _ hmem n part hlies => h (n + 1) part (.item hmem hlies)

theorem keyed_object {entries : List (String × Value)} (h : Keyed (.object entries)) :
    ∀ e ∈ entries, Keyed e.2 :=
  fun _ hmem n part hlies => h (n + 1) part (.field hmem hlies)

/-- A document comes back as it was written just when it nests within the limit and
its numbers come back. -/
theorem reread_eq_self {depth : Nat} {value : Value} (hkeyed : Keyed value) :
    reread floats depth value = some value ↔ Returns floats depth value := by
  induction depth generalizing value with
  | zero =>
    cases value with
    | array items | object entries =>
      simp only [reread, reduceCtorEq, false_iff]
      exact not_returns_zero rfl
    | null | bool | number | string => exact reread_scalar rfl 0
  | succ depth ih =>
    cases value with
    | array items =>
      have hitems : ∀ item ∈ items,
          (reread floats depth item = some item ↔ Returns floats depth item) :=
        fun item hmem => ih (keyed_array hkeyed item hmem)
      rw [returns_array, ← forall₂_congr hitems, ← mapM_eq_self, reread]
      simp
    | object entries =>
      have hfields : ∀ e ∈ entries, ((reread floats depth e.2).map (fun value => (e.1, value)) =
          some e ↔ Returns floats depth e.2) := by
        intro e hmem
        rw [← ih (keyed_object hkeyed e hmem)]
        obtain ⟨key, value⟩ := e
        simp
      rw [returns_object, ← forall₂_congr hfields, ← mapM_eq_self, reread]
      cases hback : entries.mapM fun e => (reread floats depth e.2).map fun value => (e.1, value) with
      | none => simp
      | some fields =>
        have hkeys : fields.map Prod.fst = entries.map Prod.fst := by
          refine map_of_mapM (fun e field hfield => ?_) hback
          obtain ⟨value, -, rfl⟩ := Option.map_eq_some_iff.mp hfield
          rfl
        have hsorted : fields.Pairwise fun a b => a.1 < b.1 :=
          OrdMap.sorted_of_keys hkeys (hkeyed 0 _ (.root _) entries rfl)
        simp [ofList_of_sorted hsorted]
    | null | bool | number | string => exact reread_scalar rfl _

theorem write_concat (floats : Floats) (value : Value) :
    ∃ s c, write floats value = s ++ [c] ∧ isBlank c = false := by
  cases value with
  | null => exact ⟨['n', 'u', 'l'], 'l', rfl, by decide⟩
  | bool b =>
    cases b with
    | true => exact ⟨['t', 'r', 'u'], 'e', rfl, by decide⟩
    | false => exact ⟨['f', 'a', 'l', 's'], 'e', rfl, by decide⟩
  | number n =>
    have hne := writeNumber_ne floats n
    have hlast := writeNumber_numeral floats n _ (List.getLast_mem hne)
    exact ⟨_, _, (List.dropLast_append_getLast hne).symm, isBlank_of_isNumeral hlast⟩
  | string s => exact ⟨'"' :: s.toList.flatMap writeChar, '"', rfl, by decide⟩
  | array items => exact ⟨'[' :: joined ',' (writeItems floats items), ']', rfl, by decide⟩
  | object entries => exact ⟨'{' :: joined ',' (writeFields floats entries), '}', rfl, by decide⟩

theorem strip_write (value : Value) :
    strip isBlank (write floats value) = write floats value := by
  obtain ⟨c, s, hs, hc, -⟩ := write_cons floats value
  obtain ⟨s', c', hs', hc'⟩ := write_concat floats value
  have hskip : (write floats value).dropWhile isBlank = write floats value := by
    rw [hs, List.dropWhile_cons_of_neg (by simp [hc])]
  rw [strip, hskip, hs', List.rdropWhile_concat_neg _ _ _ (by simp [hc'])]

theorem read_write (value : Value) :
    read floats (String.ofList (write floats value)) = reread floats maxNesting value := by
  have hread := @readValue_write floats maxNesting value [] (by simp [Stops])
  rw [List.append_nil] at hread
  rw [read, String.toList_ofList, strip_write, hread]
  cases reread floats maxNesting value with
  | none => rfl
  | some back => simp

end ValuesBack

section Spans

variable {floats : Floats}

/-- What a document is punctuated with. A line break stands in no text as itself. -/
def jsonMarks : Marks Char where
  opens c := c == '[' || c == '{'
  closes c := c == ']' || c == '}'
  quotes c := c == '"'
  escapes c := c == '\\'
  breaks c := decide (c.toNat < 0x20)

/-- What may stand between the quotes of a text. -/
inductive TextBody : List Char → Prop
  | nil : TextBody []
  | char {c : Char} {s : List Char} : ¬ c.toNat < 0x20 → c ≠ '"' → c ≠ '\\' → TextBody s →
      TextBody (c :: s)
  | escape {c : Char} {s : List Char} : ¬ c.toNat < 0x20 → TextBody s →
      TextBody ('\\' :: c :: s)

theorem TextBody.append {s s' : List Char} (h : TextBody s) (h' : TextBody s') :
    TextBody (s ++ s') := by
  induction h with
  | nil => exact h'
  | char hcontrol hquote hescape _ ih => exact .char hcontrol hquote hescape ih
  | escape hcontrol _ ih => exact .escape hcontrol ih

theorem textBody_hexDigit {c : Char} {n : Nat} (h : hexDigit c = some n) : TextBody [c] := by
  have hne (w : Char) (hw : hexDigit w = none) : c ≠ w := by
    rintro rfl
    simp [h] at hw
  have hcontrol : ¬ c.toNat < 0x20 := by
    unfold hexDigit at h
    simp only [Char.le_def, UInt32.le_iff_toNat_le] at h
    intro hlow
    split_ifs at h with h1 h2 h3
    · exact absurd (Nat.lt_of_le_of_lt h1.1 hlow) (by decide)
    · exact absurd (Nat.lt_of_le_of_lt h2.1 hlow) (by decide)
    · exact absurd (Nat.lt_of_le_of_lt h3.1 hlow) (by decide)
  exact .char hcontrol (hne '"' rfl) (hne '\\' rfl) .nil

theorem readHex_spans {s rest : List Char} {n : Nat} (h : readHex s = some (n, rest)) :
    ∃ taken, s = taken ++ rest ∧ TextBody taken := by
  unfold readHex at h
  split at h
  · next a b c d rest' =>
    simp only [Option.bind_eq_bind, Option.bind_eq_some_iff, Option.pure_def] at h
    obtain ⟨a', ha, b', hb, c', hc, d', hd, heq⟩ := h
    obtain ⟨-, rfl⟩ := Prod.mk.inj (Option.some.inj heq)
    exact ⟨[a, b, c, d], rfl, (textBody_hexDigit ha).append ((textBody_hexDigit hb).append
      ((textBody_hexDigit hc).append (textBody_hexDigit hd)))⟩
  · simp at h

theorem readUnicode_spans {s rest : List Char} {c : Char} (h : readUnicode s = some (c, rest)) :
    ∃ taken, s = taken ++ rest ∧ TextBody taken := by
  have hescape : TextBody ['\\', 'u'] := .escape (by decide) .nil
  rw [readUnicode, Option.bind_eq_bind, Option.bind_eq_some_iff] at h
  obtain ⟨⟨n, s'⟩, hfirst, h⟩ := h
  obtain ⟨taken, rfl, hbody⟩ := readHex_spans hfirst
  dsimp only at h
  split_ifs at h with hlead htrail
  · simp only [Option.bind_eq_bind, Option.bind_eq_some_iff] at h
    obtain ⟨s₁, hslash, s₂, hu, ⟨m, s₃⟩, hsecond, h⟩ := h
    obtain ⟨taken', rfl, hbody'⟩ := readHex_spans hsecond
    dsimp only at h
    split_ifs at h
    obtain ⟨-, rfl⟩ := Prod.mk.inj (Option.some.inj h)
    refine ⟨taken ++ (['\\', 'u'] ++ taken'), ?_, hbody.append (hescape.append hbody')⟩
    rw [expect_eq_some.mp hslash, expect_eq_some.mp hu]
    simp
  · obtain ⟨-, rfl⟩ := Prod.mk.inj (Option.some.inj h)
    exact ⟨taken, rfl, hbody⟩

theorem shortEscapes_plain : ∀ e ∈ shortEscapes, ¬ e.1.toNat < 0x20 := by decide

theorem readEscape_spans {s rest : List Char} {c : Char} (h : readEscape s = some (c, rest)) :
    ∃ taken, s = taken ++ rest ∧ TextBody ('\\' :: taken) := by
  cases s with
  | nil => simp [readEscape] at h
  | cons e s =>
    rw [readEscape] at h
    split_ifs at h with hu
    · obtain ⟨taken, rfl, hbody⟩ := readUnicode_spans h
      subst hu
      exact ⟨'u' :: taken, rfl, .escape (by decide) hbody⟩
    · obtain ⟨meant, hmeant, heq⟩ := Option.map_eq_some_iff.mp h
      obtain ⟨-, rfl⟩ := Prod.mk.inj heq
      obtain ⟨l, l', hl, -⟩ := List.lookup_eq_some_iff.mp hmeant
      have hcontrol : ¬ e.toNat < 0x20 := shortEscapes_plain (e, meant) (by simp [hl])
      exact ⟨[e], rfl, .escape hcontrol .nil⟩

theorem readText_spans {n : Nat} {s rest cs : List Char} (h : readText n s = some (cs, rest)) :
    ∃ body, s = body ++ '"' :: rest ∧ cs.length ≤ body.length ∧ TextBody body := by
  induction n generalizing s cs with
  | zero => simp [readText] at h
  | succ n ih =>
    cases s with
    | nil => simp [readText] at h
    | cons c s =>
      unfold readText at h
      split_ifs at h with hquote hcontrol
      · obtain ⟨rfl, rfl⟩ := Prod.mk.inj (Option.some.inj h)
        subst hquote
        exact ⟨[], rfl, le_rfl, .nil⟩
      · obtain ⟨⟨first, s'⟩, hfirst, hrest⟩ := Option.bind_eq_some_iff.mp h
        obtain ⟨⟨others, rest'⟩, hothers, heq⟩ := Option.map_eq_some_iff.mp hrest
        obtain ⟨rfl, rfl⟩ := Prod.mk.inj heq
        obtain ⟨body, rfl, hlength, hbody⟩ := ih hothers
        unfold readChar at hfirst
        split_ifs at hfirst with hescape
        · obtain ⟨taken, rfl, htaken⟩ := readEscape_spans hfirst
          subst hescape
          refine ⟨'\\' :: taken ++ body, by simp, ?_, htaken.append hbody⟩
          simp only [List.length_cons, List.length_append]
          omega
        · obtain ⟨rfl, rfl⟩ := Prod.mk.inj (Option.some.inj hfirst)
          exact ⟨c :: body, by simp, by simpa using hlength,
            .char hcontrol hquote hescape hbody⟩

theorem readString_spans {s rest : List Char} {t : String} (h : readString s = some (t, rest)) :
    ∃ body, s = '"' :: (body ++ '"' :: rest) ∧ t.toList.length ≤ body.length ∧
      TextBody body := by
  simp only [readString, Option.bind_eq_bind, Option.bind_eq_some_iff, Option.pure_def] at h
  obtain ⟨s', hquote, ⟨cs, rest'⟩, htext, heq⟩ := h
  obtain ⟨rfl, rfl⟩ := Prod.mk.inj (Option.some.inj heq)
  obtain ⟨body, rfl, hlength, hbody⟩ := readText_spans htext
  exact ⟨body, expect_eq_some.mp hquote, by simpa using hlength, hbody⟩

/-- A kind of text that every document is of, whatever it is built from. -/
structure Documental (P : List Char → Prop) : Prop extends Spanning isBlank ',' P where
  colon : P [':']
  text : ∀ body, TextBody body → P ('"' :: (body ++ ['"']))
  numeral : ∀ s, (∀ c ∈ s, isNumeral c = true) → P s
  word : ∀ word ∈ ["null", "true", "false"], P word.toList
  bracket : ∀ s, P s → P ('[' :: (s ++ [']']))
  brace : ∀ s, P s → P ('{' :: (s ++ ['}']))

section Kinds

variable {P : List Char → Prop} (hP : Documental P)
include hP

theorem Documental.of_readString {s rest : List Char} {t : String}
    (h : readString s = some (t, rest)) : ∃ taken, s = taken ++ rest ∧ P taken := by
  obtain ⟨body, rfl, -, hbody⟩ := readString_spans h
  exact ⟨'"' :: (body ++ ['"']), by simp, hP.text body hbody⟩

theorem Documental.of_readNumeral {s rest : List Char} {value : Value}
    (h : readNumeral floats s = some (value, rest)) : ∃ taken, s = taken ++ rest ∧ P taken := by
  obtain ⟨n, -, heq⟩ := Option.map_eq_some_iff.mp h
  obtain ⟨-, rfl⟩ := Prod.mk.inj heq
  exact ⟨s.takeWhile isNumeral, List.takeWhile_append_dropWhile.symm,
    hP.numeral _ fun c hc => List.mem_takeWhile_imp hc⟩

theorem Documental.of_readWord {s rest : List Char} {word : String} {value value' : Value}
    (h : readWord s word value = some (value', rest)) (hword : word ∈ ["null", "true", "false"]) :
    ∃ taken, s = taken ++ rest ∧ P taken := by
  obtain ⟨rest', hdrop, heq⟩ := Option.map_eq_some_iff.mp h
  obtain ⟨-, rfl⟩ := Prod.mk.inj heq
  obtain ⟨taken, hs, htaken⟩ := List.dropPrefix?_eq_some_iff.mp hdrop
  rw [beq_iff_eq] at htaken
  exact ⟨taken, hs, htaken ▸ hP.word word hword⟩

theorem Documental.of_readScalar {s rest : List Char} {value : Value}
    (h : readScalar floats s = some (value, rest)) : ∃ taken, s = taken ++ rest ∧ P taken := by
  simp only [readScalar, Option.or_eq_some_iff] at h
  rcases h with h | ⟨-, h | ⟨-, h | ⟨-, h | ⟨-, h⟩⟩⟩⟩
  · obtain ⟨text, htext, heq⟩ := Option.map_eq_some_iff.mp h
    obtain ⟨-, rfl⟩ := Prod.mk.inj heq
    exact hP.of_readString htext
  · exact hP.of_readNumeral h
  · exact hP.of_readWord h (by simp)
  · exact hP.of_readWord h (by simp)
  · exact hP.of_readWord h (by simp)

theorem Documental.of_readField {item : List Char → Option (Value × List Char)}
    (hitem : ∀ s value rest, item s = some (value, rest) → ∃ taken, s = taken ++ rest ∧ P taken)
    {s rest : List Char} {field : String × Value} (h : readField item s = some (field, rest)) :
    ∃ taken, s = taken ++ rest ∧ P taken := by
  simp only [readField, Option.bind_eq_bind, Option.bind_eq_some_iff, Option.pure_def] at h
  obtain ⟨⟨key, s₁⟩, hkey, s₂, hcolon, ⟨value, s₃⟩, hvalue, heq⟩ := h
  obtain ⟨-, rfl⟩ := Prod.mk.inj (Option.some.inj heq)
  obtain ⟨taken, rfl, htaken⟩ := hP.of_readString hkey
  obtain ⟨blanks, hs₁, hblanks⟩ := exists_skip isBlank s₁
  obtain ⟨blanks', hs₂, hblanks'⟩ := exists_skip isBlank s₂
  obtain ⟨taken', hs₃, htaken'⟩ := hitem _ _ _ hvalue
  have hafter : P (blanks' ++ taken') := hP.append _ _ (hP.blanks _ hblanks') htaken'
  have hbetween : P (blanks ++ ([':'] ++ (blanks' ++ taken'))) :=
    hP.append _ _ (hP.blanks _ hblanks) (hP.append _ _ hP.colon hafter)
  refine ⟨taken ++ (blanks ++ ([':'] ++ (blanks' ++ taken'))), ?_,
    hP.append _ _ htaken hbetween⟩
  rw [hs₁, expect_eq_some.mp hcolon, hs₂, hs₃]
  simp

end Kinds

theorem pair_bracket : Pair jsonMarks '[' ']' := ⟨rfl, rfl, rfl, rfl, rfl⟩

theorem pair_brace : Pair jsonMarks '{' '}' := ⟨rfl, rfl, rfl, rfl, rfl⟩

theorem readValue_cases {depth : Nat} {s rest : List Char} {value : Value}
    (h : readValue floats (depth + 1) s = some (value, rest)) :
    (∃ s' items, s = '[' :: s' ∧ value = .array items ∧
        listing isBlank ',' ']' (readValue floats depth) s' = some (items, rest)) ∨
      (∃ s' fields, s = '{' :: s' ∧ value = .object (OrdMap.ofList fields).entries ∧
        listing isBlank ',' '}' (readField (readValue floats depth)) s' = some (fields, rest)) ∨
      readScalar floats s = some (value, rest) := by
  simp only [readValue, Option.or_eq_some_iff] at h
  rcases h with h | ⟨-, h | ⟨-, h⟩⟩
  · obtain ⟨items, hitems, heq⟩ := Option.map_eq_some_iff.mp h
    obtain ⟨hvalue, rfl⟩ := Prod.mk.inj heq
    obtain ⟨s', hs', hlisting⟩ := Option.bind_eq_some_iff.mp hitems
    exact .inl ⟨s', items.1, expect_eq_some.mp hs', hvalue.symm, hlisting⟩
  · obtain ⟨fields, hfields, heq⟩ := Option.map_eq_some_iff.mp h
    obtain ⟨hvalue, rfl⟩ := Prod.mk.inj heq
    obtain ⟨s', hs', hlisting⟩ := Option.bind_eq_some_iff.mp hfields
    exact .inr (.inl ⟨s', fields.1, expect_eq_some.mp hs', hvalue.symm, hlisting⟩)
  · exact .inr (.inr h)

theorem Documental.of_readValue {P : List Char → Prop} (hP : Documental P) {depth : Nat}
    {s rest : List Char} {value : Value} (h : readValue floats depth s = some (value, rest)) :
    ∃ taken, s = taken ++ rest ∧ P taken := by
  induction depth generalizing s rest value with
  | zero => exact hP.of_readScalar h
  | succ depth ih =>
    rcases readValue_cases h with ⟨s', items, rfl, -, hitems⟩ | ⟨s', fields, rfl, -, hfields⟩ | h
    · obtain ⟨body, rfl, hbody⟩ :=
        listing_spans hP.toSpanning (fun _ _ _ => ih) hitems
      exact ⟨'[' :: (body ++ [']']), by simp, hP.bracket body hbody⟩
    · obtain ⟨body, rfl, hbody⟩ :=
        listing_spans hP.toSpanning (fun _ _ _ => hP.of_readField fun _ _ _ => ih) hfields
      exact ⟨'{' :: (body ++ ['}']), by simp, hP.brace body hbody⟩
    · exact hP.of_readScalar h

theorem step_quoted {c : Char} (hcontrol : ¬ c.toNat < 0x20) (hquote : c ≠ '"') (d : Nat) :
    step jsonMarks (.quoted, d) c = some (if c = '\\' then .escaped else .quoted, d) := by
  simp only [step, jsonMarks, decide_eq_true_eq, if_neg hcontrol, beq_iff_eq, if_neg hquote]
  split_ifs <;> rfl

theorem step_escaped {c : Char} (hcontrol : ¬ c.toNat < 0x20) (d : Nat) :
    step jsonMarks (.escaped, d) c = some (.quoted, d) := by
  simp only [step, jsonMarks, decide_eq_true_eq, if_neg hcontrol]

theorem TextBody.scan_quoted {body : List Char} (h : TextBody body) (d : Nat) :
    scan jsonMarks (.quoted, d) body = some (.quoted, d) := by
  induction h with
  | nil => rfl
  | char hcontrol hquote hescape _ ih =>
    rw [scan_cons, step_quoted hcontrol hquote, if_neg hescape, Option.bind_some, ih]
  | escape hcontrol _ ih =>
    rw [scan_cons, step_quoted (by decide) (by decide), if_pos rfl, Option.bind_some, scan_cons,
      step_escaped hcontrol, Option.bind_some, ih]

theorem neutral_numeral {c : Char} (h : isNumeral c = true) : Neutral jsonMarks c := by
  have hne (w : Char) (hw : isNumeral w = false) : c ≠ w := by
    rintro rfl
    simp [h] at hw
  simp [Neutral, jsonMarks, hne '"' (by decide), hne '[' (by decide), hne '{' (by decide),
    hne ']' (by decide), hne '}' (by decide)]

theorem documental_balanced : Documental (Balanced jsonMarks) where
  blanks s hs := by
    refine balanced_of_neutral fun c hc => ?_
    have hblank := hs c hc
    simp only [isBlank, Bool.or_eq_true, beq_iff_eq] at hblank
    rcases hblank with ((rfl | rfl) | rfl) | rfl <;> exact ⟨rfl, rfl, rfl⟩
  comma := rfl
  append _ _ := Balanced.append
  colon := rfl
  text body hbody := by
    have hopen : scan jsonMarks (.plain, 0) ('"' :: body) = some (.quoted, 0) :=
      hbody.scan_quoted 0
    exact scan_append_of hopen ['"']
  numeral s hs := balanced_of_neutral fun c hc => neutral_numeral (hs c hc)
  word word hword := by
    simp only [List.mem_cons, List.not_mem_nil, or_false] at hword
    rcases hword with rfl | rfl | rfl <;> rfl
  bracket _ hs := hs.bracketed pair_bracket
  brace _ hs := hs.bracketed pair_brace

theorem readScalar_cases {s rest : List Char} {value : Value}
    (h : readScalar floats s = some (value, rest)) :
    (∃ t, readString s = some (t, rest) ∧ value = .string t) ∨ value = .null ∨
      (∃ b, value = .bool b) ∨ ∃ n, value = .number n := by
  simp only [readScalar, Option.or_eq_some_iff] at h
  rcases h with h | ⟨-, h | ⟨-, h | ⟨-, h | ⟨-, h⟩⟩⟩⟩
  · obtain ⟨text, htext, heq⟩ := Option.map_eq_some_iff.mp h
    obtain ⟨rfl, rfl⟩ := Prod.mk.inj heq
    exact .inl ⟨text.1, htext, rfl⟩
  · obtain ⟨n, -, heq⟩ := Option.map_eq_some_iff.mp h
    exact .inr (.inr (.inr ⟨n, (Prod.mk.inj heq).1.symm⟩))
  · obtain ⟨_, -, heq⟩ := Option.map_eq_some_iff.mp h
    exact .inr (.inl (Prod.mk.inj heq).1.symm)
  · obtain ⟨_, -, heq⟩ := Option.map_eq_some_iff.mp h
    exact .inr (.inr (.inl ⟨_, (Prod.mk.inj heq).1.symm⟩))
  · obtain ⟨_, -, heq⟩ := Option.map_eq_some_iff.mp h
    exact .inr (.inr (.inl ⟨_, (Prod.mk.inj heq).1.symm⟩))

theorem length_lt_of_readValue {depth : Nat} {s rest : List Char} {t : String}
    (h : readValue floats depth s = some (.string t, rest)) : t.toList.length < s.length := by
  have hscalar : readScalar floats s = some (.string t, rest) := by
    cases depth with
    | zero => exact h
    | succ depth =>
      rcases readValue_cases h with ⟨_, _, _, hvalue, _⟩ | ⟨_, _, _, hvalue, _⟩ | h
      · exact absurd hvalue (by simp)
      · exact absurd hvalue (by simp)
      · exact h
  rcases readScalar_cases hscalar with ⟨t', ht', hvalue⟩ | hvalue | ⟨_, hvalue⟩ | ⟨_, hvalue⟩
  · obtain rfl := Value.string.inj hvalue
    obtain ⟨body, rfl, hlength, -⟩ := readString_spans ht'
    rw [List.length_cons, List.length_append]
    omega
  · exact absurd hvalue (by simp)
  · exact absurd hvalue (by simp)
  · exact absurd hvalue (by simp)

theorem braces_of_readValue {depth : Nat} {s rest : List Char} {fields : List (String × Value)}
    (h : readValue floats depth s = some (.object fields, rest)) :
    ∃ body, s = '{' :: (body ++ '}' :: rest) ∧ Balanced jsonMarks body := by
  have hscalar : readScalar floats s ≠ some (.object fields, rest) := by
    intro hread
    rcases readScalar_cases hread with ⟨_, _, hvalue⟩ | hvalue | ⟨_, hvalue⟩ | ⟨_, hvalue⟩
    all_goals exact absurd hvalue (by simp)
  cases depth with
  | zero => exact absurd h hscalar
  | succ depth =>
    rcases readValue_cases h with ⟨_, _, _, hvalue, _⟩ | ⟨s', fields, rfl, -, hfields⟩ | h
    · exact absurd hvalue (by simp)
    · obtain ⟨body, rfl, hbody⟩ := listing_spans documental_balanced.toSpanning
        (fun _ _ _ => documental_balanced.of_readField
          fun _ _ _ => documental_balanced.of_readValue) hfields
      exact ⟨body, rfl, hbody⟩
    · exact absurd h hscalar

theorem read_eq_some {text : String} {value : Value} :
    read floats text = some value ↔
      readValue floats maxNesting (strip isBlank text.toList) = some (value, []) := by
  unfold read
  rw [Option.bind_eq_some_iff]
  constructor
  · rintro ⟨⟨value', rest⟩, hread, h⟩
    dsimp only at h
    split_ifs at h with hrest
    rw [hread, hrest, Option.some.inj h]
  · intro h
    exact ⟨_, h, rfl⟩

theorem read_ne_string (text : String) : read floats text ≠ some (.string text) := by
  intro h
  have hlength := length_lt_of_readValue (read_eq_some.mp h)
  obtain ⟨lead, tail, htext, -⟩ := exists_strip isBlank text.toList
  have htotal := congrArg List.length htext
  rw [List.length_append, List.length_append] at htotal
  omega

theorem braces_of_read {text : String} {fields : List (String × Value)}
    (h : read floats text = some (.object fields)) :
    ∃ body, strip isBlank text.toList = '{' :: (body ++ ['}']) ∧ Balanced jsonMarks body :=
  braces_of_readValue (read_eq_some.mp h)

theorem read_of_strip {text text' : String}
    (h : strip isBlank text.toList = strip isBlank text'.toList) :
    read floats text = read floats text' := by
  unfold read
  rw [h]

end Spans

end Choreographer.JsonTexts
