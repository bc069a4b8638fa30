import Mathlib.Data.String.Basic
import Choreographer.Lib.SortedMaps
import Choreographer.Lib.Updates
import Choreographer.Texts

namespace Choreographer.Values

open Choreographer.Lib.ByteStrings Choreographer.Lib.SortedMaps Choreographer.Lib.Updates
open Choreographer.Texts

abbrev U32 := Fin (2 ^ 32)
abbrev U64 := Fin (2 ^ 64)

instance u32_neZero : NeZero (2 ^ 32) := ⟨by decide⟩

instance u64_neZero : NeZero (2 ^ 64) := ⟨by decide⟩

/-- Adding one, except to the largest value, which stays. -/
def saturatingSucc {bound : Nat} (x : Fin bound) : Fin bound :=
  ⟨min (x.val + 1) (bound - 1), by omega⟩

@[simp] theorem saturatingSucc_val {bound : Nat} (x : Fin bound) :
    (saturatingSucc x).val = min (x.val + 1) (bound - 1) := rfl

/-- An instant, in nanoseconds since the Unix epoch, and the offset in seconds
it is written with. Comparing two of them compares the instants. -/
structure OffsetDateTime where
  nanos : Int
  offset : Int := 0
deriving DecidableEq, Repr

namespace OffsetDateTime

instance : LE OffsetDateTime := ⟨fun s t => s.nanos ≤ t.nanos⟩
instance : LT OffsetDateTime := ⟨fun s t => s.nanos < t.nanos⟩

instance (s t : OffsetDateTime) : Decidable (s ≤ t) :=
  inferInstanceAs (Decidable (s.nanos ≤ t.nanos))

instance (s t : OffsetDateTime) : Decidable (s < t) :=
  inferInstanceAs (Decidable (s.nanos < t.nanos))

/-- The last nanosecond of the year 9999 and the first of the year -9999. -/
def maxLocal : Int := 253402300799999999999
def minLocal : Int := -377705116800000000000

def checkedAdd (t : OffsetDateTime) (duration : Int) : Option OffsetDateTime :=
  let moved := t.nanos + t.offset * 1000000000 + duration
  if minLocal ≤ moved ∧ moved ≤ maxLocal then some ⟨t.nanos + duration, t.offset⟩ else none

end OffsetDateTime

/-- A duration in whole milliseconds. -/
structure DurationMs where
  get : U64
deriving DecidableEq, Repr

def DurationMs.zero : DurationMs := ⟨0⟩

/-- Adding a duration to an instant the result of which can be represented. -/
def OffsetDateTime.plus (t : OffsetDateTime) (duration : DurationMs) : OffsetDateTime :=
  ⟨t.nanos + duration.get.val * 1000000, t.offset⟩

inductive Number
  | posInt (n : U64)
  | negInt (n : Fin (2 ^ 63))
  | float (bits : U64)
deriving DecidableEq

/-- A JSON document. -/
inductive Value
  | null
  | bool (b : Bool)
  | number (n : Number)
  | string (s : String)
  | array (items : List Value)
  | object (entries : List (String × Value))

def Value.isNull : Value → Bool
  | .null => true
  | _ => false

def Value.asBool : Value → Option Bool
  | .bool b => some b
  | _ => none

def Value.asU64 : Value → Option U64
  | .number (.posInt n) => some n
  | _ => none

def Value.asStr : Value → Option String
  | .string s => some s
  | _ => none

def Value.asArray : Value → Option (List Value)
  | .array items => some items
  | _ => none

def Value.asObject : Value → Option (List (String × Value))
  | .object entries => some entries
  | _ => none

def maxAttributesKeys : Nat := 1024

def checkAttributes (entries : OrdMap String Value) : Except DomainError Unit :=
  if entries.size > maxAttributesKeys then
    .error (.outOfRange "attributes.keys" entries.size 0 maxAttributesKeys)
  else if entries.keys.any (fun key => trim key = "") then
    .error (.emptyField "attributes.key")
  else .ok ()

/-- Free-form attributes that passed their check. -/
structure Attributes where
  entries : OrdMap String Value
  valid : checkAttributes entries = .ok ()

namespace Attributes

def new (entries : OrdMap String Value) : Except DomainError Attributes :=
  match h : checkAttributes entries with
  | .ok () => .ok ⟨entries, h⟩
  | .error e => .error e

def empty : Attributes := ⟨OrdMap.empty, rfl⟩

def get (a : Attributes) (key : String) : Option Value := a.entries.get? key

theorem new_eq_ok {entries : OrdMap String Value} {a : Attributes} (h : new entries = .ok a) :
    a.entries = entries := by
  unfold new at h
  split at h
  · cases h
    rfl
  · simp at h

end Attributes

theorem checkAttributes_ok {entries : OrdMap String Value} :
    checkAttributes entries = .ok () ↔
      entries.size ≤ maxAttributesKeys ∧ ∀ key, entries.contains key = true → trim key ≠ "" := by
  unfold checkAttributes
  split_ifs with hsize hblank
  · simp [hsize]
  · simp only [List.any_eq_true, decide_eq_true_eq] at hblank
    obtain ⟨key, hkey, hblank⟩ := hblank
    simp only [false_iff, not_and, not_forall, not_not]
    exact fun _ => ⟨key, OrdMap.mem_keys.mp hkey, hblank⟩
  · simp only [List.any_eq_true, decide_eq_true_eq, not_exists, not_and] at hblank
    simp only [true_iff]
    exact ⟨by omega, fun key hkey => hblank key (OrdMap.mem_keys.mpr hkey)⟩

theorem attributes_new_ok {entries : OrdMap String Value} :
    (∃ a, Attributes.new entries = .ok a) ↔ checkAttributes entries = .ok () := by
  unfold Attributes.new
  split
  · next h => simp [h]
  · next e h => simp [h]

/-- What a guard is evaluated against. -/
structure CeremonyContext where
  attributes : Attributes

namespace CeremonyContext

def empty : CeremonyContext := ⟨Attributes.empty⟩

def withGuardApproval (self : CeremonyContext) (guardName : GuardName) :
    Except DomainError CeremonyContext := do
  let entries := self.attributes.entries.insert guardName.asStr (.bool true)
  let attributes ← Attributes.new entries
  pure ⟨attributes⟩

def isGuardApproved (self : CeremonyContext) (guardName : GuardName) : Bool :=
  ((self.attributes.get guardName.asStr).bind Value.asBool).getD false

theorem isGuardApproved_withGuardApproval {c c' : CeremonyContext} {g : GuardName}
    (h : c.withGuardApproval g = .ok c') (k : GuardName) :
    c'.isGuardApproved k = (decide (k = g) || c.isGuardApproved k) := by
  simp only [withGuardApproval, except_bind_eq_ok] at h
  obtain ⟨a, hn, h⟩ := h
  cases h
  unfold isGuardApproved Attributes.get
  simp only [Attributes.new_eq_ok hn, OrdMap.get?_insert]
  by_cases hk : k = g
  · subst hk
    simp [Value.asBool]
  · have hs : k.asStr ≠ g.asStr := fun he => hk (Text.ext he)
    simp [hk, hs]

end CeremonyContext

/-- What SHA-256 makes of a byte string. -/
structure Digest where
  bytes : List Byte
  length_eq : bytes.length = 32
deriving DecidableEq

/-- What kind of party acted. -/
inductive AuditActorKind
  | human
  | agent
  | service
  | engine
deriving DecidableEq, Repr

def AuditActorKind.asStr : AuditActorKind → String
  | .human => "human"
  | .agent => "agent"
  | .service => "service"
  | .engine => "engine"

end Choreographer.Values
