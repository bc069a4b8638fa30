import Choreographer.MemoryValues

namespace Choreographer.SessionMemory

open Choreographer.Lib.SortedMaps
open Choreographer.Texts Choreographer.Values Choreographer.Agenda Choreographer.MemoryValues

/-- What is remembered in one scope, and the keys it came under. -/
structure Remembered where
  entries : List MemoryEntry
  relations : List MemoryRelation
  keys : OrdSet String

namespace Remembered

def empty : Remembered := ⟨[], [], OrdMap.empty⟩

/-- A write under a key that was seen before is that same write again. -/
def extend (self : Remembered) (write : MemoryWrite) (key : String) : Remembered :=
  if self.keys.contains key then self
  else
    { entries := self.entries ++ write.entries
      relations := self.relations ++ write.relations
      keys := OrdSet.add key self.keys }

/-- Something of this name is remembered. -/
def Holds (self : Remembered) (id : MemoryEntryId) : Prop := ∃ entry ∈ self.entries, entry.id = id

variable {self : Remembered} {write : MemoryWrite} {key : String}

theorem extend_again (h : self.keys.contains key = true) : self.extend write key = self := by
  rw [extend, if_pos h]

theorem extend_fresh (h : self.keys.contains key = false) : self.extend write key =
    ⟨self.entries ++ write.entries, self.relations ++ write.relations,
      OrdSet.add key self.keys⟩ := by
  rw [extend, if_neg (by simp [h])]

theorem keys_extend (other : String) : (self.extend write key).keys.contains other =
    (decide (other = key) || self.keys.contains other) := by
  cases h : self.keys.contains key with
  | true =>
    rw [extend_again h]
    by_cases he : other = key
    · simp [he, h]
    · simp [he]
  | false =>
    rw [extend_fresh h]
    exact OrdSet.contains_add other key self.keys

end Remembered

inductive MemoryWriteOutcome
  | remembered
  | alreadyRemembered
deriving DecidableEq, Repr

inductive MemoryRecollection
  | recalled (entries : List MemoryEntry) (relations : List MemoryRelation)
  | unsupported

def MemoryRecollection.nothing : MemoryRecollection := .recalled [] []

def MemoryRecollection.entries : MemoryRecollection → List MemoryEntry
  | .recalled entries _ => entries
  | .unsupported => []

def MemoryRecollection.relations : MemoryRecollection → List MemoryRelation
  | .recalled _ relations => relations
  | .unsupported => []

structure InProcessSessionMemory where
  scopes : OrdMap String Remembered

namespace InProcessSessionMemory

def new : InProcessSessionMemory := ⟨OrdMap.empty⟩

variable (self : InProcessSessionMemory) (scope : MemoryScope)

def held : Remembered := (self.scopes.get? scope.asStr).getD Remembered.empty

def remember (write : MemoryWrite) (idempotencyKey : String) :
    MemoryWriteOutcome × InProcessSessionMemory :=
  let remembered := self.held scope
  (if remembered.keys.contains idempotencyKey then .alreadyRemembered else .remembered,
    ⟨self.scopes.insert scope.asStr (remembered.extend write idempotencyKey)⟩)

/-- The reasons whose ends are both visible. -/
def between (relations : List MemoryRelation) (visible : List MemoryEntry) : List MemoryRelation :=
  let ids := visible.map MemoryEntry.id
  relations.filter fun relation => ids.contains relation.fromEntry && ids.contains relation.toEntry

/-- The port calls this `recall`. -/
def recallAll : MemoryRecollection :=
  match self.scopes.get? scope.asStr with
  | none => .nothing
  | some remembered => .recalled remembered.entries remembered.relations

def asKnownAt (moment : OffsetDateTime) : MemoryRecollection :=
  match self.scopes.get? scope.asStr with
  | none => .nothing
  | some remembered =>
    let entries := remembered.entries.filter fun entry => entry.provenance.observedAt ≤ moment
    .recalled entries (between remembered.relations entries)

theorem recallAll_eq : self.recallAll scope =
    .recalled (self.held scope).entries (self.held scope).relations := by
  unfold recallAll held
  cases self.scopes.get? scope.asStr with
  | none => rfl
  | some remembered => rfl

theorem asKnownAt_eq (moment : OffsetDateTime) : self.asKnownAt scope moment =
    .recalled
      ((self.held scope).entries.filter fun entry => entry.provenance.observedAt ≤ moment)
      (between (self.held scope).relations
        ((self.held scope).entries.filter fun entry => entry.provenance.observedAt ≤ moment)) := by
  unfold asKnownAt held
  cases self.scopes.get? scope.asStr with
  | none => rfl
  | some remembered => rfl

@[simp] theorem held_new : (new).held scope = Remembered.empty := rfl

theorem held_remember (write : MemoryWrite) (key : String) :
    (self.remember scope write key).2.held scope = (self.held scope).extend write key := by
  simp [remember, held]

theorem held_remember_other {other : MemoryScope} (h : other ≠ scope) (write : MemoryWrite)
    (key : String) : (self.remember scope write key).2.held other = self.held other := by
  have hne : other.asStr ≠ scope.asStr := fun he => h (Phrase.ext he)
  unfold held remember
  rw [OrdMap.get?_insert_ne _ hne]

theorem mem_between {relations : List MemoryRelation} {visible : List MemoryEntry}
    {relation : MemoryRelation} : relation ∈ between relations visible ↔
      relation ∈ relations ∧ relation.fromEntry ∈ visible.map MemoryEntry.id ∧
        relation.toEntry ∈ visible.map MemoryEntry.id := by
  unfold between
  rw [List.mem_filter, Bool.and_eq_true, List.contains_iff_mem, List.contains_iff_mem]

end InProcessSessionMemory

end Choreographer.SessionMemory
