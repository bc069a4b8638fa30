import Choreographer.Lib.Runs
import Choreographer.MemoryRecorder
import Choreographer.SessionRecords
import Choreographer.UseCaseRuns

namespace Choreographer.MemoryRuns

open Choreographer.Lib.SortedMaps Choreographer.Lib.Updates Choreographer.Lib.Runs
open Choreographer.Texts Choreographer.Values Choreographer.Definition Choreographer.Agenda
open Choreographer.Instance Choreographer.Operations Choreographer.SessionFacts
open Choreographer.UseCases Choreographer.UseCaseRuns Choreographer.Works
open Choreographer.MemoryValues Choreographer.SessionMemory Choreographer.MemoryProjection
open Choreographer.MemoryRecorder Choreographer.SessionRecords

/-- The sessions there are, and what memory has of them. -/
structure World where
  sessions : CeremonyId → Option CeremonyInstance
  memory : InProcessSessionMemory

def World.new : World := ⟨fun _ => none, InProcessSessionMemory.new⟩

/-- One call of a use case. Which definition the session resolves to, what the clock says, and
whether the store and the memory backend take what they are given, is not up to the session. -/
structure Visit where
  id : CeremonyId
  work : Work
  definition : CeremonyDefinition
  now : OffsetDateTime
  stored : Bool
  kept : Bool

namespace Visit

def commits (self : Visit) (i : CeremonyInstance) : Option CeremonyInstance :=
  match (self.work.method self.definition self.now).on i with
  | (.ok answer, i') =>
    match self.work.facts self.definition self.now i' answer with
    | .ok _ => if self.stored then some i' else none
    | .error _ => none
  | (.error _, _) => none

/-- Memory is asked once the session is committed, and nothing that goes wrong there reaches
the session. -/
def tells (self : Visit) (i : CeremonyInstance) (memory : InProcessSessionMemory) :
    InProcessSessionMemory :=
  match request self.definition i self.work with
  | some r => if self.kept then (memory.remember r.scope r.write r.key).2 else memory
  | none => memory

end Visit

inductive Event
  | opens (id : CeremonyId) (definition : CeremonyDefinition) (context : CeremonyContext)
    (now : OffsetDateTime) (bound : Option CeremonyDefinitionDigest)
  | calls (visit : Visit)

def Event.now : Event → OffsetDateTime
  | .opens _ _ _ now _ => now
  | .calls visit => visit.now

/-- The memory backend takes every write. -/
def Event.Kept : Event → Prop
  | .opens .. => True
  | .calls visit => visit.kept = true

def Event.after : Event → World → World
  | .opens id definition context now bound, w =>
    match w.sessions id with
    | none =>
      let session := CeremonyInstance.opened id definition context now bound
      ⟨Function.update w.sessions id (some session), w.memory⟩
    | some _ => w
  | .calls visit, w =>
    match (w.sessions visit.id).bind visit.commits with
    | none => w
    | some i' => ⟨Function.update w.sessions visit.id (some i'), visit.tells i' w.memory⟩

def heldOf (memory : InProcessSessionMemory) (id : CeremonyId) : Remembered :=
  match MemoryScope.ofCeremony id with
  | .ok scope => memory.held scope
  | .error _ => Remembered.empty

def World.held (w : World) (id : CeremonyId) : Remembered := heldOf w.memory id

/-- What memory has of a session after a call of it. -/
def Visit.leaves (self : Visit) (i' : CeremonyInstance) (shelf : Remembered) : Remembered :=
  match request self.definition i' self.work with
  | some r => if self.kept then shelf.extend r.write r.key else shelf
  | none => shelf

section Calls

variable {w : World} {v : Visit} {i i' : CeremonyInstance} {id : CeremonyId}

theorem commits_eq_some (h : v.commits i = some i') :
    ∃ answer, Succeeds (v.work.method v.definition v.now) i answer i' := by
  unfold Visit.commits at h
  rcases hmethod : (v.work.method v.definition v.now).on i with ⟨answer, j⟩
  rw [hmethod] at h
  cases answer with
  | error e => simp at h
  | ok answer =>
    dsimp only at h
    split at h
    · split at h
      · obtain rfl := Option.some.inj h
        exact ⟨answer, hmethod⟩
      · simp at h
    · simp at h

theorem ofCeremony_inj {id' : CeremonyId} {scope : MemoryScope}
    (h : MemoryScope.ofCeremony id = .ok scope) (h' : MemoryScope.ofCeremony id' = .ok scope) :
    id = id' := by
  have htext := (ofCeremony_asStr h).symm.trans (ofCeremony_asStr h')
  exact Text.ext ((String.append_right_inj _).mp htext)

theorem request_scope {d : CeremonyDefinition} {work : Work} {r : MemoryRequest}
    (h : request d i work = some r) : MemoryScope.ofCeremony i.id = .ok r.scope := by
  rcases request_cases h with ⟨_, _, -, hasks⟩ | ⟨_, _, _, _, _, _, _, _, _, -, -, -, hasks⟩
  · exact hasks.scope
  · exact hasks.scope

theorem held_tells_self (memory : InProcessSessionMemory) (hid : i'.id = id) :
    heldOf (v.tells i' memory) id = v.leaves i' (heldOf memory id) := by
  unfold Visit.tells Visit.leaves
  cases hr : request v.definition i' v.work with
  | none => rfl
  | some r =>
    have hscope := request_scope hr
    rw [hid] at hscope
    cases v.kept with
    | false => simp only [Bool.false_eq_true, if_false]
    | true =>
      simp only [if_true, heldOf, hscope]
      exact InProcessSessionMemory.held_remember memory r.scope r.write r.key

theorem held_tells_other (memory : InProcessSessionMemory) (hid : i'.id ≠ id) :
    heldOf (v.tells i' memory) id = heldOf memory id := by
  unfold Visit.tells
  cases hr : request v.definition i' v.work with
  | none => rfl
  | some r =>
    have hscope := request_scope hr
    cases v.kept with
    | false => simp only [Bool.false_eq_true, if_false]
    | true =>
      simp only [if_true, heldOf]
      split
      · next scope hid' =>
        apply InProcessSessionMemory.held_remember_other
        rintro rfl
        exact hid (ofCeremony_inj hscope hid')
      · rfl

/-- The call of the session that the work comes down to; seating comes down to several. -/
def operation (now : OffsetDateTime) : Work → Option Operation
  | .startStep roleId _ stepId lease => some (.startStep (some roleId) stepId lease now)
  | .finishStep stepId result _ _ _ => some (.applyStepResult stepId result now)
  | .move roleId _ trigger => some (.applyTransition (some roleId) trigger now)
  | .approve guardName roleId roleKind => some (.approveGuard guardName roleId roleKind now)
  | .deferral guardName roleId roleKind content =>
    some (.deferGuard guardName content roleId roleKind now)
  | .seat .. => none
  | .request interventionId roleId _ kind target content provenance =>
    some (.requestIntervention interventionId roleId kind target content provenance now)
  | .respond interventionId roleId _ content =>
    some (.respondToIntervention interventionId roleId content now)
  | .collect interventionId roleId _ _ evidencePack =>
    some (.respondToInterventionWithEvidence interventionId roleId evidencePack now)
  | .close interventionId roleId _ => some (.closeIntervention interventionId roleId now)
  | .assertReason roleId _ fromRecord toRecord kind why confidence =>
    some (.assertReason roleId fromRecord toRecord kind why confidence now)

theorem commits_cases (h : v.commits i = some i') :
    (∃ op, operation v.now v.work = some op ∧ Effect v.definition i op i') ∨
      operation v.now v.work = none ∧
        ∃ bindings, i' = { i with participantBindings := bindings, updatedAt := v.now } := by
  obtain ⟨answer, hmethod⟩ := commits_eq_some h
  obtain ⟨_, work, d, now, _, _⟩ := v
  cases work with
  | startStep => exact .inl ⟨_, rfl, (startStepAs_effect hmethod).1⟩
  | finishStep => exact .inl ⟨_, rfl, applyStepResult_effect hmethod⟩
  | move => exact .inl ⟨_, rfl, (applyTransitionAs_effect hmethod).1⟩
  | approve => exact .inl ⟨_, rfl, approveGuard_effect hmethod⟩
  | deferral => exact .inl ⟨_, rfl, deferGuard_effect hmethod⟩
  | seat seating =>
    obtain ⟨-, bindings, rfl⟩ := bindAll_succeeds seating.nonempty hmethod
    exact .inr ⟨rfl, bindings, rfl⟩
  | request => exact .inl ⟨_, rfl, requestIntervention_effect hmethod⟩
  | respond => exact .inl ⟨_, rfl, respond_effect hmethod⟩
  | collect => exact .inl ⟨_, rfl, respondWithEvidence_effect hmethod⟩
  | close => exact .inl ⟨_, rfl, closeIntervention_effect hmethod⟩
  | assertReason => exact .inl ⟨_, rfl, assertReason_effect hmethod⟩

theorem commits_effect {op : Operation} (h : v.commits i = some i')
    (hop : operation v.now v.work = some op) : Effect v.definition i op i' := by
  rcases commits_cases h with ⟨op', hop', heffect⟩ | ⟨hnone, -⟩
  · rw [hop] at hop'
    rwa [Option.some.inj hop']
  · rw [hop] at hnone
    simp at hnone

theorem commits_id (h : v.commits i = some i') : i'.id = i.id := by
  rcases commits_cases h with ⟨op, -, heffect⟩ | ⟨-, bindings, rfl⟩
  · exact congrArg Prod.fst heffect.ident
  · rfl

theorem commits_onward (h : v.commits i = some i') : Onward i i' := by
  rcases commits_cases h with ⟨op, -, heffect⟩ | ⟨-, bindings, rfl⟩
  · exact effect_onward heffect
  · exact { Onward.refl i with }

theorem commits_distinct (h : v.commits i = some i') (hi : Distinct i) : Distinct i' := by
  rcases commits_cases h with ⟨op, -, heffect⟩ | ⟨-, bindings, rfl⟩
  · exact distinct_effect heffect hi
  · exact hi

end Calls

section Sessions

/-- Something is so of every session and what memory has of it. -/
def AllSessions (P : CeremonyInstance → Remembered → Prop) (w : World) : Prop :=
  ∀ id i, w.sessions id = some i → P i (w.held id)

/-- A condition on a call, where it commits. -/
def AtCommit (Meets : CeremonyInstance → Remembered → Visit → Prop) (w : World) : Event → Prop
  | .opens .. => True
  | .calls v => ∀ i, w.sessions v.id = some i → (v.commits i).isSome = true →
      Meets i (w.held v.id) v

structure Lawful (w : World) : Prop where
  own : ∀ id i, w.sessions id = some i → i.id = id
  blank : ∀ id, w.sessions id = none → w.held id = Remembered.empty

variable {P Inv Good : CeremonyInstance → Remembered → Prop}
  {Meets : CeremonyInstance → Remembered → Visit → Prop} {w : World} {v : Visit}

theorem after_calls_idle (h : (w.sessions v.id).bind v.commits = none) :
    (Event.calls v).after w = w := by
  simp only [Event.after, h]

section Commit

variable {i i' : CeremonyInstance} (hi : w.sessions v.id = some i) (h : v.commits i = some i')
include hi h

theorem after_calls_commit : (Event.calls v).after w =
    ⟨Function.update w.sessions v.id (some i'), v.tells i' w.memory⟩ := by
  simp only [Event.after, hi, Option.bind_some, h]

theorem sessions_after_commit (id : CeremonyId) : ((Event.calls v).after w).sessions id =
    if id = v.id then some i' else w.sessions id := by
  rw [after_calls_commit hi h]
  exact Function.update_apply ..

theorem held_after_commit (hw : Lawful w) (id : CeremonyId) : ((Event.calls v).after w).held id =
    if id = v.id then v.leaves i' (w.held v.id) else w.held id := by
  have hid : i'.id = v.id := (commits_id h).trans (hw.own _ _ hi)
  rw [World.held, after_calls_commit hi h]
  split_ifs with hv
  · rw [hv]
    exact held_tells_self w.memory hid
  · exact held_tells_other w.memory (by rw [hid]; exact Ne.symm hv)

end Commit

section Opening

variable {id : CeremonyId} (hnone : w.sessions id = none) (d : CeremonyDefinition)
  (context : CeremonyContext) (now : OffsetDateTime) (bound : Option CeremonyDefinitionDigest)
include hnone

theorem after_opens : (Event.opens id d context now bound).after w =
    ⟨Function.update w.sessions id (some (CeremonyInstance.opened id d context now bound)),
      w.memory⟩ := by
  simp only [Event.after, hnone]

theorem sessions_after_opens (other : CeremonyId) :
    ((Event.opens id d context now bound).after w).sessions other =
      if other = id then some (CeremonyInstance.opened id d context now bound)
      else w.sessions other := by
  rw [after_opens hnone]
  exact Function.update_apply ..

theorem held_after_opens (other : CeremonyId) :
    ((Event.opens id d context now bound).after w).held other = w.held other := by
  rw [after_opens hnone]
  rfl

end Opening

theorem lawful_opens (hw : Lawful w) {id : CeremonyId} (hnone : w.sessions id = none)
    (d : CeremonyDefinition) (context : CeremonyContext) (now : OffsetDateTime)
    (bound : Option CeremonyDefinitionDigest) :
    Lawful ((Event.opens id d context now bound).after w) where
  own other i hi := by
    rw [sessions_after_opens hnone] at hi
    split_ifs at hi with ho
    · rw [← Option.some.inj hi, ho]
      rfl
    · exact hw.own other i hi
  blank other hother := by
    rw [sessions_after_opens hnone] at hother
    rw [held_after_opens hnone]
    split_ifs at hother
    exact hw.blank other hother

theorem lawful_commit (hw : Lawful w) {i i' : CeremonyInstance} (hi : w.sessions v.id = some i)
    (h : v.commits i = some i') : Lawful ((Event.calls v).after w) where
  own id j hj := by
    rw [sessions_after_commit hi h] at hj
    split_ifs at hj with hid
    · rw [← Option.some.inj hj, hid]
      exact (commits_id h).trans (hw.own _ _ hi)
    · exact hw.own id j hj
  blank id hnone := by
    rw [sessions_after_commit hi h] at hnone
    rw [held_after_commit hi h hw]
    split_ifs at hnone with hid
    rw [if_neg hid]
    exact hw.blank id hnone

theorem lawful_after (e : Event) (hw : Lawful w) : Lawful (e.after w) := by
  cases e with
  | opens id d context now bound =>
    cases hs : w.sessions id with
    | none => exact lawful_opens hw hs d context now bound
    | some i =>
      rw [Event.after]
      simp only [hs]
      exact hw
  | calls v =>
    cases hc : (w.sessions v.id).bind v.commits with
    | none => rwa [after_calls_idle hc]
    | some i' =>
      obtain ⟨i, hi, hcommit⟩ := Option.bind_eq_some_iff.mp hc
      exact lawful_commit hw hi hcommit

theorem allSessions_opens (hw : Lawful w) (id : CeremonyId) (d : CeremonyDefinition)
    (context : CeremonyContext) (now : OffsetDateTime) (bound : Option CeremonyDefinitionDigest)
    (hopened : P (CeremonyInstance.opened id d context now bound) Remembered.empty)
    (h : AllSessions P w) : AllSessions P ((Event.opens id d context now bound).after w) := by
  cases hs : w.sessions id with
  | some i =>
    rw [Event.after]
    simp only [hs]
    exact h
  | none =>
    intro other i hi
    rw [sessions_after_opens hs] at hi
    rw [held_after_opens hs]
    split_ifs at hi with ho
    · rw [ho, hw.blank id hs, ← Option.some.inj hi]
      exact hopened
    · exact h other i hi

theorem allSessions_calls (hw : Lawful w) (h : AllSessions P w) :
    AllSessions P ((Event.calls v).after w) ↔ ∀ i i', w.sessions v.id = some i →
      v.commits i = some i' → P i' (v.leaves i' (w.held v.id)) := by
  constructor
  · intro hall i i' hi hcommit
    have hi' := sessions_after_commit hi hcommit v.id
    have hheld := held_after_commit hi hcommit hw v.id
    rw [if_pos rfl] at hi' hheld
    rw [← hheld]
    exact hall v.id i' hi'
  · intro hone id j hj
    cases hc : (w.sessions v.id).bind v.commits with
    | none =>
      rw [after_calls_idle hc] at hj ⊢
      exact h id j hj
    | some i' =>
      obtain ⟨i, hi, hcommit⟩ := Option.bind_eq_some_iff.mp hc
      rw [sessions_after_commit hi hcommit] at hj
      rw [held_after_commit hi hcommit hw]
      split_ifs at hj ⊢ with hid
      · rw [← Option.some.inj hj]
        exact hone i i' hi hcommit
      · exact h id j hj

theorem lawful_new : Lawful World.new where
  own _ _ h := by simp [World.new] at h
  blank id _ := by
    unfold World.held heldOf
    split
    · rfl
    · rfl

theorem lawful_run (events : List Event) : Lawful (run Event.after events World.new) :=
  run_keeps (fun _ e => lawful_after e) events lawful_new

variable {Ok : Event → Prop}
  (hopened : ∀ id d context now bound,
    Inv (CeremonyInstance.opened id d context now bound) Remembered.empty)
  (hkeeps : ∀ i i' shelf v, Ok (.calls v) → v.commits i = some i' → Inv i shelf →
    Inv i' (v.leaves i' shelf))
include hopened hkeeps

theorem allSessions_after (hw : Lawful w) {e : Event} (he : Ok e) (h : AllSessions Inv w) :
    AllSessions Inv (e.after w) := by
  cases e with
  | opens id d context now bound => exact allSessions_opens hw id d context now bound (hopened ..) h
  | calls v =>
    rw [allSessions_calls hw h]
    exact fun i i' hi hcommit => hkeeps i i' _ v he hcommit (h _ _ hi)

theorem allSessions_run (events : List Event) (hevents : ∀ e ∈ events, Ok e) :
    AllSessions Inv (run Event.after events World.new) := by
  have hstep : ∀ w e, Ok e → Lawful w ∧ AllSessions Inv w →
      Lawful (e.after w) ∧ AllSessions Inv (e.after w) :=
    fun w e he h => ⟨lawful_after e h.1, allSessions_after hopened hkeeps h.1 he h.2⟩
  have hnew : AllSessions Inv World.new := fun _ _ h => by simp [World.new] at h
  exact (run_keeps_of hstep events hevents ⟨lawful_new, hnew⟩).2

/-- Something holds of all sessions all along if and only if every call meets a condition, when
that is so of a single session and call. -/
theorem allSessions_always_iff
    (hfirst : ∀ id d context now bound,
      Good (CeremonyInstance.opened id d context now bound) Remembered.empty)
    (hgood : ∀ i i' shelf v, Ok (.calls v) → v.commits i = some i' → Inv i shelf → Good i shelf →
      (Good i' (v.leaves i' shelf) ↔ Meets i shelf v))
    (events : List Event) (hevents : ∀ e ∈ events, Ok e) :
    (∀ before later, events = before ++ later →
      AllSessions Good (run Event.after before World.new)) ↔
    ∀ before e later, events = before ++ e :: later →
      AtCommit Meets (run Event.after before World.new) e := by
  apply always_iff_of (fun w => Lawful w ∧ AllSessions Inv w) _ _ _ _ events hevents
  · exact fun w e he h => ⟨lawful_after e h.1, allSessions_after hopened hkeeps h.1 he h.2⟩
  · rintro w e he ⟨hw, hinv⟩ hg
    cases e with
    | opens id d context now bound =>
      exact iff_of_true (allSessions_opens hw id d context now bound (hfirst ..) hg) trivial
    | calls v =>
      rw [allSessions_calls hw hg]
      constructor
      · intro h i hi hsome
        obtain ⟨i', hcommit⟩ := Option.isSome_iff_exists.mp hsome
        exact (hgood i i' _ v he hcommit (hinv _ _ hi) (hg _ _ hi)).mp (h i i' hi hcommit)
      · intro h i i' hi hcommit
        apply (hgood i i' _ v he hcommit (hinv _ _ hi) (hg _ _ hi)).mpr
        exact h i hi (by rw [hcommit]; rfl)
  · exact ⟨lawful_new, fun _ _ h => by simp [World.new] at h⟩
  · exact fun _ _ h => by simp [World.new] at h

end Sessions

end Choreographer.MemoryRuns
