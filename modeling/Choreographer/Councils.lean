import Choreographer.Lib.Programs
import Choreographer.Lib.Registers
import Choreographer.Participants

namespace Choreographer.Councils

open Choreographer.Lib.SortedMaps Choreographer.Lib.Updates Choreographer.Lib.Programs
open Choreographer.Lib.Registers
open Choreographer.Texts Choreographer.Values Choreographer.Deliberate Choreographer.Participants

section Registries

/-- The calls that the use cases make on the registries and on the factory of agents. -/
inductive AdminCall
  | createAgent (descriptor : AgentDescriptor)
  | registerAgent (agent : AgentDescriptor)
  | unregisterAgent (id : AgentId)
  | resolve (id : AgentId)
  | registerCouncil (council : Council)
  | deleteCouncil (specialty : Specialty)

def administration : Interface where
  Call := AdminCall
  Answer _ := Except DomainError Unit

def unregisterAgent (id : AgentId) : Preparing Unit := do
  check fun registries => require (registries.agents.contains id) (.notFound "agent")
  modify fun registries => { registries with agents := registries.agents.erase id }

def deleteCouncil (specialty : Specialty) : Preparing Unit := do
  check fun registries => require (registries.councils.contains specialty) (.notFound "council")
  modify fun registries => { registries with councils := registries.councils.erase specialty }

abbrev Log := List (AdminCall × Except DomainError Unit)

/-- The registries, and all that was asked of them so far. -/
structure World where
  registries : Registries
  log : Log

def World.empty : World := ⟨Registries.new, []⟩

/-- What a call may answer: the registries answer for themselves, each call at once; of the
factory nothing is known. -/
def Answers : AdminCall → Registries → Except DomainError Unit → Registries → Prop
  | .createAgent _, r, _, r' => r' = r
  | .registerAgent agent, r, a, r' => (registerAgent agent).on r = (a, r')
  | .unregisterAgent id, r, a, r' => (unregisterAgent id).on r = (a, r')
  | .resolve id, r, a, r' => a = (resolve r id).map (fun _ => ()) ∧ r' = r
  | .registerCouncil council, r, a, r' => (registerCouncil council).on r = (a, r')
  | .deleteCouncil specialty, r, a, r' => (deleteCouncil specialty).on r = (a, r')

def exec : Semantics administration World :=
  fun (c : AdminCall) w (a : Except DomainError Unit) w' =>
    Answers c w.registries a w'.registries ∧ w'.log = w.log ++ [(c, a)]

end Registries

section UseCases

abbrev Administering := ExceptT DomainError (Prog administration)

def ask (c : AdminCall) : Administering Unit := ExceptT.mk (Prog.call (I := administration) c)

def ofExcept {α : Type} (x : Except DomainError α) : Administering α := ExceptT.mk (Prog.done x)

def unlessThere : Except DomainError Unit → Except DomainError Unit
  | .error (.alreadyExists _) => .ok ()
  | answer => answer

def askUnlessThere (c : AdminCall) : Administering Unit :=
  ExceptT.mk (Prog.call (I := administration) c >>= fun a => pure (unlessThere a))

def registerAgentUseCase (descriptor : AgentDescriptor) : Administering AgentId := do
  ask (.createAgent descriptor)
  ask (.registerAgent descriptor)
  pure descriptor.id

def unregisterAgentUseCase (id : AgentId) : Administering Unit := ask (.unregisterAgent id)

def resolveAll : List AgentId → Administering Unit
  | [] => pure ()
  | id :: ids => do
    ask (.resolve id)
    resolveAll ids

def Council.new (id : CouncilId) (specialty : Specialty) (agents : OrdSet AgentId) :
    Except DomainError Council := do
  require (!agents.entries.isEmpty) (.emptyCollection "council.agents")
  pure ⟨id, specialty, agents⟩

structure CreateCouncilInput where
  councilId : CouncilId
  specialty : Specialty
  agents : List AgentId

/-- Every agent is resolved before a council of them is made. -/
def createCouncilUseCase (input : CreateCouncilInput) : Administering Council := do
  resolveAll input.agents
  let council ← ofExcept (Council.new input.councilId input.specialty (OrdSet.ofList input.agents))
  ask (.registerCouncil council)
  pure council

def deleteCouncilUseCase (specialty : Specialty) : Administering Unit :=
  ask (.deleteCouncil specialty)

def enlistEach : List AgentDescriptor → Groups → Administering Groups
  | [], groups => pure groups
  | agent :: rest, groups => do
    ask (.createAgent agent)
    askUnlessThere (.registerAgent agent)
    enlistEach rest (Groups.add groups agent)

def conveneEach : List (Specialty × OrdSet AgentId) → Administering Unit
  | [] => pure ()
  | (specialty, agents) :: rest => do
    let id ← ofExcept (Text.new ("ceremony-" ++ specialty.asStr))
    let council ← ofExcept (Council.new id specialty agents)
    askUnlessThere (.registerCouncil council)
    conveneEach rest

def prepareCeremonyParticipantsUseCase (participants : List AgentDescriptor) :
    Administering Unit := do
  let groups ← enlistEach participants OrdMap.empty
  conveneEach groups.entries

def noopKind : AgentKind := ⟨"noop", by decide⟩

def applySeeding : List String → Administering Unit
  | [] => pure ()
  | label :: rest => do
    let specialty ← ofExcept (Text.new label)
    let agentId ← ofExcept (Text.new ("seed-" ++ label ++ "-0"))
    askUnlessThere (.registerAgent ⟨agentId, specialty, noopKind, Attributes.empty⟩)
    let councilId ← ofExcept (Text.new ("seed-" ++ label))
    let council ← ofExcept (Council.new councilId specialty (OrdSet.ofList [agentId]))
    askUnlessThere (.registerCouncil council)
    applySeeding rest

/-- Those that use the registries, each run for what it does. -/
inductive Administers : Prog administration Unit → Prop
  | register (descriptor : AgentDescriptor) :
    Administers ((registerAgentUseCase descriptor).run >>= fun _ => pure ())
  | unregister (id : AgentId) :
    Administers ((unregisterAgentUseCase id).run >>= fun _ => pure ())
  | create (input : CreateCouncilInput) :
    Administers ((createCouncilUseCase input).run >>= fun _ => pure ())
  | delete (specialty : Specialty) :
    Administers ((deleteCouncilUseCase specialty).run >>= fun _ => pure ())
  | prepare (participants : List AgentDescriptor) :
    Administers ((prepareCeremonyParticipantsUseCase participants).run >>= fun _ => pure ())
  | seed (labels : List String) :
    Administers ((applySeeding labels).run >>= fun _ => pure ())

end UseCases

section Books

def agentAdded (id : AgentId) : AdminCall × Except DomainError Unit → Bool
  | (.registerAgent agent, .ok _) => agent.id = id
  | _ => false

def agentDropped (id : AgentId) : AdminCall × Except DomainError Unit → Bool
  | (.unregisterAgent id', .ok _) => id' = id
  | _ => false

def councilAdded (specialty : Specialty) : AdminCall × Except DomainError Unit → Bool
  | (.registerCouncil council, .ok _) => council.specialty = specialty
  | _ => false

def councilDropped (specialty : Specialty) : AdminCall × Except DomainError Unit → Bool
  | (.deleteCouncil specialty', .ok _) => specialty' = specialty
  | _ => false

/-- An agent that was registered under the id at some time. -/
def Known (log : Log) (id : AgentId) : Prop :=
  ∃ agent : AgentDescriptor, agent.id = id ∧ (AdminCall.registerAgent agent, .ok ()) ∈ log

/-- A council that can be asked for a decision: it has members, and each was known. -/
def Seated (log : Log) (council : Council) : Prop :=
  council.agents.keys ≠ [] ∧ ∀ id ∈ council.agents.keys, Known log id

/-- What holds of the registries whoever uses them: everything is under its own name, the
councils are seated, and of what was added exactly what was not dropped is there. -/
structure Sound (w : World) : Prop where
  agents : Kept (fun id agent => agent.id = id ∧ Known w.log id)
    (fun id => w.log.countP (agentAdded id)) (fun id => w.log.countP (agentDropped id))
    w.registries.agents
  councils : Kept (fun specialty council => council.specialty = specialty ∧ Seated w.log council)
    (fun specialty => w.log.countP (councilAdded specialty))
    (fun specialty => w.log.countP (councilDropped specialty)) w.registries.councils

theorem Known.append {log : Log} {id : AgentId} (h : Known log id) (later : Log) :
    Known (log ++ later) id := by
  obtain ⟨agent, hid, hmem⟩ := h
  exact ⟨agent, hid, List.mem_append_left later hmem⟩

theorem Seated.append {log : Log} {council : Council} (h : Seated log council) (later : Log) :
    Seated (log ++ later) council :=
  ⟨h.1, fun id hid => (h.2 id hid).append later⟩

theorem guarded_on (p : Registries → Bool) (e : DomainError) (f : Registries → Registries)
    (r : Registries) :
    (do check fun r => require (p r) e; modify f : Preparing Unit).on r =
      if p r then (.ok (), f r) else (.error e, r) := by
  simp only [bind_on, check_on, modify_on]
  cases p r with
  | true => rfl
  | false => rfl

/-- A call that leaves the registries as they are. -/
def Idle (entry : AdminCall × Except DomainError Unit) : Prop :=
  (∀ id, agentAdded id entry = false ∧ agentDropped id entry = false) ∧
    ∀ specialty, councilAdded specialty entry = false ∧ councilDropped specialty entry = false

theorem idle_error (c : AdminCall) (e : DomainError) : Idle (c, .error e) := by
  cases c <;> exact ⟨fun _ => ⟨rfl, rfl⟩, fun _ => ⟨rfl, rfl⟩⟩

theorem answers_cases {c : AdminCall} {r r' : Registries} {a : Except DomainError Unit}
    (h : Answers c r a r') :
    (r' = r ∧ Idle (c, a)) ∨
    (∃ agent, c = .registerAgent agent ∧ a = .ok () ∧ r.agents.contains agent.id = false ∧
      r' = { r with agents := r.agents.insert agent.id agent }) ∨
    (∃ id, c = .unregisterAgent id ∧ a = .ok () ∧ r.agents.contains id = true ∧
      r' = { r with agents := r.agents.erase id }) ∨
    (∃ council, c = .registerCouncil council ∧ a = .ok () ∧
      r.councils.contains council.specialty = false ∧
      r' = { r with councils := r.councils.insert council.specialty council }) ∨
    ∃ specialty, c = .deleteCouncil specialty ∧ a = .ok () ∧
      r.councils.contains specialty = true ∧
      r' = { r with councils := r.councils.erase specialty } := by
  cases c with
  | createAgent descriptor => exact .inl ⟨h, ⟨fun _ => ⟨rfl, rfl⟩, fun _ => ⟨rfl, rfl⟩⟩⟩
  | resolve id => exact .inl ⟨h.2, ⟨fun _ => ⟨rfl, rfl⟩, fun _ => ⟨rfl, rfl⟩⟩⟩
  | registerAgent agent =>
    simp only [Answers, registerAgent, guarded_on, Bool.not_eq_true'] at h
    split_ifs at h with hfree
    · obtain ⟨rfl, rfl⟩ := Prod.mk.inj h
      exact .inr (.inl ⟨agent, rfl, rfl, hfree, rfl⟩)
    · obtain ⟨rfl, rfl⟩ := Prod.mk.inj h
      exact .inl ⟨rfl, idle_error _ _⟩
  | unregisterAgent id =>
    simp only [Answers, unregisterAgent, guarded_on] at h
    split_ifs at h with hthere
    · obtain ⟨rfl, rfl⟩ := Prod.mk.inj h
      exact .inr (.inr (.inl ⟨id, rfl, rfl, hthere, rfl⟩))
    · obtain ⟨rfl, rfl⟩ := Prod.mk.inj h
      exact .inl ⟨rfl, idle_error _ _⟩
  | registerCouncil council =>
    simp only [Answers, registerCouncil, guarded_on, Bool.not_eq_true'] at h
    split_ifs at h with hfree
    · obtain ⟨rfl, rfl⟩ := Prod.mk.inj h
      exact .inr (.inr (.inr (.inl ⟨council, rfl, rfl, hfree, rfl⟩)))
    · obtain ⟨rfl, rfl⟩ := Prod.mk.inj h
      exact .inl ⟨rfl, idle_error _ _⟩
  | deleteCouncil specialty =>
    simp only [Answers, deleteCouncil, guarded_on] at h
    split_ifs at h with hthere
    · obtain ⟨rfl, rfl⟩ := Prod.mk.inj h
      exact .inr (.inr (.inr (.inr ⟨specialty, rfl, rfl, hthere, rfl⟩)))
    · obtain ⟨rfl, rfl⟩ := Prod.mk.inj h
      exact .inl ⟨rfl, idle_error _ _⟩

theorem countP_idle {entry : AdminCall × Except DomainError Unit} (log : Log) {p : _ → Bool}
    (h : p entry = false) : (log ++ [entry]).countP p = log.countP p := by
  simp [h]

theorem countP_concat {entry : AdminCall × Except DomainError Unit} (log : Log) (p : _ → Bool) :
    (log ++ [entry]).countP p = log.countP p + if p entry then 1 else 0 := by
  simp [List.countP_append, List.countP_cons]

section Steps

variable {w : World} {entry : AdminCall × Except DomainError Unit}

theorem Sound.agents_later (h : Sound w)
    (hidle : ∀ id, agentAdded id entry = false ∧ agentDropped id entry = false) :
    Kept (fun id agent => agent.id = id ∧ Known (w.log ++ [entry]) id)
      (fun id => (w.log ++ [entry]).countP (agentAdded id))
      (fun id => (w.log ++ [entry]).countP (agentDropped id)) w.registries.agents :=
  h.agents.mono (fun _ _ hP => hP.imp_right (·.append _))
    (fun id => countP_idle _ (hidle id).1) (fun id => countP_idle _ (hidle id).2)

theorem Sound.councils_later (h : Sound w)
    (hidle : ∀ s, councilAdded s entry = false ∧ councilDropped s entry = false) :
    Kept (fun s council => council.specialty = s ∧ Seated (w.log ++ [entry]) council)
      (fun s => (w.log ++ [entry]).countP (councilAdded s))
      (fun s => (w.log ++ [entry]).countP (councilDropped s)) w.registries.councils :=
  h.councils.mono (fun _ _ hP => hP.imp_right (·.append _))
    (fun s => countP_idle _ (hidle s).1) (fun s => countP_idle _ (hidle s).2)

/-- Every call keeps the registries sound, so long as a council is registered only when
it is seated. -/
theorem exec_sound {c : AdminCall} {a : Except DomainError Unit} {w' : World} (hw : Sound w)
    (h : exec c w a w') (hseated : ∀ council, c = .registerCouncil council → Seated w.log council) :
    Sound w' := by
  obtain ⟨registries, log⟩ := w'
  obtain ⟨hanswers, rfl⟩ := h
  obtain ⟨rfl, hidle⟩ | ⟨agent, rfl, rfl, hfree, rfl⟩ | ⟨id, rfl, rfl, hthere, rfl⟩ |
    ⟨council, rfl, rfl, hfree, rfl⟩ | ⟨specialty, rfl, rfl, hthere, rfl⟩ := answers_cases hanswers
  · exact ⟨hw.agents_later hidle.1, hw.councils_later hidle.2⟩
  · refine ⟨?_, hw.councils_later fun _ => ⟨rfl, rfl⟩⟩
    have hknown : Known (w.log ++ [(.registerAgent agent, .ok ())]) agent.id :=
      ⟨agent, rfl, by simp⟩
    refine (hw.agents.mono (fun _ _ hP => hP.imp_right (·.append _)) (fun _ => rfl)
      (fun id => countP_idle _ rfl)).insert hfree ⟨rfl, hknown⟩ fun id => ?_
    rw [countP_concat]
    simp only [agentAdded, decide_eq_true_eq]
  · refine ⟨?_, hw.councils_later fun _ => ⟨rfl, rfl⟩⟩
    refine (hw.agents.mono (fun _ _ hP => hP.imp_right (·.append _)) (fun _ => countP_idle _ rfl)
      (fun _ => rfl)).erase hthere fun id' => ?_
    rw [countP_concat]
    simp only [agentDropped, decide_eq_true_eq]
  · refine ⟨hw.agents_later fun _ => ⟨rfl, rfl⟩, ?_⟩
    refine (hw.councils.mono (fun _ _ hP => hP.imp_right (·.append _)) (fun _ => rfl)
      (fun _ => countP_idle _ rfl)).insert hfree ⟨rfl, (hseated council rfl).append _⟩ fun s => ?_
    rw [countP_concat]
    simp only [councilAdded, decide_eq_true_eq]
  · refine ⟨hw.agents_later fun _ => ⟨rfl, rfl⟩, ?_⟩
    refine (hw.councils.mono (fun _ _ hP => hP.imp_right (·.append _)) (fun _ => countP_idle _ rfl)
      (fun _ => rfl)).erase hthere fun s => ?_
    rw [countP_concat]
    simp only [councilDropped, decide_eq_true_eq]

end Steps

end Books

section Protocol

def protocol : Protocol World where
  inv := Sound
  guar w w' := ∃ later, w'.log = w.log ++ later

def KnownAll (ids : List AgentId) (w : World) : Prop := ∀ id ∈ ids, Known w.log id

theorem knownAll_stable (ids : List AgentId) : Stable protocol (KnownAll ids) := by
  rintro w w' - - ⟨later, hlog⟩ h id hid
  rw [hlog]
  exact (h id hid).append later

variable {K : World → Prop}

theorem call_safe (c : AdminCall) {R : Except DomainError Unit → World → Prop}
    (hstable : ∀ a, Stable protocol (R a))
    (hseated : ∀ w council, K w → c = .registerCouncil council → Seated w.log council)
    (hpost : ∀ w a w', Sound w → Sound w' → exec c w a w' → R a w') :
    Safe exec protocol K (Prog.call (I := administration) c) R := by
  apply safe_call (I := administration) c hstable
  intro w a w' hw hK h
  have hw' : Sound w' := exec_sound hw h fun council => hseated w council hK
  exact ⟨hw', ⟨_, h.2⟩, hpost w a w' hw hw' h⟩

theorem expects_stable {Q : World → Prop} (h : Stable protocol Q) (a : Except DomainError Unit) :
    Stable protocol (Expects (fun _ => Q) a) := by
  cases a with
  | error e => exact stable_true
  | ok u => exact h

theorem ask_safe (c : AdminCall) {Q : World → Prop} (hstable : Stable protocol Q)
    (hseated : ∀ w council, K w → c = .registerCouncil council → Seated w.log council)
    (hpost : ∀ w w', Sound w → Sound w' → exec c w (.ok ()) w' → Q w') :
    SafeE exec protocol K (ask c) (fun _ => Q) := by
  refine ⟨call_safe c (expects_stable hstable) hseated fun w a w' hw hw' h => ?_⟩
  cases a with
  | error e => trivial
  | ok u => exact hpost w w' hw hw' h

theorem askUnlessThere_safe (c : AdminCall) {Q : World → Prop} (hstable : Stable protocol Q)
    (hseated : ∀ w council, K w → c = .registerCouncil council → Seated w.log council)
    (hpost : ∀ w a w', Sound w → Sound w' → exec c w a w' → unlessThere a = .ok () → Q w') :
    SafeE exec protocol K (askUnlessThere c) (fun _ => Q) := by
  refine ⟨Safe.bind (call_safe c (R := fun a => Expects (fun _ => Q) (unlessThere a))
    (fun a => expects_stable hstable _) hseated fun w a w' hw hw' h => ?_) ?_⟩
  · cases hthere : unlessThere a with
    | error e => trivial
    | ok u => exact hpost w a w' hw hw' h hthere
  · exact fun a w _ h => h

theorem ask_plain_safe (c : AdminCall) (h : ∀ council, c ≠ .registerCouncil council) :
    SafeE exec protocol K (ask c) (fun _ _ => True) :=
  ask_safe c stable_true (fun _ council _ hc => absurd hc (h council)) fun _ _ _ _ _ => trivial

theorem known_of_contains {w : World} {id : AgentId} (hw : Sound w)
    (h : w.registries.agents.contains id = true) : Known w.log id := by
  obtain ⟨agent, hget⟩ := OrdMap.contains_iff.mp h
  exact (hw.agents.each id agent hget).2

theorem resolve_safe (id : AgentId) :
    SafeE exec protocol K (ask (.resolve id)) (fun _ => KnownAll [id]) := by
  refine ask_safe _ (knownAll_stable _) (by simp) ?_
  rintro w w' hw hw' ⟨⟨hanswer, hsame⟩, -⟩ id' hid'
  obtain rfl := List.mem_singleton.mp hid'
  have hthere : w.registries.agents.contains id' = true := by
    cases hget : w.registries.agents.get? id' with
    | none => simp [resolve, okOr, hget, Except.map] at hanswer
    | some agent => exact OrdMap.contains_iff.mpr ⟨agent, hget⟩
  exact known_of_contains hw' (hsame ▸ hthere)

theorem enlisted_safe (agent : AgentDescriptor) :
    SafeE exec protocol K (askUnlessThere (.registerAgent agent)) (fun _ => KnownAll [agent.id]) := by
  refine askUnlessThere_safe _ (knownAll_stable _) (by simp) ?_
  rintro w a w' hw hw' ⟨hanswer, -⟩ - id' hid'
  obtain rfl := List.mem_singleton.mp hid'
  apply known_of_contains hw'
  simp only [Answers, registerAgent, guarded_on] at hanswer
  split_ifs at hanswer with hfree
  · obtain ⟨-, hr⟩ := Prod.mk.inj hanswer
    rw [← hr]
    simp
  · obtain ⟨-, hr⟩ := Prod.mk.inj hanswer
    rw [← hr]
    simpa using hfree

theorem resolveAll_safe (ids : List AgentId) :
    SafeE exec protocol (fun _ => True) (resolveAll ids) (fun _ => KnownAll ids) := by
  induction ids with
  | nil => exact SafeE.pure fun _ _ _ => by simp [KnownAll]
  | cons id ids ih =>
    refine SafeE.bind (resolve_safe id) fun _ => ?_
    refine (ih.frame (knownAll_stable [id])).mono (fun _ _ h => ⟨trivial, h⟩) ?_
    rintro _ w - ⟨hids, hid⟩ id' hid'
    obtain rfl | hmem := List.mem_cons.mp hid'
    · exact hid id' (List.mem_singleton.mpr rfl)
    · exact hids id' hmem

theorem seated_of_new {id : CouncilId} {specialty : Specialty} {agents : OrdSet AgentId}
    {council : Council} {w : World} (h : Council.new id specialty agents = .ok council)
    (hknown : KnownAll agents.keys w) : Seated w.log council := by
  simp only [Council.new, except_bind_eq_ok, require_eq_ok] at h
  obtain ⟨-, hsome, hnew⟩ := h
  obtain rfl := Except.ok.inj hnew
  refine ⟨?_, hknown⟩
  intro hnone
  have hentries : agents.entries = [] := List.map_eq_nil_iff.mp hnone
  simp [hentries] at hsome

theorem convened_safe {id : CouncilId} {specialty : Specialty} {agents : OrdSet AgentId}
    {council : Council} (h : Council.new id specialty agents = .ok council) :
    SafeE exec protocol (KnownAll agents.keys) (askUnlessThere (.registerCouncil council))
      (fun _ _ => True) := by
  refine askUnlessThere_safe _ stable_true ?_ fun _ _ _ _ _ _ _ => trivial
  rintro w council' hknown ⟨⟩
  exact seated_of_new h hknown

theorem createCouncil_safe (input : CreateCouncilInput) :
    SafeE exec protocol (fun _ => True) (createCouncilUseCase input) (fun _ _ => True) := by
  refine SafeE.bind (resolveAll_safe input.agents) fun _ => SafeE.ofExcept fun council hnew => ?_
  refine SafeE.bind (ask_safe _ stable_true ?_ fun _ _ _ _ _ => trivial)
    fun _ => SafeE.pure fun _ _ _ => trivial
  rintro w council' hknown ⟨⟩
  exact seated_of_new hnew fun id hid => hknown id (OrdSet.mem_keys_ofList.mp hid)

theorem registerAgent_safe (descriptor : AgentDescriptor) :
    SafeE exec protocol (fun _ => True) (registerAgentUseCase descriptor) (fun _ _ => True) := by
  refine SafeE.bind (ask_plain_safe _ (by simp)) fun _ => ?_
  refine SafeE.bind (ask_plain_safe _ (by simp)) fun _ => ?_
  exact SafeE.pure fun _ _ _ => trivial

def GroupsKnown (groups : Groups) (w : World) : Prop :=
  ∀ specialty agents, groups.get? specialty = some agents → KnownAll agents.keys w

theorem groupsKnown_stable (groups : Groups) : Stable protocol (GroupsKnown groups) :=
  fun w w' hw hw' hguar h specialty agents hget =>
    knownAll_stable agents.keys w w' hw hw' hguar (h specialty agents hget)

theorem groupsKnown_add {groups : Groups} {agent : AgentDescriptor} {w : World}
    (h : GroupsKnown groups w) (hagent : KnownAll [agent.id] w) :
    GroupsKnown (Groups.add groups agent) w := by
  intro specialty agents hget id hid
  rw [Groups.add, OrdMap.get?_insert] at hget
  split_ifs at hget with hs
  · obtain rfl := Option.some.inj hget
    rw [OrdMap.mem_keys, OrdSet.contains_add, Bool.or_eq_true, decide_eq_true_eq] at hid
    obtain rfl | hold := hid
    · exact hagent agent.id (List.mem_singleton.mpr rfl)
    · cases hgroup : groups.get? agent.specialty with
      | none => simp [hgroup, OrdMap.contains] at hold
      | some agents =>
        rw [hgroup, Option.getD_some] at hold
        exact h agent.specialty agents hgroup id (OrdMap.mem_keys.mpr hold)
  · exact h specialty agents hget id hid

theorem enlistEach_safe (participants : List AgentDescriptor) (groups : Groups) :
    SafeE exec protocol (GroupsKnown groups) (enlistEach participants groups) GroupsKnown := by
  induction participants generalizing groups with
  | nil => exact SafeE.pure fun _ _ h => h
  | cons agent rest ih =>
    refine SafeE.andThen (groupsKnown_stable groups) (ask_plain_safe _ (by simp)) fun _ => ?_
    refine SafeE.bind ((enlisted_safe agent).frame (groupsKnown_stable groups) |>.mono
      (fun _ _ h => h) fun _ _ _ h => h) fun _ => ?_
    exact (ih (Groups.add groups agent)).mono (fun w _ h => groupsKnown_add h.2 h.1) fun _ _ _ h => h

theorem conveneEach_safe (entries : List (Specialty × OrdSet AgentId)) :
    SafeE exec protocol (fun w => ∀ e ∈ entries, KnownAll e.2.keys w) (conveneEach entries)
      (fun _ _ => True) := by
  induction entries with
  | nil => exact SafeE.pure fun _ _ _ => trivial
  | cons e rest ih =>
    obtain ⟨specialty, agents⟩ := e
    have hrest : Stable protocol (fun w => ∀ e ∈ rest, KnownAll e.2.keys w) :=
      fun w w' hw hw' hguar h e he => knownAll_stable e.2.keys w w' hw hw' hguar (h e he)
    refine SafeE.ofExcept fun id _ => SafeE.ofExcept fun council hnew => ?_
    refine SafeE.bind ((convened_safe hnew).frame hrest |>.mono ?_ fun _ _ _ h => h) fun _ => ?_
    · intro w _ h
      exact ⟨h _ List.mem_cons_self, fun e he => h e (List.mem_cons_of_mem _ he)⟩
    · exact ih.mono (fun _ _ h => h.2) fun _ _ _ h => h

theorem prepare_safe (participants : List AgentDescriptor) :
    SafeE exec protocol (fun _ => True) (prepareCeremonyParticipantsUseCase participants)
      (fun _ _ => True) := by
  refine SafeE.bind ((enlistEach_safe participants OrdMap.empty).mono ?_ fun _ _ _ h => h)
    fun groups => ?_
  · intro w _ _ specialty agents hget
    simp at hget
  · apply (conveneEach_safe groups.entries).mono _ fun _ _ _ h => h
    intro w _ h e he
    exact h e.1 e.2 (OrdMap.mem_entries.mp he)

theorem seeding_safe (labels : List String) :
    SafeE exec protocol (fun _ => True) (applySeeding labels) (fun _ _ => True) := by
  induction labels with
  | nil => exact SafeE.pure fun _ _ _ => trivial
  | cons label rest ih =>
    refine SafeE.ofExcept fun specialty _ => SafeE.ofExcept fun agentId _ => ?_
    refine SafeE.bind (enlisted_safe _) fun _ => ?_
    refine SafeE.ofExcept fun councilId _ => SafeE.ofExcept fun council hnew => ?_
    refine SafeE.bind ((convened_safe hnew).mono ?_ fun _ _ _ h => h) fun _ => ih
    intro w _ h id hid
    exact h id (OrdSet.mem_keys_ofList.mp hid)

theorem sound_empty : Sound World.empty := ⟨kept_empty _, kept_empty _⟩

/-- Whoever registers and unregisters agents, creates and deletes councils, prepares
ceremonies and seeds, all at once and in any order: every agent and every council is under
its own name, every council has members and each of them was registered, and there is
exactly one council of a specialty if it was registered once more often than deleted, and
none if it was deleted as often; and so for the agents. -/
theorem registries_sound {c : Config administration World}
    (h : Reachable exec Administers (fun _ _ => False) World.empty c) : Sound c.world := by
  refine inv_of_reachable (P := protocol) ?_ (fun _ _ _ hfalse => hfalse.elim) sound_empty h
  intro p hp
  have hend {α : Type} {q : Administering α}
      (hq : SafeE exec protocol (fun _ => True) q (fun _ _ => True)) :
      Safe exec protocol (fun _ => True) (q.run >>= fun _ => pure ()) (fun _ _ => True) :=
    Safe.bind hq.run fun _ _ _ _ => trivial
  cases hp with
  | register descriptor => exact hend (registerAgent_safe descriptor)
  | unregister id => exact hend (ask_plain_safe _ (by simp))
  | create input => exact hend (createCouncil_safe input)
  | delete specialty => exact hend (ask_plain_safe _ (by simp))
  | prepare participants => exact hend (prepare_safe participants)
  | seed labels => exact hend (seeding_safe labels)

/-- The registries by themselves, with a factory that makes every agent. -/
def serve (c : AdminCall) (w : World) : Except DomainError Unit × World :=
  let served : Except DomainError Unit × Registries := match c with
    | .createAgent _ => (.ok (), w.registries)
    | .registerAgent agent => (registerAgent agent).on w.registries
    | .unregisterAgent id => (unregisterAgent id).on w.registries
    | .resolve id => ((resolve w.registries id).map fun _ => (), w.registries)
    | .registerCouncil council => (registerCouncil council).on w.registries
    | .deleteCouncil specialty => (deleteCouncil specialty).on w.registries
  (served.1, ⟨served.2, w.log ++ [(c, served.1)]⟩)

theorem exec_serve (c : AdminCall) (w : World) : exec c w (serve c w).1 (serve c w).2 := by
  cases c <;> exact ⟨by simp [serve, Answers], rfl⟩

def reviewing : Specialty := ⟨"reviewer", by decide⟩

def critic : AgentDescriptor := ⟨⟨"critic-1", by decide⟩, reviewing, noopKind, Attributes.empty⟩

def administrators : List (Prog administration Unit) :=
  [(applySeeding ["reviewer"]).run >>= fun _ => pure (),
    (registerAgentUseCase critic).run >>= fun _ => pure (),
    (createCouncilUseCase ⟨⟨"critics", by decide⟩, reviewing, [critic.id]⟩).run >>= fun _ => pure (),
    (deleteCouncilUseCase reviewing).run >>= fun _ => pure ()]

theorem administrators_administer : ∀ p ∈ administrators, Administers p := by
  simp only [administrators, List.forall_mem_cons, List.not_mem_nil, false_implies, implies_true,
    and_true]
  exact ⟨.seed _, .register _, .create _, .delete _⟩

/-- The council that was seeded is deleted while another one is being made, which takes its
place. -/
theorem registries_sound_seeded : ∃ c : Config administration World,
    Reachable exec Administers (fun _ _ => False) World.empty c ∧ Sound c.world ∧
      c.world.registries.councils.contains reviewing = true ∧
      c.world.log.countP (councilAdded reviewing) = 2 ∧
      c.world.log.countP (councilDropped reviewing) = 1 := by
  have hreach : Reachable exec Administers (fun _ _ => False) World.empty
      ([0, 1, 1, 0, 2, 3, 2].foldl (Config.turn serve) ⟨World.empty, [] ++ administrators⟩) :=
    reachable_turns exec_serve (reachable_arrivals .refl administrators_administer) _
  exact ⟨_, hreach, registries_sound hreach, by decide +kernel, by decide +kernel,
    by decide +kernel⟩

end Protocol

end Choreographer.Councils
