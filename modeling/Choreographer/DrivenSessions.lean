import Choreographer.DriverVerbs
import Choreographer.Lib.Company

namespace Choreographer.DrivenSessions

open Choreographer.Lib.SortedMaps Choreographer.Lib.Updates Choreographer.Lib.Programs
open Choreographer.Lib.Company
open Choreographer.Texts Choreographer.Values Choreographer.Steps Choreographer.DefinitionParts
open Choreographer.Definition Choreographer.Agenda Choreographer.Instance Choreographer.Audit
open Choreographer.Operations Choreographer.InMemory Choreographer.SessionJournal
open Choreographer.SessionFacts Choreographer.SessionLog Choreographer.UseCases
open Choreographer.SoleRuns Choreographer.DriverVerbs
open CeremonyInstance (CeremonyEvidenceRequest)
open InMemoryCeremonyStore (stored_insert stored_touch commit_conflict commit_refused commit_landed)

section Live

/-- A handler that has one answer to each request, and a clock by what it says the first time
it is read, the second time and so on. -/
structure Live where
  env : Rendering
  clock : Nat → OffsetDateTime
  handler : CeremonyStepHandlerRequest → Except DomainError StepResult
  source : CeremonyEvidenceRequest → Except DomainError CeremonyEvidencePack

structure Site where
  scene : Scene
  reads : Nat

def readings : Call Deed → Nat
  | .now => 1
  | .lap => 1
  | _ => 0

def Live.on (m : Live) (w : Site) : Setting where
  env := m.env
  clock _ := m.clock w.reads
  handler _ := m.handler
  source := m.source

def Live.answer (m : Live) (c : Call Deed) (w : Site) : c.Answer × Site :=
  (((m.on w).answer c w.scene).1, ⟨((m.on w).answer c w.scene).2, w.reads + readings c⟩)

def Live.exec (m : Live) : Semantics (calls Deed) Site := fun c w a w' => m.answer c w = (a, w')

/-- What a client is told that is alone with a session: the times it puts down, one after the
other. -/
def Live.alone (m : Live) (times : Nat → OffsetDateTime) : Setting where
  env := m.env
  clock s := times s.told.length
  handler _ := m.handler
  source := m.source

/-- The others leave a session alone. -/
structure Apart (id : CeremonyId) (w v : Site) : Prop where
  stored : v.scene.world.store.stored id = w.scene.world.store.stored id
  said : v.scene.transcripts id = w.scene.transcripts id
  told : v.scene.told = w.scene.told
  reads : v.reads = w.reads

/-- And they file no other definition under the name and the version of this one. -/
structure Elsewhere (definition : CeremonyDefinition) (id : CeremonyId) (w v : Site) : Prop
    extends Apart id w v where
  filed : v.scene.world.definition definition.name definition.version =
    w.scene.world.definition definition.name definition.version

end Live

section Own

/-- The calls that have to do with one session of one definition. Only the driver takes the
time for the metrics. -/
def Own (laps : Prop) (definition : CeremonyDefinition) (id : CeremonyId) : Call Deed → Prop
  | .revision other => other = id
  | .get other => other = id
  | .commit loaded _ _ _ => loaded.session.id = id
  | .openSession session _ _ => session.id = id
  | .definition name version => name = definition.name ∧ version = definition.version
  | .saveDefinition other => other = definition
  | .published _ _ => False
  | .now => True
  | .lap => laps
  | .execute _ => True
  | .collect _ => False
  | .transcript other => other = id
  | .contribute other _ => other = id

/-- A client among others and a client alone have the same session before them. -/
structure Same (definition : CeremonyDefinition) (id : CeremonyId) (w : Site) (s : Scene) : Prop where
  stored : w.scene.world.store.stored id = s.world.store.stored id
  filed : w.scene.world.definition definition.name definition.version =
    s.world.definition definition.name definition.version
  said : w.scene.transcripts id = s.transcripts id
  told : w.scene.told = s.told

variable {m : Live} {laps : Prop} {definition : CeremonyDefinition} {id : CeremonyId} {w v : Site}
  {s : Scene}

theorem Same.elsewhere (h : Same definition id w s) (hmove : Elsewhere definition id w v) :
    Same definition id v s :=
  ⟨hmove.stored.trans h.stored, hmove.filed.trans h.filed, hmove.said.trans h.said,
    hmove.told.trans h.told⟩

theorem storing_own {env : Rendering} {lost : DomainError} {loaded : LoadedSession}
    {facts : List AuditFact} {m m' : InMemoryCeremonyStore}
    (h : m.stored loaded.session.id = m'.stored loaded.session.id) :
    (storing env lost loaded facts m).1 = (storing env lost loaded facts m').1 ∧
      (storing env lost loaded facts m).2.stored loaded.session.id =
        (storing env lost loaded facts m').2.stored loaded.session.id := by
  unfold storing CeremonyCommit.new
  split_ifs with hfacts
  · dsimp only
    cases hag : loaded.expected.agrees (m.stored loaded.session.id).revision with
    | false =>
      rw [commit_conflict hag, commit_conflict (h ▸ hag)]
      refine ⟨rfl, ?_⟩
      dsimp only
      rw [stored_touch, stored_touch, h]
    | true =>
      rcases hs : sealFacts env (m.stored loaded.session.id).journal.getLast? facts with
        ⟨sealed, _ | ⟨⟨⟩⟩⟩
      · rw [commit_refused hag hs, commit_refused (h ▸ hag) (h ▸ hs)]
        refine ⟨rfl, ?_⟩
        dsimp only
        rw [stored_touch, stored_touch, h]
      · rw [commit_landed hag hs, commit_landed (h ▸ hag) (h ▸ hs)]
        refine ⟨rfl, ?_⟩
        dsimp only
        rw [stored_insert, stored_insert, if_pos rfl, if_pos rfl, h]
  · exact ⟨rfl, h⟩

theorem answer_same (times : Nat → OffsetDateTime) {c : Call Deed} (hown : Own laps definition id c)
    (hclock : c = .now → times s.told.length = m.clock w.reads) (h : Same definition id w s) :
    ((m.alone times).answer c s).1 = (m.answer c w).1 ∧
      Same definition id (m.answer c w).2 ((m.alone times).answer c s).2 := by
  cases c with
  | revision other =>
    obtain rfl : other = id := hown
    exact ⟨congrArg StoredCeremony.revision h.stored.symm, h.stored, h.filed, h.said, h.told⟩
  | get other =>
    obtain rfl : other = id := hown
    have hsession : (s.world.store.stored other).session =
        (w.scene.world.store.stored other).session := by rw [h.stored]
    refine ⟨?_, h.stored, h.filed, h.said, h.told⟩
    exact congrArg (fun session => okOr session (DomainError.notFound "ceremony_instance")) hsession
  | commit loaded facts base note =>
    obtain rfl : loaded.session.id = id := hown
    obtain ⟨hanswer, hstored⟩ := @storing_own m.env lostCommit loaded facts _ _ h.stored
    exact ⟨hanswer.symm, hstored, h.filed, h.said, h.told⟩
  | openSession session facts note =>
    obtain rfl : session.id = id := hown
    obtain ⟨hanswer, hstored⟩ := @storing_own m.env lostOpening ⟨session, .new⟩ facts _ _ h.stored
    exact ⟨hanswer.symm, hstored, h.filed, h.said, h.told⟩
  | definition name version =>
    obtain ⟨rfl, rfl⟩ := hown
    exact ⟨h.filed.symm, h.stored, h.filed, h.said, h.told⟩
  | saveDefinition other =>
    obtain rfl : other = definition := hown
    refine ⟨rfl, h.stored, ?_, h.said, h.told⟩
    simp [Live.answer, Setting.answer, World.definition]
  | published name version => exact hown.elim
  | now =>
    have htime := hclock rfl
    refine ⟨htime, h.stored, h.filed, h.said, ?_⟩
    exact congrArg₂ (fun told now => told ++ [now]) h.told htime.symm
  | lap => exact ⟨rfl, h.stored, h.filed, h.said, h.told⟩
  | execute request => exact ⟨rfl, h.stored, h.filed, h.said, h.told⟩
  | collect request => exact hown.elim
  | transcript other =>
    obtain rfl : other = id := hown
    exact ⟨congrArg Except.ok h.said.symm, h.stored, h.filed, h.said, h.told⟩
  | contribute other contribution =>
    obtain rfl : other = id := hown
    refine ⟨rfl, h.stored, h.filed, ?_, h.told⟩
    simp [Live.answer, Setting.answer, h.said]

end Own

section Heeding

variable {m : Setting} {laps : Prop} {definition : CeremonyDefinition} {id : CeremonyId}
  {s s' : Scene} {loaded l : LoadedSession} {α β : Type}

/-- A client that heeds nothing but its own session. -/
structure Heeds (m : Setting) (laps : Prop) (definition : CeremonyDefinition) (id : CeremonyId)
    (p : UseCaseM α) (s : Scene) : Prop where
  minds : Minds (Own laps definition id) m.answer p.run s

theorem Heeds.bind {p : UseCaseM α} {f : α → UseCaseM β} (hp : Heeds m laps definition id p s)
    (hf : ∀ a v, perform m p s = (.ok a, v) → Heeds m laps definition id (f a) v) :
    Heeds m laps definition id (p >>= f) s :=
  ⟨minds_bindE hp.minds fun a v h => (hf a v h).minds⟩

theorem heeds_pure (a : α) : Heeds m laps definition id (pure a) s := ⟨trivial⟩

theorem heeds_checked {x : Except DomainError α} {f : α → UseCaseM β}
    (hf : ∀ a, x = .ok a → Heeds m laps definition id (f a) s) :
    Heeds m laps definition id (checked x >>= f) s := by
  refine Heeds.bind ⟨trivial⟩ fun a v hchecked => ?_
  obtain ⟨hx, rfl⟩ := perform_checked_eq_ok hchecked
  exact hf a hx

theorem heeds_operate {method : Update DomainError CeremonyInstance α} {i : CeremonyInstance}
    {f : α × CeremonyInstance → UseCaseM β}
    (hf : ∀ a i', Succeeds method i a i' → Heeds m laps definition id (f (a, i')) s) :
    Heeds m laps definition id (operate method i >>= f) s := by
  refine Heeds.bind ⟨trivial⟩ fun x v hoperate => ?_
  obtain ⟨a, i'⟩ := x
  obtain ⟨hsucceeds, rfl⟩ := perform_operate hoperate
  exact hf a i' hsucceeds

theorem heeds_now {f : OffsetDateTime → UseCaseM β}
    (hf : Heeds m laps definition id (f (m.clock s)) (s.tell (m.clock s))) :
    Heeds m laps definition id (ask .now >>= f) s := by
  refine Heeds.bind ⟨trivial, trivial⟩ fun now v hnow => ?_
  obtain ⟨htime, rfl⟩ := Prod.mk.inj hnow
  obtain rfl := Except.ok.inj htime
  exact hf

theorem heeds_lap {f : Unit → UseCaseM β} (hf : Heeds m True definition id (f ()) s) :
    Heeds m True definition id (ask .lap >>= f) s := ⟨trivial, hf.minds⟩

theorem heeds_load_any (id : CeremonyId) : Heeds m laps definition id (load id) s := by
  refine Heeds.bind ⟨rfl, trivial⟩ fun stored v _ => ?_
  exact Heeds.bind (p := ExceptT.mk (Prog.call (I := calls Deed) (.get id))) ⟨rfl, trivial⟩
    fun _ _ _ => heeds_pure _

theorem heeds_load {f : LoadedSession → UseCaseM β} (h : Current definition id loaded s)
    (hf : Heeds m laps definition id (f loaded) s) :
    Heeds m laps definition id (load id >>= f) s := by
  refine (heeds_load_any id).bind fun found v hload => ?_
  rw [perform_load h] at hload
  obtain ⟨hfound, rfl⟩ := Prod.mk.inj hload
  obtain rfl := Except.ok.inj hfound
  exact hf

theorem heeds_resolve {f : CeremonyDefinition → UseCaseM β} (h : Current definition id loaded s)
    (hf : Heeds m laps definition id (f definition) s) :
    Heeds m laps definition id (resolveCeremonyDefinition loaded.session >>= f) s := by
  have hfound := List.find?_some (okOr_eq_ok.mp h.resolves)
  simp only [Bool.and_eq_true, decide_eq_true_eq] at hfound
  have hasks : Heeds m laps definition id (resolveCeremonyDefinition loaded.session) s := by
    rw [resolveCeremonyDefinition, h.unbound]
    exact ⟨⟨hfound.1.symm, hfound.2.symm⟩, trivial⟩
  refine hasks.bind fun resolved v hresolve => ?_
  rw [perform_resolve h] at hresolve
  obtain ⟨hresolved, rfl⟩ := Prod.mk.inj hresolve
  obtain rfl := Except.ok.inj hresolved
  exact hf

theorem heeds_transcript {f : CeremonyTranscript → UseCaseM β}
    (hf : Heeds m laps definition id (f (s.transcripts id)) s) :
    Heeds m laps definition id (perhaps (.transcript id) rfl >>= f) s := ⟨rfl, hf.minds⟩

theorem heeds_contribute (contribution : CeremonyStepContribution) :
    Heeds m laps definition id (perhaps (.contribute id contribution) rfl) s := ⟨rfl, trivial⟩

theorem heeds_commit {session base : CeremonyInstance} {expected : ExpectedRevision}
    {facts : List AuditFact} {note : Deed} (h : session.id = id) :
    Heeds m laps definition id (commit ⟨session, expected⟩ facts base note) s := ⟨h, trivial⟩

theorem heeds_executeHandler {request : CeremonyStepHandlerRequest} {f : StepResult → UseCaseM β}
    (hf : ∀ result, Heeds m laps definition id (f result) s) :
    Heeds m laps definition id (executeHandler request >>= f) s := by
  have hasks : Heeds m laps definition id (executeHandler request) s := by
    refine Heeds.bind ⟨trivial, trivial⟩ fun outcome v _ => ?_
    cases outcome with
    | ok result => exact heeds_pure result
    | error e => exact ⟨trivial⟩
  refine hasks.bind fun result v hexecute => ?_
  have hsame := perform_executeHandler (m := m) (s := s) request
  rw [hexecute] at hsame
  subst hsame
  exact hf result

theorem ident_id {i i' : CeremonyInstance} (h : ident i' = ident i) : i'.id = i.id := by
  simp only [ident, Prod.mk.injEq] at h
  exact h.1

theorem heeds_stays {session base : CeremonyInstance} {facts : List AuditFact} {note : Deed}
    {f : LoadedSession → UseCaseM β} (h : Current definition id loaded s)
    (hstays : Stays loaded.session session)
    (hf : ∀ l v, Current definition id l v → Heeds m laps definition id (f l) v) :
    Heeds m laps definition id (commit ⟨session, loaded.expected⟩ facts base note >>= f) s := by
  refine (heeds_commit ((ident_id hstays.ident).trans h.own)).bind fun l v hcommit => ?_
  exact hf l v (current_stays h hstays hcommit).1

variable {stepId : StepId} {attempt : StepAttempt} {key : IdempotencyKey} {result : StepResult}
  {roleId : RoleId} {roleKind : AuditActorKind}

theorem heeds_finishStep {f : LoadedSession → UseCaseM β} (h : Current definition id loaded s)
    (hf : ∀ l v, Current definition id l v → Heeds m laps definition id (f l) v) :
    Heeds m laps definition id
      (finishStep definition id stepId attempt key result roleId roleKind >>= f) s := by
  have hasks : Heeds m laps definition id
      (finishStep definition id stepId attempt key result roleId roleKind) s := by
    rw [finishStep]
    apply heeds_load h
    apply heeds_now
    refine heeds_operate fun _ session hsucceeds => ?_
    dsimp only
    refine heeds_checked fun finished _ => ?_
    exact heeds_commit ((ident_id (stays_applyStepResult hsucceeds).ident).trans h.own)
  exact hasks.bind fun l v hfinish => hf l v (current_finishStep h hfinish).1

variable {leaseOwnerId : LeaseOwnerId} {leaseTtl : DurationMs}

theorem heeds_runStep {traceIndex : Nat} {transcript : CeremonyTranscript}
    (h : Current definition id loaded s) :
    Heeds m laps definition id (runStep definition leaseOwnerId leaseTtl roleKind loaded roleId stepId
      traceIndex transcript) s := by
  rw [runStep]
  refine heeds_checked fun step _ => ?_
  apply heeds_now
  refine heeds_checked fun key _ => heeds_checked fun lease _ => ?_
  refine heeds_operate fun attempt session hsucceeds => ?_
  dsimp only
  refine heeds_checked fun claim _ => ?_
  refine heeds_stays (h.tell _) (stays_startStepAs hsucceeds) fun claimed v hclaimed => ?_
  refine heeds_executeHandler fun result => ?_
  rw [hclaimed.own]
  exact heeds_finishStep hclaimed fun finished v _ => heeds_pure _

theorem heeds_runCeremonyStep (h : Current definition id loaded s) : Heeds m laps definition id
    (runCeremonyStep id roleId roleKind stepId leaseOwnerId key leaseTtl) s := by
  rw [runCeremonyStep]
  apply heeds_load h
  apply heeds_resolve h
  refine heeds_checked fun step _ => ?_
  apply heeds_now
  refine heeds_checked fun lease _ => ?_
  refine heeds_operate fun attempt session hsucceeds => ?_
  dsimp only
  refine heeds_checked fun claim _ => ?_
  refine heeds_stays (h.tell _) (stays_startStepAs hsucceeds) fun claimed v hclaimed => ?_
  rw [hclaimed.own]
  apply heeds_transcript
  refine heeds_executeHandler fun result => ?_
  refine heeds_finishStep hclaimed fun refreshed v hcurrent => ?_
  split_ifs
  · rw [hcurrent.own]
    exact (heeds_contribute _).bind fun _ _ _ => heeds_pure _
  · exact heeds_pure _

theorem heeds_runSteps {stateId : StateId} {steps : List StepId}
    {traces : List CeremonyStepTrace} (h : Current definition id loaded s) :
    Heeds m True definition id (runSteps definition leaseOwnerId leaseTtl roleKind id stateId steps
      loaded traces) s := by
  induction steps generalizing loaded s traces with
  | nil => exact heeds_pure _
  | cons stepId rest ih =>
    rw [runSteps]
    split_ifs with hdone
    · exact ih h
    · refine heeds_checked fun roleId _ => ?_
      apply heeds_transcript
      apply heeds_lap
      refine (heeds_runStep h).bind fun x v hrun => ?_
      obtain ⟨stepped, attempt, result⟩ := x
      have hstepped := (current_runStep h hrun).1
      apply heeds_lap
      dsimp only
      split_ifs with hsuccess
      · refine (heeds_contribute _).bind fun _ v' hsaid => ?_
        obtain ⟨-, rfl⟩ := Prod.mk.inj hsaid
        refine heeds_checked fun _ _ => ih ?_
        exact ⟨hstepped.session, hstepped.expected, hstepped.own, hstepped.unbound,
          hstepped.resolves, hstepped.quiet⟩
      · exact heeds_checked fun _ _ => ih hstepped

theorem current_runCeremonyStep {step : CeremonyStep} {session : CeremonyInstance}
    {traceIndex : Nat} (h : Current definition id loaded s)
    (hstep : definition.step stepId = some step)
    (hkey : Text.new (id.asStr ++ ":" ++ stepId.asStr ++ ":" ++ (traceIndex + 1).repr) = .ok key)
    (hcall : perform m (runCeremonyStep id roleId roleKind stepId leaseOwnerId key leaseTtl) s =
      (.ok (session, attempt, result), s')) :
    ∃ l, l.session = session ∧ Current definition id l s' := by
  rw [perform_runCeremonyStep h hstep hkey] at hcall
  obtain ⟨⟨l, granted, outcome⟩, v, hdrive, hdone⟩ := perform_bind_eq_ok.mp hcall
  obtain ⟨hresult, rfl⟩ := Prod.mk.inj hdone
  obtain ⟨rfl, -⟩ := Prod.mk.inj (Except.ok.inj hresult)
  exact ⟨l, rfl, (current_driveStep h hdrive).1⟩

theorem heeds_callSteps {steps : List StepId} {called : Nat}
    (hsteps : ∀ stepId ∈ steps, ∃ step, definition.step stepId = some step)
    (h : Current definition id loaded s) : Heeds m laps definition id
      (callSteps definition leaseOwnerId leaseTtl roleKind id steps loaded.session called) s := by
  induction steps generalizing loaded s called with
  | nil => exact heeds_pure _
  | cons stepId rest ih =>
    have hrest : ∀ other ∈ rest, ∃ step, definition.step other = some step :=
      fun other hother => hsteps other (List.mem_cons_of_mem _ hother)
    obtain ⟨step, hstep⟩ := hsteps stepId List.mem_cons_self
    rw [callSteps]
    split_ifs with hdone
    · exact ih hrest h
    · refine heeds_checked fun roleId _ => heeds_checked fun key hkey => ?_
      refine (heeds_runCeremonyStep h).bind fun x v hcall => ?_
      obtain ⟨session, attempt, result⟩ := x
      obtain ⟨l, rfl, hcurrent⟩ := current_runCeremonyStep h hstep hkey hcall
      exact heeds_checked fun _ _ => ih hrest hcurrent

theorem heeds_moveAlong {stateId : StateId} (h : Current definition id loaded s) :
    Heeds m laps definition id (moveAlong definition roleKind stateId loaded) s := by
  rw [moveAlong]
  refine heeds_checked fun transition _ => heeds_checked fun roleId _ => ?_
  apply heeds_now
  refine heeds_operate fun state session hsucceeds => ?_
  refine heeds_checked fun moved _ => heeds_commit ?_
  exact (ident_id (applyTransitionAs_effect hsucceeds).1.ident).trans h.own

theorem heeds_callTransition {stateId : StateId} (h : Current definition id loaded s) :
    Heeds m laps definition id
      (callTransition definition roleKind id stateId loaded.session) s := by
  rw [callTransition]
  refine heeds_checked fun transition _ => heeds_checked fun roleId _ => ?_
  rw [applyCeremonyTransition]
  apply heeds_load h
  apply heeds_resolve h
  apply heeds_now
  refine heeds_operate fun state session hsucceeds => ?_
  refine heeds_checked fun facts _ => ?_
  have hown := (ident_id (applyTransitionAs_effect hsucceeds).1.ident).trans h.own
  exact (heeds_commit hown).bind fun _ _ _ => heeds_pure _

theorem heeds_drive (n : Nat) (traces : List CeremonyStepTrace)
    (h : Current definition id loaded s) : Heeds m True definition id
      (drive definition leaseOwnerId leaseTtl roleKind id n loaded traces) s := by
  induction n generalizing loaded s traces with
  | zero => exact ⟨trivial⟩
  | succ n ih =>
    rw [drive]
    split_ifs with hcompleted
    · exact heeds_lap (heeds_pure _)
    · refine (heeds_runSteps h).bind fun x v hsteps => ?_
      obtain ⟨stepped, traces'⟩ := x
      have hstepped := (current_runSteps h hsteps).1
      dsimp only
      split_ifs
      · exact heeds_lap (heeds_pure _)
      · refine (heeds_moveAlong hstepped).bind fun moved v' hmove => ?_
        exact ih traces' (current_moveAlong hstepped hmove).1

theorem heeds_callTurns (n : Nat) (traces : List CeremonyStepTrace)
    (h : Current definition id loaded s) : Heeds m laps definition id
      (callTurns definition leaseOwnerId leaseTtl roleKind id n loaded.session traces.length) s := by
  induction n generalizing loaded s traces with
  | zero => exact ⟨trivial⟩
  | succ n ih =>
    rw [callTurns]
    split_ifs with hcompleted
    · exact heeds_pure _
    · have hturn : Heeds m laps definition id (callTurn definition leaseOwnerId leaseTtl roleKind id
          loaded.session traces.length) s := by
        rw [callTurn]
        refine (heeds_callSteps step_of_stepsForState h).bind fun x v hcalls => ?_
        obtain ⟨_, called⟩ := x
        obtain ⟨stepped, traces', rfl, -, hsteps⟩ := callSteps_ok h hcalls
        refine (heeds_callTransition (current_runSteps h hsteps).1).bind fun moved v _ => ?_
        exact heeds_pure _
      refine hturn.bind fun x v hcalls => ?_
      obtain ⟨_, _⟩ := x
      obtain ⟨stepped, traces', v', l, rfl, rfl, -, hcurrent, hmove⟩ := callTurn_ok h hcalls
      exact ih traces' (current_moveAlong hcurrent hmove).1

variable {context : CeremonyContext} {actorId : String}

theorem heeds_openSession {now : OffsetDateTime} {facts : List AuditFact} {note : Deed} :
    Heeds m laps definition id
      (openSession (CeremonyInstance.start id definition context now) facts note) s := ⟨rfl, trivial⟩

theorem heeds_runCeremony
    (hfresh : s.world.store.get id = .error (.notFound "ceremony_instance")) :
    Heeds m True definition id
      (runCeremony definition leaseOwnerId leaseTtl roleKind id context actorId) s := by
  have hprobe : Heeds m True definition id (ExceptT.lift (load id).run) s :=
    ⟨minds_bind.mpr ⟨(heeds_load_any id).minds, trivial⟩⟩
  rw [runCeremony]
  refine hprobe.bind fun found v hfound => ?_
  rw [perform_probe hfresh] at hfound
  obtain ⟨hmissing, rfl⟩ := Prod.mk.inj hfound
  obtain rfl := Except.ok.inj hmissing
  dsimp only
  refine Heeds.bind ⟨rfl, trivial⟩ fun _ v hmounted => ?_
  obtain ⟨-, rfl⟩ := Prod.mk.inj hmounted
  apply heeds_now
  refine heeds_checked fun started _ => ?_
  refine heeds_openSession.bind fun loaded v hopened => ?_
  exact heeds_drive _ [] (current_open hopened definition_mounted).2

theorem heeds_callAll : Heeds m laps definition id
    (callAll definition leaseOwnerId leaseTtl roleKind id context actorId) s := by
  have hstart : Heeds m laps definition id
      (callStart definition roleKind id context actorId) s := by
    rw [callStart]
    refine Heeds.bind ⟨rfl, trivial⟩ fun _ v hmounted => ?_
    obtain ⟨-, rfl⟩ := Prod.mk.inj hmounted
    rw [startCeremony]
    refine Heeds.bind (p := perhaps (.definition definition.name definition.version) rfl)
      ⟨⟨rfl, rfl⟩, trivial⟩ fun found v hfound => ?_
    have hfiled : perform m (perhaps (.definition definition.name definition.version) rfl)
        (mounted definition s) = (.ok definition, mounted definition s) :=
      congrArg (·, mounted definition s) definition_mounted
    obtain ⟨hdefinition, rfl⟩ := Prod.mk.inj (hfiled.symm.trans hfound)
    obtain rfl := Except.ok.inj hdefinition
    apply heeds_now
    refine heeds_checked fun started _ => ?_
    exact heeds_openSession.bind fun stored v _ => heeds_pure _
  rw [callAll]
  refine hstart.bind fun session v hstarted => ?_
  rw [perform_callStart] at hstarted
  obtain ⟨loaded, v', hopen, hdone⟩ := perform_bind_eq_ok.mp hstarted
  obtain ⟨hsession, rfl⟩ := Prod.mk.inj hdone
  obtain rfl := Except.ok.inj hsession
  exact heeds_callTurns _ [] (current_openFresh hopen).1

end Heeding

section Among

variable {m : Live} {definition : CeremonyDefinition} {id : CeremonyId} {w w' : Site} {α : Type}

theorem told_answer (m : Live) (c : Call Deed) (w : Site) :
    w.scene.told <+: (m.answer c w).2.scene.told := by
  cases c with
  | now => exact List.prefix_append _ _
  | _ => exact List.prefix_rfl

theorem exec_eq {c : Call Deed} {v v' : Site} {a : c.Answer} (h : m.exec c v a v') :
    a = (m.answer c v).1 ∧ v' = (m.answer c v).2 := by
  have hanswer : m.answer c v = (a, v') := h
  rw [hanswer]
  exact ⟨rfl, rfl⟩

/-- Among others the driver comes to what it comes to alone, if it puts down the same times
there. -/
theorem among_alone (times : Nat → OffsetDateTime) {p : UseCaseM α} {r : Except DomainError α}
    (hrun : Amid m.exec (Elsewhere definition id) p.run w r w')
    (hheeds : Heeds (m.alone times) True definition id p w.scene)
    (htimes : ∀ n t, w'.scene.told[w.scene.told.length + n]? = some t →
      times (w.scene.told.length + n) = t) :
    (perform (m.alone times) p w.scene).1 = r ∧
      Same definition id w' (perform (m.alone times) p w.scene).2 := by
  have halone := Amid.alone (fun v => v.scene.told <+: w'.scene.told)
    (fun v s => Same definition id v s ∧ w.scene.told.length ≤ v.scene.told.length)
    ?_ ?_ ?_ hrun List.prefix_rfl hheeds.minds ⟨⟨rfl, rfl, rfl, rfl⟩, le_refl _⟩
  · exact ⟨halone.1, halone.2.1⟩
  · intro c v a v' hcall hpast
    obtain ⟨-, rfl⟩ := exec_eq hcall
    exact (told_answer m c v).trans hpast
  · intro c v a v' s hown hsame hpast hcall
    obtain ⟨rfl, rfl⟩ := exec_eq hcall
    have hclock : c = .now → times s.told.length = m.clock v.reads := by
      rintro rfl
      obtain ⟨k, hk⟩ := Nat.exists_eq_add_of_le hsame.2
      rw [← hsame.1.told, hk]
      apply htimes
      rw [← hk]
      obtain ⟨later, hlater⟩ := hpast
      rw [← hlater]
      simp [Live.answer, Setting.answer, Scene.tell, Live.on]
    obtain ⟨hanswer, hnext⟩ := answer_same times hown hclock hsame.1
    exact ⟨hanswer, hnext, hsame.2.trans (told_answer m c v).length_le⟩
  · intro v v' hmove
    refine ⟨fun hpast => by rwa [← hmove.told], fun s hsame => ?_⟩
    exact ⟨hsame.1.elsewhere hmove, by rw [hmove.told]; exact hsame.2⟩

theorem reads_answer {c : Call Deed} (hown : Own False definition id c) (v : Site) :
    (m.answer c v).2.reads + v.scene.told.length =
      (m.answer c v).2.scene.told.length + v.reads := by
  cases c with
  | now =>
    simp [Live.answer, Setting.answer, Scene.tell, readings]
    omega
  | lap => exact hown.elim
  | _ => exact Nat.add_comm _ _

theorem among_alone_unmeasured (times : Nat → OffsetDateTime) {p : UseCaseM α}
    {r : Except DomainError α}
    (hrun : Amid m.exec (Elsewhere definition id) p.run w r w')
    (hheeds : Heeds (m.alone times) False definition id p w.scene)
    (htimes : ∀ n, times (w.scene.told.length + n) = m.clock (w.reads + n)) :
    (perform (m.alone times) p w.scene).1 = r ∧
      Same definition id w' (perform (m.alone times) p w.scene).2 := by
  have halone := Amid.alone (fun _ => True)
    (fun v s => Same definition id v s ∧ w.scene.told.length ≤ v.scene.told.length ∧
      v.reads + w.scene.told.length = v.scene.told.length + w.reads)
    (fun _ _ _ _ _ _ => trivial) ?_ ?_ hrun trivial hheeds.minds
    ⟨⟨rfl, rfl, rfl, rfl⟩, le_refl _, Nat.add_comm _ _⟩
  · exact ⟨halone.1, halone.2.1⟩
  · rintro c v a v' s hown ⟨hsame, hle, hreads⟩ - hcall
    obtain ⟨rfl, rfl⟩ := exec_eq hcall
    have hclock : c = .now → times s.told.length = m.clock v.reads := by
      rintro rfl
      obtain ⟨k, hk⟩ := Nat.exists_eq_add_of_le hle
      rw [← hsame.told, hk, htimes]
      congr 1
      omega
    obtain ⟨hanswer, hnext⟩ := answer_same times hown hclock hsame
    have hcount := reads_answer (m := m) hown v
    have hgrows := (told_answer m c v).length_le
    exact ⟨hanswer, hnext, by omega, by omega⟩
  · intro v v' hmove
    refine ⟨fun _ => trivial, fun s ⟨hsame, hle, hreads⟩ => ?_⟩
    refine ⟨hsame.elsewhere hmove, ?_, ?_⟩
    · rw [hmove.told]
      exact hle
    · rw [hmove.told, hmove.reads]
      exact hreads

end Among

/-- Among clients of other sessions, who do not refile its definition, the driver comes to the
same session or the same error as a client that calls the verbs in its place and is told, one
after the other, the times the driver puts down; and what is stored of the session, journal and
all, and what was said in it are the same. -/
theorem driver_equals_verbs (m : Live) (clock : Nat → OffsetDateTime)
    (definition : CeremonyDefinition) (leaseOwnerId : LeaseOwnerId) (leaseTtl : DurationMs)
    (actorKind : AuditActorKind) (id : CeremonyId) (context : CeremonyContext) (actorId : String)
    (w w₁ w₂ : Site) (r : Except DomainError RunCeremonyOutput)
    (r' : Except DomainError CeremonyInstance)
    (hfresh : w.scene.world.store.get id = .error (.notFound "ceremony_instance"))
    (hdriver : Amid m.exec (Elsewhere definition id)
      (runCeremony definition leaseOwnerId leaseTtl actorKind id context actorId).run w r w₁)
    (htold : ∀ n t, w₁.scene.told[w.scene.told.length + n]? = some t → clock (w.reads + n) = t)
    (hverbs : Amid { m with clock }.exec (Elsewhere definition id)
      (callAll definition leaseOwnerId leaseTtl actorKind id context actorId).run w r' w₂) :
    r' = r.map RunCeremonyOutput.session ∧
      w₂.scene.world.store.stored id = w₁.scene.world.store.stored id ∧
      w₂.scene.transcripts id = w₁.scene.transcripts id := by
  let times (n : Nat) : OffsetDateTime := clock (w.reads + (n - w.scene.told.length))
  have htimes (n : Nat) : times (w.scene.told.length + n) = clock (w.reads + n) := by
    simp [times]
  obtain ⟨hr, hsame⟩ := among_alone times hdriver (heeds_runCeremony hfresh)
    fun n t ht => (htimes n).trans (htold n t ht)
  obtain ⟨hr', hsame'⟩ := among_alone_unmeasured times hverbs heeds_callAll htimes
  obtain ⟨hresult, hworld, hsaid⟩ := (alike_callAll (m.alone times) definition leaseOwnerId leaseTtl
    actorKind id context actorId w.scene hfresh).result
  rw [perform_map] at hresult hworld hsaid
  refine ⟨?_, ?_, ?_⟩
  · rw [← hr, ← hr']
    exact hresult
  · rw [hsame.stored, hsame'.stored]
    exact congrArg (fun world => world.store.stored id) hworld
  · rw [hsame.said, hsame'.said]
    exact congrFun hsaid id

section Reviewed

open Choreographer.Fencing

/-- Whatever the client of a session does for itself or has the driver do, the session comes to
be the same. -/
def Agree (m : Live) (others : CeremonyId → Site → Site → Prop) : Prop :=
  ∀ (definition : CeremonyDefinition) (leaseOwnerId : LeaseOwnerId) (leaseTtl : DurationMs)
    (actorKind : AuditActorKind) (id : CeremonyId) (context : CeremonyContext) (actorId : String)
    (w w₁ w₂ : Site) (r : Except DomainError RunCeremonyOutput)
    (r' : Except DomainError CeremonyInstance),
    w.scene.world.store.get id = .error (.notFound "ceremony_instance") →
    Amid m.exec (others id)
      (runCeremony definition leaseOwnerId leaseTtl actorKind id context actorId).run w r w₁ →
    Amid m.exec (others id)
      (callAll definition leaseOwnerId leaseTtl actorKind id context actorId).run w r' w₂ →
    (w₂.scene.world.store.stored id).session = (w₁.scene.world.store.stored id).session

def opened : Site := ⟨blank, 0⟩

def agreeing (clock : Nat → OffsetDateTime) : Live where
  env := TamperEvidence.table
  clock := clock
  handler _ := .ok agreed
  source _ := .error (.notFound "evidence_source")

/-- A second passes before the clock is read for the fifth time. -/
def ticking : Live := agreeing fun n => if n < 4 then epoch else second

def still : Live := agreeing fun _ => epoch

def driven (m : Live) : Except DomainError RunCeremonyOutput × Site :=
  (runCeremony reviewing clerk millisecond .service sessionId CeremonyContext.empty
    "op").run.interpret m.answer opened

def called (m : Live) : Except DomainError CeremonyInstance × Site :=
  (callAll reviewing clerk millisecond .service sessionId CeremonyContext.empty
    "op").run.interpret m.answer opened

def completion (w : Site) : Option (Option OffsetDateTime) :=
  (w.scene.world.store.stored sessionId).session.map CeremonyInstance.completedAt

theorem driven_ticking : completion (driven ticking).2 = some (some second) ∧
    (driven ticking).2.scene.told = [epoch, epoch, epoch, second] := by
  decide +kernel

theorem called_ticking : completion (called ticking).2 = some (some epoch) := by
  decide +kernel

theorem driven_still : completion (driven still).2 = some (some epoch) := by
  decide +kernel

def refiled : CeremonyDefinition :=
  (CeremonyDefinition.new reviewing.name reviewing.version none [] []
    [⟨submitted, .initial⟩, ⟨done, .terminal⟩] [⟨submitted, done, finish, OrdMap.empty⟩] [] []
    [⟨reviewer, OrdSet.ofList [.transition finish], by decide⟩]).toOption.get rfl

theorem refiled_runs : ∃ r w, Amid still.exec (Apart sessionId) (callAll reviewing clerk millisecond
    .service sessionId CeremonyContext.empty "op").run opened r w ∧ completion w = some none := by
  refine ⟨_, _, .ask rfl (.drift (v := ⟨mounted refiled (mounted reviewing blank), 0⟩)
    ⟨rfl, rfl, rfl, rfl⟩ (amid_interpret _ _)), ?_⟩
  decide +kernel

/-- The driver's own metrics make time pass, and the verbs look the definition up again. -/
theorem driver_and_verbs_differ : (¬ ∀ m, Agree m fun _ _ _ => False) ∧
    ¬ ∀ m : Live, (∀ n, m.clock n = m.clock 0) → Agree m Apart := by
  have hfresh : opened.scene.world.store.get sessionId =
    .error (.notFound "ceremony_instance") := rfl
  refine ⟨fun h => ?_, fun h => ?_⟩
  · have hsame := h ticking reviewing clerk millisecond .service sessionId CeremonyContext.empty "op"
      opened (driven ticking).2 (called ticking).2 (driven ticking).1 (called ticking).1 hfresh
      (amid_interpret _ _) (amid_interpret _ _)
    have hmoment : completion (called ticking).2 = completion (driven ticking).2 :=
      congrArg (Option.map CeremonyInstance.completedAt) hsame
    rw [called_ticking, driven_ticking.1] at hmoment
    exact absurd hmoment (by decide)
  · obtain ⟨r, w, hcalled, hpending⟩ := refiled_runs
    have hsame := h still (fun _ => rfl) reviewing clerk millisecond .service sessionId
      CeremonyContext.empty "op" opened (driven still).2 w (driven still).1 r hfresh
      (amid_interpret _ _) hcalled
    have hmoment : completion w = completion (driven still).2 :=
      congrArg (Option.map CeremonyInstance.completedAt) hsame
    rw [hpending, driven_still] at hmoment
    exact absurd hmoment (by decide)

/-- A clock that tells the times which the driver puts down on the ticking one. -/
def replayed : Live := agreeing fun n => if n < 3 then epoch else second

theorem driver_equals_verbs_replayed :
    (driven ticking).2.scene.told = [epoch, epoch, epoch, second] ∧
      (called replayed).1 = (driven ticking).1.map RunCeremonyOutput.session ∧
      completion (called replayed).2 = some (some second) := by
  obtain ⟨hmoment, htold⟩ := driven_ticking
  have hclock : ∀ n t, (driven ticking).2.scene.told[opened.scene.told.length + n]? = some t →
      replayed.clock (opened.reads + n) = t := by
    intro n t ht
    rw [htold] at ht
    match n, ht with
    | 0, ht => exact Option.some.inj ht
    | 1, ht => exact Option.some.inj ht
    | 2, ht => exact Option.some.inj ht
    | 3, ht => exact Option.some.inj ht
    | n + 4, ht => simp [opened, blank] at ht
  obtain ⟨hresult, hstored, -⟩ := driver_equals_verbs ticking replayed.clock reviewing clerk
    millisecond .service sessionId CeremonyContext.empty "op" opened (driven ticking).2
    (called replayed).2 (driven ticking).1 (called replayed).1 rfl (amid_interpret _ _) hclock
    (amid_interpret _ _)
  refine ⟨htold, hresult, ?_⟩
  rw [← hmoment]
  exact congrArg (fun stored => stored.session.map CeremonyInstance.completedAt) hstored

end Reviewed

end Choreographer.DrivenSessions
