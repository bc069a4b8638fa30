import Choreographer.UseCases

namespace Choreographer.SoleRuns

open Choreographer.Lib.SortedMaps Choreographer.Lib.Updates Choreographer.Lib.Programs
open Choreographer.Texts Choreographer.Values Choreographer.Steps Choreographer.DefinitionParts
open Choreographer.Definition Choreographer.Agenda Choreographer.Instance Choreographer.Audit
open Choreographer.Operations Choreographer.InMemory Choreographer.SessionJournal
open Choreographer.SessionFacts Choreographer.SessionLog Choreographer.UseCases
open CeremonyInstance (CeremonyEvidenceRequest)

/-- What a client that is alone finds: what is stored, what was said in each session, and the
times it has been told to put down. -/
structure Scene where
  world : World Deed
  transcripts : CeremonyId → CeremonyTranscript
  told : List OffsetDateTime

/-- A handler and a source that have one answer, and a clock that goes by what has happened and
by the times it told, but not by what the metrics read off it. -/
structure Setting where
  env : Rendering
  clock : Scene → OffsetDateTime
  handler : Scene → CeremonyStepHandlerRequest → Except DomainError StepResult
  source : CeremonyEvidenceRequest → Except DomainError CeremonyEvidencePack

def Scene.tell (s : Scene) (now : OffsetDateTime) : Scene := { s with told := s.told ++ [now] }

def Scene.concluded (s : Scene) (env : Rendering) (base : Option CeremonyInstance) (note : Deed)
    (lost : DomainError) (loaded : LoadedSession) (facts : List AuditFact) : Scene :=
  { s with world := s.world.concluded env base note lost loaded facts }

def Setting.answer (m : Setting) : (c : Call Deed) → Scene → c.Answer × Scene
  | .revision id, s => (s.world.store.revision id, s)
  | .get id, s => (s.world.store.get id, s)
  | .commit loaded facts base note, s =>
    ((storing m.env lostCommit loaded facts s.world.store).1,
      s.concluded m.env (some base) note lostCommit loaded facts)
  | .openSession session facts note, s =>
    ((storing m.env lostOpening ⟨session, .new⟩ facts s.world.store).1,
      s.concluded m.env none note lostOpening ⟨session, .new⟩ facts)
  | .definition name version, s => (s.world.definition name version, s)
  | .saveDefinition definition, s =>
    ((), { s with world := { s.world with definitions := definition :: s.world.definitions } })
  | .published name version, s => (s.world.published name version, s)
  | .now, s => (m.clock s, s.tell (m.clock s))
  | .lap, s => ((), s)
  | .execute request, s => (m.handler s request, s)
  | .collect request, s => (m.source request, s)
  | .transcript id, s => (.ok (s.transcripts id), s)
  | .contribute id contribution, s =>
    (.ok (), { s with
      transcripts := Function.update s.transcripts id (s.transcripts id ++ [contribution]) })

/-- What the client comes to, and what it leaves. -/
def perform (m : Setting) {α : Type} (p : UseCaseM α) (s : Scene) : Except DomainError α × Scene :=
  p.run.interpret m.answer s

theorem returns_perform (m : Setting) {α : Type} (p : UseCaseM α) (s : Scene) :
    Returns (exec m.env) p.run s.world (perform m p s).1 (perform m p s).2.world := by
  apply returns_interpret (fun s : Scene => s.world)
  intro c s
  cases c with
  | revision | get | commit | openSession | definition | published => exact ⟨rfl, rfl⟩
  | saveDefinition | now | lap | execute | collect | transcript | contribute => exact rfl

section Performing

variable {m : Setting} {s s' : Scene} {α β : Type}

theorem perform_bind (p : UseCaseM α) (f : α → UseCaseM β) :
    perform m (p >>= f) s = proceed (fun a v => perform m (f a) v) (perform m p s) :=
  interpret_bindE p f s

theorem perform_bind_ok {p : UseCaseM α} {f : α → UseCaseM β} {a : α}
    (h : perform m p s = (.ok a, s')) : perform m (p >>= f) s = perform m (f a) s' := by
  rw [perform_bind, h, proceed]

theorem perform_bind_error {p : UseCaseM α} {f : α → UseCaseM β} {e : DomainError}
    (h : perform m p s = (.error e, s')) : perform m (p >>= f) s = (.error e, s') := by
  rw [perform_bind, h, proceed]

theorem perform_bind_eq_ok {p : UseCaseM α} {f : α → UseCaseM β} {b : β} :
    perform m (p >>= f) s = (.ok b, s') ↔
      ∃ a v, perform m p s = (.ok a, v) ∧ perform m (f a) v = (.ok b, s') := by
  rw [perform_bind]
  rcases perform m p s with ⟨e | a, v⟩
  · simp [proceed]
  · simp [proceed]

theorem perform_congr {p : UseCaseM α} {f g : α → UseCaseM β}
    (h : ∀ a v, perform m p s = (.ok a, v) → perform m (f a) v = perform m (g a) v) :
    perform m (p >>= f) s = perform m (p >>= g) s := by
  rw [perform_bind, perform_bind]
  rcases hp : perform m p s with ⟨e | a, v⟩
  · rfl
  · exact h a v hp

theorem perform_assoc {γ : Type} (p : UseCaseM α) (f : α → UseCaseM β) (g : β → UseCaseM γ) :
    perform m ((p >>= f) >>= g) s = perform m (p >>= fun a => f a >>= g) s := by
  rw [perform_bind, perform_bind, perform_bind]
  rcases perform m p s with ⟨e | a, v⟩
  · rfl
  · exact (perform_bind (f a) g).symm

@[simp] theorem perform_pure (a : α) : perform m (pure a) s = (.ok a, s) := rfl

theorem perform_map (p : UseCaseM α) (f : α → β) :
    perform m (p >>= fun a => pure (f a)) s = ((perform m p s).1.map f, (perform m p s).2) := by
  rw [perform_bind]
  rcases perform m p s with ⟨e | a, v⟩
  · rfl
  · rfl

@[simp] theorem perform_throw (e : DomainError) :
    perform m (throw e : UseCaseM α) s = (.error e, s) := rfl

@[simp] theorem perform_checked (x : Except DomainError α) : perform m (checked x) s = (x, s) := rfl

theorem perform_checked_eq_ok {x : Except DomainError α} {a : α}
    (h : perform m (checked x) s = (.ok a, s')) : x = .ok a ∧ s' = s := by
  rw [perform_checked] at h
  obtain ⟨hx, hs⟩ := Prod.mk.inj h
  exact ⟨hx, hs.symm⟩

theorem perform_ask (c : Call Deed) :
    perform m (ask c) s = (.ok (m.answer c s).1, (m.answer c s).2) := rfl

@[simp] theorem perform_now :
    perform m (ask .now) s = (.ok (m.clock s), s.tell (m.clock s)) := rfl

@[simp] theorem perform_lap : perform m (ask .lap) s = (.ok (), s) := rfl

@[simp] theorem perform_execute (request : CeremonyStepHandlerRequest) :
    perform m (ask (.execute request)) s = (.ok (m.handler s request), s) := rfl

@[simp] theorem perform_transcript (id : CeremonyId) :
    perform m (perhaps (.transcript id) rfl) s = (.ok (s.transcripts id), s) := rfl

theorem perform_operate {method : Update DomainError CeremonyInstance α} {i i' : CeremonyInstance}
    {a : α} (h : perform m (operate method i) s = (.ok (a, i'), s')) :
    Succeeds method i a i' ∧ s' = s := by
  unfold operate at h
  rw [perform_checked] at h
  rcases hmethod : method.on i with ⟨e | b, j⟩
  · simp [hmethod] at h
  · simp only [hmethod, Except.ok.injEq, Prod.mk.injEq] at h
    obtain ⟨⟨rfl, rfl⟩, rfl⟩ := h
    exact ⟨hmethod, rfl⟩

theorem perform_executeHandler (request : CeremonyStepHandlerRequest) :
    (perform m (executeHandler request) s).2 = s := by
  rw [executeHandler, perform_bind_ok (perform_execute request)]
  cases m.handler s request with
  | ok result => rfl
  | error e => rfl

/-- Two runs that come to the same. Of two that fail, one may have looked at the clock once
more. -/
def Alike (x y : Except DomainError α × Scene) : Prop :=
  x = y ∨ ∃ e, x.1 = .error e ∧ y.1 = .error e ∧ x.2.world = y.2.world ∧
    x.2.transcripts = y.2.transcripts

theorem Alike.of_ok {x y : Except DomainError α × Scene} {a : α} (h : Alike x y)
    (hx : x = (.ok a, s')) : y = (.ok a, s') := by
  obtain rfl | ⟨e, he, -⟩ := h
  · exact hx
  · rw [hx] at he
    cases he

theorem Alike.trans {x y z : Except DomainError α × Scene} (h : Alike x y) (h' : Alike y z) :
    Alike x z := by
  obtain rfl | ⟨e, hx, hy, hworld, htranscripts⟩ := h
  · exact h'
  · obtain rfl | ⟨e', hy', hz, hworld', htranscripts'⟩ := h'
    · exact .inr ⟨e, hx, hy, hworld, htranscripts⟩
    · obtain rfl := Except.error.inj (hy.symm.trans hy')
      exact .inr ⟨e, hx, hz, hworld.trans hworld', htranscripts.trans htranscripts'⟩

theorem Alike.result {x y : Except DomainError α × Scene} (h : Alike x y) :
    x.1 = y.1 ∧ x.2.world = y.2.world ∧ x.2.transcripts = y.2.transcripts := by
  obtain rfl | ⟨e, hx, hy, hsame⟩ := h
  · exact ⟨rfl, rfl, rfl⟩
  · exact ⟨hx.trans hy.symm, hsame⟩

theorem Alike.bind {p q : UseCaseM α} {f g : α → UseCaseM β} {t : Scene}
    (h : Alike (perform m p s) (perform m q t))
    (hrest : ∀ a v, perform m p s = (.ok a, v) → Alike (perform m (f a) v) (perform m (g a) v)) :
    Alike (perform m (p >>= f) s) (perform m (q >>= g) t) := by
  rw [perform_bind, perform_bind]
  obtain heq | ⟨e, hp, hq, hsame⟩ := h
  · rw [← heq]
    rcases hp : perform m p s with ⟨e | a, v⟩
    · exact .inl rfl
    · exact hrest a v hp
  · have hfirst : perform m p s = (.error e, (perform m p s).2) := by rw [← hp]
    have hsecond : perform m q t = (.error e, (perform m q t).2) := by rw [← hq]
    rw [hfirst, hsecond]
    exact .inr ⟨e, rfl, rfl, hsame⟩

theorem alike_congr {p : UseCaseM α} {f g : α → UseCaseM β}
    (h : ∀ a v, perform m p s = (.ok a, v) → Alike (perform m (f a) v) (perform m (g a) v)) :
    Alike (perform m (p >>= f) s) (perform m (p >>= g) s) := Alike.bind (.inl rfl) h

end Performing

/-- The session in hand is the one that is stored, it runs this definition, and nobody has
spoken up in it. -/
structure Current (definition : CeremonyDefinition) (id : CeremonyId) (loaded : LoadedSession)
    (s : Scene) : Prop where
  session : (s.world.store.stored id).session = some loaded.session
  expected : loaded.expected = (s.world.store.revision id).elim .new .exactly
  own : loaded.session.id = id
  unbound : loaded.session.boundDefinition = none
  resolves : s.world.definition loaded.session.definitionName loaded.session.definitionVersion =
    .ok definition
  quiet : loaded.session.interventions = []

theorem Current.tell {definition : CeremonyDefinition} {id : CeremonyId} {loaded : LoadedSession}
    {s : Scene} (h : Current definition id loaded s) (now : OffsetDateTime) :
    Current definition id loaded (s.tell now) :=
  ⟨h.session, h.expected, h.own, h.unbound, h.resolves, h.quiet⟩

section Stored

variable {m : Setting} {s s' : Scene} {definition : CeremonyDefinition} {id : CeremonyId}
  {loaded l : LoadedSession} {session base : CeremonyInstance} {facts : List AuditFact} {note : Deed}

theorem perform_load_eq : perform m (load id) s = ((s.world.store.get id).map fun session =>
    ⟨session, (s.world.store.revision id).elim .new .exactly⟩, s) := by
  unfold load
  rw [perform_bind_ok (perform_ask _), perform_bind]
  have hcall : perform m (ExceptT.mk (Prog.call (I := calls Deed) (.get id))) s =
      (s.world.store.get id, s) := rfl
  simp only [Setting.answer, hcall]
  cases s.world.store.get id with
  | error e => rfl
  | ok session => rfl

theorem perform_load (h : Current definition id loaded s) :
    perform m (load id) s = (.ok loaded, s) := by
  have hget : s.world.store.get id = .ok loaded.session := by
    rw [InMemoryCeremonyStore.get, h.session]
    rfl
  rw [perform_load_eq, hget, ← h.expected]
  rfl

theorem perform_resolve (h : Current definition id loaded s) :
    perform m (resolveCeremonyDefinition loaded.session) s = (.ok definition, s) := by
  have hask : perform m (perhaps (.definition loaded.session.definitionName
      loaded.session.definitionVersion) rfl) s =
        (s.world.definition loaded.session.definitionName loaded.session.definitionVersion, s) := rfl
  rw [resolveCeremonyDefinition, h.unbound, hask, h.resolves]

theorem current_commit (h : Current definition id loaded s)
    (hident : ident session = ident loaded.session) (hquiet : session.interventions = [])
    (hcommit : perform m (commit ⟨session, loaded.expected⟩ facts base note) s = (.ok l, s')) :
    l.session = session ∧ Current definition id l s' ∧ s'.transcripts = s.transcripts := by
  obtain ⟨hanswer, rfl⟩ := Prod.mk.inj hcommit
  obtain ⟨hid, hname, hversion, hbound⟩ : session.id = loaded.session.id ∧
      session.definitionName = loaded.session.definitionName ∧
      session.definitionVersion = loaded.session.definitionVersion ∧
      session.boundDefinition = loaded.session.boundDefinition := by
    simpa [ident] using hident
  obtain ⟨hconcluded, -⟩ := @storing_concluded m.env lostCommit ⟨session, loaded.expected⟩ facts
    s.world.store
  rw [show (storing m.env lostCommit ⟨session, loaded.expected⟩ facts s.world.store).1 = .ok l
    from hanswer] at hconcluded
  obtain ⟨-, hl, sealed, -, hstored⟩ := hconcluded.of_ok
  obtain rfl := hl
  refine ⟨rfl, ?_, rfl⟩
  rw [hid, h.own] at hstored
  have hstore : (m.answer (.commit ⟨session, loaded.expected⟩ facts base note) s).2.world.store =
      (storing m.env lostCommit ⟨session, loaded.expected⟩ facts s.world.store).2 := rfl
  constructor
  · exact (congrArg StoredCeremony.session hstored)
  · exact (congrArg (fun stored => stored.revision.elim ExpectedRevision.new .exactly) hstored).symm
  · exact hid.trans h.own
  · exact hbound.trans h.unbound
  · dsimp only
    rw [hname, hversion]
    exact h.resolves
  · exact hquiet

theorem current_open {context : CeremonyContext} {now : OffsetDateTime}
    (hopen : perform m (openSession (CeremonyInstance.start id definition context now) facts note) s =
      (.ok l, s'))
    (hdefinition : s.world.definition definition.name definition.version = .ok definition) :
    l.session = CeremonyInstance.start id definition context now ∧ Current definition id l s' := by
  obtain ⟨hanswer, rfl⟩ := Prod.mk.inj hopen
  obtain ⟨hconcluded, -⟩ := @storing_concluded m.env lostOpening
    ⟨CeremonyInstance.start id definition context now, .new⟩ facts s.world.store
  rw [show (storing m.env lostOpening ⟨CeremonyInstance.start id definition context now, .new⟩ facts
    s.world.store).1 = .ok l from hanswer] at hconcluded
  obtain ⟨-, rfl, sealed, -, hstored⟩ := hconcluded.of_ok
  refine ⟨rfl, ?_⟩
  constructor
  · exact congrArg StoredCeremony.session hstored
  · exact (congrArg (fun stored => stored.revision.elim ExpectedRevision.new .exactly) hstored).symm
  · rfl
  · rfl
  · exact hdefinition
  · rfl

theorem perform_load_missing (h : s.world.store.get id = .error (.notFound "ceremony_instance")) :
    perform m (load id) s = (.error (.notFound "ceremony_instance"), s) := by
  rw [perform_load_eq, h]
  rfl

end Stored

end Choreographer.SoleRuns
