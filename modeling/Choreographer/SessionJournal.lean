import Choreographer.InMemory
import Choreographer.Lib.Programs
import Choreographer.Operations

namespace Choreographer.SessionJournal

open Choreographer.Lib.SortedMaps Choreographer.Lib.Updates Choreographer.Lib.Programs
open Choreographer.Texts Choreographer.Values Choreographer.Steps Choreographer.Agenda
open Choreographer.Definition Choreographer.Instance Choreographer.Audit Choreographer.InMemory
open CeremonyInstance (CeremonyEvidenceRequest)

/-- A session as it was read, and what the store believed at the time. -/
structure LoadedSession where
  session : CeremonyInstance
  expected : ExpectedRevision

/-- Store a session with its facts, all of it or nothing. Committing and opening
differ in what a caller who lost the race is told. -/
def storing (env : Rendering) (lost : DomainError) (loaded : LoadedSession)
    (facts : List AuditFact) (store : InMemoryCeremonyStore) :
    Except DomainError LoadedSession × InMemoryCeremonyStore :=
  match CeremonyCommit.new loaded.session loaded.expected facts [] with
  | .error e => (.error e, store)
  | .ok commit =>
    match store.commit env commit with
    | (.error e, store) => (.error e, store)
    | (.ok (.committed revision _), store) => (.ok ⟨loaded.session, .exactly revision⟩, store)
    | (.ok (.conflict _ _), store) => (.error lost, store)

structure CeremonyStepContribution where
  stepId : StepId
  roleId : RoleId
  output : StepOutput

abbrev CeremonyTranscript := List CeremonyStepContribution

structure CeremonyStepHandlerRequest where
  instanceId : CeremonyId
  definitionName : CeremonyName
  definitionVersion : CeremonyVersion
  currentState : StateId
  stepId : StepId
  handlerKind : StepHandlerKind
  handlerConfig : Attributes
  context : CeremonyContext
  attempt : StepAttempt
  transcript : CeremonyTranscript
  interventions : List CeremonyIntervention
  roleId : Option RoleId
  boundSpecialty : Option Specialty

/-- The calls of the use cases on their ports. A commit carries, for the record
only, the session it was computed from and a note of what was done to it. A `lap` is a
reading of the clock that goes to the metrics and nowhere else. -/
inductive Call (ν : Type)
  | revision (id : CeremonyId)
  | get (id : CeremonyId)
  | commit (loaded : LoadedSession) (facts : List AuditFact) (base : CeremonyInstance) (note : ν)
  | openSession (session : CeremonyInstance) (facts : List AuditFact) (note : ν)
  | definition (name : CeremonyName) (version : CeremonyVersion)
  | saveDefinition (definition : CeremonyDefinition)
  | published (name : CeremonyName) (version : CeremonyVersion)
  | now
  | lap
  | execute (request : CeremonyStepHandlerRequest)
  | collect (request : CeremonyEvidenceRequest)
  | transcript (id : CeremonyId)
  | contribute (id : CeremonyId) (contribution : CeremonyStepContribution)

def Call.Answer {ν : Type} : Call ν → Type
  | .revision _ => Option CeremonyRevision
  | .get _ => Except DomainError CeremonyInstance
  | .commit _ _ _ _ => Except DomainError LoadedSession
  | .openSession _ _ _ => Except DomainError LoadedSession
  | .definition _ _ => Except DomainError CeremonyDefinition
  | .saveDefinition _ => Unit
  | .published _ _ => Option PublishedCeremonyDefinition
  | .now => OffsetDateTime
  | .lap => Unit
  | .execute _ => Except DomainError StepResult
  | .collect _ => Except DomainError CeremonyEvidencePack
  | .transcript _ => Except DomainError CeremonyTranscript
  | .contribute _ _ => Except DomainError Unit

def calls (ν : Type) : Interface := ⟨Call ν, Call.Answer⟩

abbrev Session (ν : Type) := ExceptT DomainError (Prog (calls ν))

/-- What became of one commit: what it was handed, and what was stored of the
ceremony before and after it. An opening is computed from nothing. -/
structure Entry (ν : Type) where
  base : Option CeremonyInstance
  note : ν
  loaded : LoadedSession
  facts : List AuditFact
  before : StoredCeremony
  answer : Except DomainError LoadedSession
  after : StoredCeremony

namespace Entry

variable {ν : Type}

def ceremony (e : Entry ν) : CeremonyId := e.loaded.session.id

def landed (e : Entry ν) : Bool :=
  match e.answer with
  | .ok _ => true
  | .error _ => false

end Entry

/-- The definitions are kept newest first, and the newest under a name and a
version is the one they stand for. -/
structure World (ν : Type) where
  store : InMemoryCeremonyStore
  definitions : List CeremonyDefinition
  publications : List PublishedCeremonyDefinition
  log : List (Entry ν)

namespace World

variable {ν : Type}

def empty : World ν := ⟨OrdMap.empty, [], [], []⟩

def definition (w : World ν) (name : CeremonyName) (version : CeremonyVersion) :
    Except DomainError CeremonyDefinition :=
  okOr (w.definitions.find? fun d => d.name = name && d.version = version)
    (.notFound "ceremony_definition")

def published (w : World ν) (name : CeremonyName) (version : CeremonyVersion) :
    Option PublishedCeremonyDefinition :=
  w.publications.find? fun p => p.definition.name = name && p.definition.version = version

/-- The world after a commit, with an account of it. -/
def concluded (env : Rendering) (base : Option CeremonyInstance) (note : ν) (lost : DomainError)
    (loaded : LoadedSession) (facts : List AuditFact) (w : World ν) : World ν :=
  let result := storing env lost loaded facts w.store
  { w with
    store := result.2
    log := w.log ++ [{
      base, note, loaded, facts
      before := w.store.stored loaded.session.id
      answer := result.1
      after := result.2.stored loaded.session.id }] }

end World

def lostCommit : DomainError := .conflict "ceremony_instance"

def lostOpening : DomainError := .alreadyExists "ceremony_instance"

/-- What the caller of a commit is told who lost the race. -/
def Entry.lost {ν : Type} (e : Entry ν) : DomainError :=
  if e.base.isSome then lostCommit else lostOpening

/-- What each call answers and does. Nothing is known of the clock, of the
handlers, of the evidence sources and of the transcripts. -/
def exec (env : Rendering) {ν : Type} : Semantics (calls ν) (World ν)
  | .revision id, w, a, w' => a = w.store.revision id ∧ w' = w
  | .get id, w, a, w' => a = w.store.get id ∧ w' = w
  | .commit loaded facts base note, w, a, w' =>
    a = (storing env lostCommit loaded facts w.store).1 ∧
      w' = w.concluded env (some base) note lostCommit loaded facts
  | .openSession session facts note, w, a, w' =>
    a = (storing env lostOpening ⟨session, .new⟩ facts w.store).1 ∧
      w' = w.concluded env none note lostOpening ⟨session, .new⟩ facts
  | .definition name version, w, a, w' => a = w.definition name version ∧ w' = w
  | .saveDefinition definition, w, _, w' =>
    w' = { w with definitions := definition :: w.definitions }
  | .published name version, w, a, w' => a = w.published name version ∧ w' = w
  | .now, w, _, w' => w' = w
  | .lap, w, _, w' => w' = w
  | .execute _, w, _, w' => w' = w
  | .collect _, w, _, w' => w' = w
  | .transcript _, w, _, w' => w' = w
  | .contribute _ _, w, _, w' => w' = w

/-- What happens to definitions outside of the sessions: they are mounted, and
they are published under names and versions that are free. -/
inductive Drift {ν : Type} : World ν → World ν → Prop
  | mount {w : World ν} (definition : CeremonyDefinition) :
      Drift w { w with definitions := definition :: w.definitions }
  | publish {w : World ν} (p : PublishedCeremonyDefinition)
      (free : w.published p.definition.name p.definition.version = none) :
      Drift w { w with publications := w.publications ++ [p] }

section Journal

variable {ν : Type}

def ask (c : Call ν) : Session ν c.Answer := ExceptT.lift (Prog.call (I := calls ν) c)

/-- The revision is read before the session. -/
def load (id : CeremonyId) : Session ν LoadedSession := do
  let stored ← ask (.revision id)
  let session ← ExceptT.mk (Prog.call (I := calls ν) (.get id))
  pure ⟨session, stored.elim .new .exactly⟩

def commit (loaded : LoadedSession) (facts : List AuditFact) (base : CeremonyInstance) (note : ν) :
    Session ν LoadedSession :=
  ExceptT.mk (Prog.call (I := calls ν) (.commit loaded facts base note))

/-- The source calls this `open`. -/
def openSession (session : CeremonyInstance) (facts : List AuditFact) (note : ν) :
    Session ν LoadedSession :=
  ExceptT.mk (Prog.call (I := calls ν) (.openSession session facts note))

end Journal

end Choreographer.SessionJournal
