import Choreographer.CouncilRuns

namespace Choreographer.Orchestrate

open Choreographer.Lib.SortedMaps Choreographer.Lib.Updates
open Choreographer.Lib.Programs
open Choreographer.Texts Choreographer.Values Choreographer.Deliberations Choreographer.Deliberate

structure TaskDispatchedEvent where
  envelope : EventEnvelope
  taskId : TaskId
  specialty : Specialty
  triggerEventId : Option EventId

structure TaskCompletedEvent where
  envelope : EventEnvelope
  taskId : TaskId
  specialty : Specialty
  agentId : Option AgentId
  duration : DurationMs

def maxReasonLen : Nat := 4096

structure TaskFailedEvent where
  envelope : EventEnvelope
  taskId : TaskId
  specialty : Specialty
  errorKind : String
  errorReason : String

def TaskFailedEvent.new (envelope : EventEnvelope) (taskId : TaskId) (specialty : Specialty)
    (errorKind errorReason : String) : Except DomainError TaskFailedEvent :=
  if trim errorKind = "" then .error (.emptyField "task_failed.error_kind")
  else if errorReason.utf8ByteSize > maxReasonLen then
    .error (.fieldTooLong "task_failed.error_reason" errorReason.utf8ByteSize maxReasonLen)
  else .ok ⟨envelope, taskId, specialty, errorKind, errorReason⟩

/-- What is published about a task. -/
inductive Event
  | taskDispatched (event : TaskDispatchedEvent)
  | taskCompleted (event : TaskCompletedEvent)
  | taskFailed (event : TaskFailedEvent)

namespace Event

def isDispatched : Event → Bool
  | .taskDispatched _ => true
  | _ => false

def isCompleted : Event → Bool
  | .taskCompleted _ => true
  | _ => false

def isFailed : Event → Bool
  | .taskFailed _ => true
  | _ => false

def isTerminal (self : Event) : Bool := self.isCompleted || self.isFailed

end Event

structure ExecutionOutcome where
  executionId : String
  succeeded : Bool
  duration : DurationMs
  output : Attributes

structure OrchestrateOutput where
  deliberation : Deliberation
  winner : Proposal
  execution : ExecutionOutcome

structure OrchestrateUseCase where
  source : String

/-- Those the use case works with. The clock and the source of fresh ids are asked once for each
event; a fresh id is always an id. -/
structure Collaborators where
  deliberate : Task → Except DomainError DeliberateOutput
  execute : Proposal → Attributes → Except DomainError ExecutionOutcome
  recordOrchestration : DurationMs → Except DomainError Unit
  now : Nat → OffsetDateTime
  uuid : Nat → String
  identifies : ∀ n, ∃ id : EventId, Text.new (uuid n) = .ok id

/-- What a run leaves behind when the messaging port accepts every event: what was published, and
what the executor answered. -/
structure Trace where
  events : List Event
  answers : List (Except DomainError ExecutionOutcome)

abbrev Publishing := Update DomainError Trace

def publish (event : Event) : Publishing Unit :=
  modify fun trace => { trace with events := trace.events ++ [event] }

def deliberationErrorKind : DomainError → String
  | .noValidProposal _ => "deliberation.no_valid_proposal"
  | _ => "deliberation.error"

def mergeExecutionOptions (profile explicit : Attributes) : Except DomainError Attributes :=
  Attributes.new (explicit.entries.entries.foldl (fun m e => m.insert e.1 e.2) profile.entries)

section Execute

variable (self : OrchestrateUseCase) (c : Collaborators)

def envelope (metadata : TaskMetadata) : Publishing EventEnvelope := do
  let eventId ← check fun trace => Text.new (c.uuid trace.events.length)
  check fun trace => EventEnvelope.newWithCausation eventId (c.now trace.events.length) self.source
    metadata.correlationId metadata.causationId

/-- Hand the proposal to the executor. -/
def callExecutor (winner : Proposal) (options : Attributes) :
    Publishing (Except DomainError ExecutionOutcome) := do
  modify fun trace => { trace with answers := trace.answers ++ [c.execute winner options] }
  pure (c.execute winner options)

def publishFailed (task : Task) (errorKind errorReason : String) : Publishing Unit := do
  let envelope ← envelope self c task.metadata
  let event ← check fun _ =>
    TaskFailedEvent.new envelope task.id task.specialty errorKind errorReason
  publish (.taskFailed event)

/-- What comes after the executor has answered. -/
def conclude (task : Task) (deliberation : Deliberation) (winner : Proposal) :
    Except DomainError ExecutionOutcome → Publishing OrchestrateOutput
  | .ok execution => do
    check fun _ => c.recordOrchestration execution.duration
    if execution.succeeded then
      let envelope ← envelope self c task.metadata
      publish (.taskCompleted ⟨envelope, task.id, task.specialty, some winner.author,
        execution.duration⟩)
    else
      publishFailed self c task "executor.unsuccessful" "executor reported unsuccessful outcome"
    pure ⟨deliberation, winner, execution⟩
  | .error e => do
    publishFailed self c task "executor.error" e.toString
    throw e

def execute (task : Task) (executionOptions : Attributes) : Publishing OrchestrateOutput :=
  match c.deliberate task with
  | .error e => do
    publishFailed self c task (deliberationErrorKind e) e.toString
    throw e
  | .ok out => do
    let winner ← check fun _ => okOr (out.deliberation.proposals.get? out.winnerProposalId)
      (.notFound "winner proposal")
    let envelope ← envelope self c task.metadata
    publish (.taskDispatched ⟨envelope, task.id, task.specialty, task.metadata.sourceEventId⟩)
    let options ← check fun _ =>
      mergeExecutionOptions task.metadata.executionProfile executionOptions
    let answer ← callExecutor c winner options
    conclude self c task out.deliberation winner answer

def run (task : Task) (executionOptions : Attributes) : Trace :=
  ((execute self c task executionOptions).on ⟨[], []⟩).2

end Execute

/-- An event with this source can be built. -/
def Sourced (source : String) : Prop := trim source ≠ "" ∧ (trim source).utf8ByteSize ≤ 256

/-- An error that still fits in the event that reports it. -/
def Tellable (e : DomainError) : Prop := e.toString.utf8ByteSize ≤ maxReasonLen

/-- The executor answered and said that all went well. -/
def Succeeded : Except DomainError ExecutionOutcome → Prop
  | .ok execution => execution.succeeded = true
  | .error _ => False

/-- What the executor answered can be turned into an event. -/
def Reportable (c : Collaborators) : Except DomainError ExecutionOutcome → Prop
  | .ok execution => c.recordOrchestration execution.duration = .ok ()
  | .error e => Tellable e

section Steps

variable {self : OrchestrateUseCase} {c : Collaborators} {trace : Trace}

theorem newWithCausation_ok (eventId : EventId) (emittedAt : OffsetDateTime) (source : String)
    (correlationId causationId : Option EventId) :
    (∃ envelope, EventEnvelope.newWithCausation eventId emittedAt source correlationId causationId =
      .ok envelope) ↔ Sourced source := by
  unfold EventEnvelope.newWithCausation Sourced
  dsimp only
  split_ifs with hblank hlong
  · simp [hblank]
  · simp [hlong]
  · simp only [Except.ok.injEq, exists_eq', true_iff]
    exact ⟨hblank, by omega⟩

theorem envelope_on (metadata : TaskMetadata) :
    (Sourced self.source ∧ ∃ e, (envelope self c metadata).on trace = (.ok e, trace)) ∨
      ¬ Sourced self.source ∧ ∃ e, (envelope self c metadata).on trace = (.error e, trace) := by
  obtain ⟨id, hid⟩ := c.identifies trace.events.length
  have hon : (envelope self c metadata).on trace =
      (EventEnvelope.newWithCausation id (c.now trace.events.length) self.source
        metadata.correlationId metadata.causationId, trace) := by
    simp only [envelope, bind_on, check_on, hid]
  have hiff := newWithCausation_ok id (c.now trace.events.length) self.source
    metadata.correlationId metadata.causationId
  rw [hon]
  cases hnew : EventEnvelope.newWithCausation id (c.now trace.events.length) self.source
      metadata.correlationId metadata.causationId with
  | ok e => exact .inl ⟨hiff.mp ⟨e, hnew⟩, e, rfl⟩
  | error e =>
    refine .inr ⟨fun hs => ?_, e, rfl⟩
    obtain ⟨_, hok⟩ := hiff.mpr hs
    simp [hnew] at hok

theorem taskFailed_new {envelope : EventEnvelope} {taskId : TaskId} {specialty : Specialty}
    {errorKind errorReason : String} (hkind : trim errorKind ≠ "") :
    (∃ event, TaskFailedEvent.new envelope taskId specialty errorKind errorReason = .ok event) ↔
      errorReason.utf8ByteSize ≤ maxReasonLen := by
  unfold TaskFailedEvent.new
  rw [if_neg hkind]
  split_ifs with hlong
  · simpa using hlong
  · simpa using hlong

theorem publishFailed_on (task : Task) {errorKind errorReason : String}
    (hkind : trim errorKind ≠ "") :
    (Sourced self.source ∧ errorReason.utf8ByteSize ≤ maxReasonLen ∧ ∃ event,
      (publishFailed self c task errorKind errorReason).on trace =
        (.ok (), { trace with events := trace.events ++ [.taskFailed event] })) ∨
      ¬ (Sourced self.source ∧ errorReason.utf8ByteSize ≤ maxReasonLen) ∧ ∃ e,
        (publishFailed self c task errorKind errorReason).on trace = (.error e, trace) := by
  obtain ⟨hs, envelope, he⟩ | ⟨hs, e, he⟩ := @envelope_on self c trace task.metadata
  · have hiff := @taskFailed_new envelope task.id task.specialty errorKind errorReason hkind
    cases hnew : TaskFailedEvent.new envelope task.id task.specialty errorKind errorReason with
    | ok event =>
      refine .inl ⟨hs, hiff.mp ⟨event, hnew⟩, event, ?_⟩
      simp only [publishFailed, bind_on, he, check_on, hnew, publish, modify_on]
    | error e =>
      refine .inr ⟨fun h => ?_, e, ?_⟩
      · obtain ⟨_, hok⟩ := hiff.mpr h.2
        simp [hnew] at hok
      · simp only [publishFailed, bind_on, he, check_on, hnew]
  · refine .inr ⟨fun h => hs h.1, e, ?_⟩
    simp only [publishFailed, bind_on, he]

theorem conclude_on (task : Task) (deliberation : Deliberation) (winner : Proposal)
    (hs : Sourced self.source) (answer : Except DomainError ExecutionOutcome) :
    (Reportable c answer ∧ ∃ event, event.isTerminal = true ∧
      (event.isCompleted = true ↔ Succeeded answer) ∧
      ((conclude self c task deliberation winner answer).on trace).2 =
        { trace with events := trace.events ++ [event] }) ∨
      ¬ Reportable c answer ∧
        ((conclude self c task deliberation winner answer).on trace).2 = trace := by
  cases answer with
  | error e =>
    have hkind : trim "executor.error" ≠ "" := by decide
    obtain ⟨_, hr, event, hf⟩ | ⟨hr, e', hf⟩ :=
      @publishFailed_on self c trace task _ e.toString hkind
    · refine .inl ⟨hr, .taskFailed event, rfl, ?_, ?_⟩
      · simp [Event.isCompleted, Succeeded]
      · simp only [conclude, bind_on, hf, throw_on]
    · refine .inr ⟨fun h => hr ⟨hs, h⟩, ?_⟩
      simp only [conclude, bind_on, hf]
  | ok execution =>
    cases hstat : c.recordOrchestration execution.duration with
    | error e =>
      refine .inr ⟨by simp [Reportable, hstat], ?_⟩
      simp only [conclude, bind_on, check_on, hstat]
    | ok _ =>
      refine .inl ⟨hstat, ?_⟩
      cases hsucc : execution.succeeded with
      | true =>
        obtain ⟨_, envelope, he⟩ | ⟨hs', _⟩ := @envelope_on self c trace task.metadata
        · refine ⟨.taskCompleted ⟨envelope, task.id, task.specialty, some winner.author,
            execution.duration⟩, rfl, ?_, ?_⟩
          · simp [Event.isCompleted, Succeeded, hsucc]
          · simp only [conclude, bind_on, check_on, hstat, hsucc, if_true, he, publish, modify_on,
              pure_on]
        · exact absurd hs hs'
      | false =>
        have hkind : trim "executor.unsuccessful" ≠ "" := by decide
        have hshort : "executor reported unsuccessful outcome".utf8ByteSize ≤ maxReasonLen := by
          decide
        obtain ⟨_, _, event, hf⟩ | ⟨hr, _⟩ := @publishFailed_on self c trace task _
          "executor reported unsuccessful outcome" hkind
        · refine ⟨.taskFailed event, rfl, ?_, ?_⟩
          · simp [Event.isCompleted, Succeeded, hsucc]
          · simp only [conclude, bind_on, check_on, hstat, hsucc, Bool.false_eq_true, if_false, hf,
              pure_on]
        · exact absurd ⟨hs, hshort⟩ hr

end Steps

section Options

theorem mergeExecutionOptions_ok (profile explicit : Attributes) :
    (∃ merged, mergeExecutionOptions profile explicit = .ok merged) ↔
      (profile.entries.keys.toFinset ∪ explicit.entries.keys.toFinset).card ≤ maxAttributesKeys := by
  have hkeys : (explicit.entries.entries.foldl (fun m e => m.insert e.1 e.2)
      profile.entries).keys.toFinset =
      profile.entries.keys.toFinset ∪ explicit.entries.keys.toFinset := by
    ext key
    simp only [List.mem_toFinset, Finset.mem_union, OrdMap.mem_keys, OrdMap.contains_foldl_insert]
  unfold mergeExecutionOptions
  rw [attributes_new_ok, checkAttributes_ok, OrdMap.size_eq_card, hkeys]
  refine ⟨And.left, fun h => ⟨h, fun key hkey => ?_⟩⟩
  rcases (OrdMap.contains_foldl_insert ..).mp hkey with hkey | hkey
  · exact (checkAttributes_ok.mp profile.valid).2 key hkey
  · exact (checkAttributes_ok.mp explicit.valid).2 key hkey

end Options

section Runs

variable (self : OrchestrateUseCase) (c : Collaborators) (task : Task) (executionOptions : Attributes)

/-- A task is dispatched exactly when its deliberation succeeded, and the last of what is published
is the one word on how it ended. -/
structure Reported : Prop where
  dispatched : (∃ event ∈ (run self c task executionOptions).events, event.isDispatched = true) ↔
    ∃ out, c.deliberate task = .ok out
  ends : ∃ before last, (run self c task executionOptions).events = before ++ [last] ∧
    last.isTerminal = true ∧ ∀ event ∈ before, event.isTerminal = false
  completed : (∃ event ∈ (run self c task executionOptions).events, event.isCompleted = true) ↔
    ∃ answer ∈ (run self c task executionOptions).answers, Succeeded answer

/-- Nothing fails between the answers and the words on them. -/
def Unhindered : Prop :=
  Sourced self.source ∧ match c.deliberate task with
  | .error e => Tellable e
  | .ok out => ∃ winner, out.deliberation.proposals.get? out.winnerProposalId = some winner ∧
    (task.metadata.executionProfile.entries.keys.toFinset ∪
      executionOptions.entries.keys.toFinset).card ≤ maxAttributesKeys ∧
    ∀ options, mergeExecutionOptions task.metadata.executionProfile executionOptions = .ok options →
      Reportable c (c.execute winner options)

variable {self c task executionOptions}

theorem not_reported (h : ∀ event ∈ (run self c task executionOptions).events,
    event.isTerminal = false) : ¬ Reported self c task executionOptions := by
  rintro ⟨_, ⟨before, last, hevents, hlast, _⟩, _⟩
  have hmem : last ∈ (run self c task executionOptions).events := by simp [hevents]
  rw [h last hmem] at hlast
  exact Bool.false_ne_true hlast

theorem reported_iff_of_refused {e : DomainError} (hd : c.deliberate task = .error e) :
    Reported self c task executionOptions ↔ Sourced self.source ∧ Tellable e := by
  have hkind : trim (deliberationErrorKind e) ≠ "" := by
    unfold deliberationErrorKind
    split <;> decide
  obtain ⟨hs, he, event, hf⟩ | ⟨hnot, e', hf⟩ :=
    @publishFailed_on self c ⟨[], []⟩ task _ e.toString hkind
  · have hrun : run self c task executionOptions = ⟨[.taskFailed event], []⟩ := by
      simp only [run, execute, hd, bind_on, hf, throw_on, List.nil_append]
    refine iff_of_true ⟨?_, ⟨[], .taskFailed event, ?_, rfl, by simp⟩, ?_⟩ ⟨hs, he⟩
    · simp [hrun, hd, Event.isDispatched]
    · simp [hrun]
    · simp [hrun, Event.isCompleted]
  · have hrun : run self c task executionOptions = ⟨[], []⟩ := by
      simp only [run, execute, hd, bind_on, hf]
    exact iff_of_false (not_reported (by simp [hrun])) hnot

theorem run_dispatched {out : DeliberateOutput} {winner : Proposal} {options : Attributes}
    (hd : c.deliberate task = .ok out)
    (hw : out.deliberation.proposals.get? out.winnerProposalId = some winner)
    (hs : Sourced self.source)
    (hm : mergeExecutionOptions task.metadata.executionProfile executionOptions = .ok options) :
    ∃ event, event.isDispatched = true ∧ run self c task executionOptions =
      ((conclude self c task out.deliberation winner (c.execute winner options)).on
        ⟨[event], [c.execute winner options]⟩).2 := by
  obtain ⟨_, envelope, he⟩ | ⟨hs', _⟩ := @envelope_on self c ⟨[], []⟩ task.metadata
  · refine ⟨.taskDispatched ⟨envelope, task.id, task.specialty, task.metadata.sourceEventId⟩, rfl,
      ?_⟩
    simp only [run, execute, hd, bind_on, check_on, hw, okOr, he, publish, modify_on, hm,
      callExecutor, pure_on, List.nil_append]
  · exact absurd hs hs'

theorem reported_iff_of_deliberated {out : DeliberateOutput} (hd : c.deliberate task = .ok out) :
    Reported self c task executionOptions ↔ Sourced self.source ∧
      ∃ winner, out.deliberation.proposals.get? out.winnerProposalId = some winner ∧
        (task.metadata.executionProfile.entries.keys.toFinset ∪
          executionOptions.entries.keys.toFinset).card ≤ maxAttributesKeys ∧
        ∀ options,
          mergeExecutionOptions task.metadata.executionProfile executionOptions = .ok options →
            Reportable c (c.execute winner options) := by
  rw [← mergeExecutionOptions_ok]
  cases hw : out.deliberation.proposals.get? out.winnerProposalId with
  | none =>
    have hrun : run self c task executionOptions = ⟨[], []⟩ := by
      simp only [run, execute, hd, bind_on, check_on, hw, okOr]
    exact iff_of_false (not_reported (by simp [hrun])) (by simp)
  | some winner =>
    by_cases hs : Sourced self.source
    · cases hm : mergeExecutionOptions task.metadata.executionProfile executionOptions with
      | error e =>
        obtain ⟨_, envelope, he⟩ | ⟨hs', _⟩ := @envelope_on self c ⟨[], []⟩ task.metadata
        · have hrun : run self c task executionOptions = ⟨[.taskDispatched
              ⟨envelope, task.id, task.specialty, task.metadata.sourceEventId⟩], []⟩ := by
            simp only [run, execute, hd, bind_on, check_on, hw, okOr, he, publish, modify_on, hm,
              List.nil_append]
          refine iff_of_false (not_reported ?_) (by simp)
          simp [hrun, Event.isTerminal, Event.isCompleted, Event.isFailed]
        · exact absurd hs hs'
      | ok options =>
        obtain ⟨event, hevent, hrun⟩ := run_dispatched hd hw hs hm
        have hquiet : event.isTerminal = false := by
          cases event with
          | taskDispatched event => rfl
          | taskCompleted event => simp [Event.isDispatched] at hevent
          | taskFailed event => simp [Event.isDispatched] at hevent
        obtain ⟨hr, last, hlast, hdone, hend⟩ | ⟨hr, hend⟩ :=
          @conclude_on self c ⟨[event], [c.execute winner options]⟩ task out.deliberation winner hs
            (c.execute winner options)
        · rw [hend] at hrun
          refine iff_of_true ⟨?_, ⟨[event], last, ?_, hlast, ?_⟩, ?_⟩ ⟨hs, winner, rfl,
            ⟨options, rfl⟩, ?_⟩
          · simp [hrun, hd, hevent]
          · simp [hrun]
          · simpa using hquiet
          · have hnot : event.isCompleted = false := by
              simp only [Event.isTerminal, Bool.or_eq_false_iff] at hquiet
              exact hquiet.1
            simp [hrun, hnot, hdone]
          · intro options' hm'
            obtain rfl := Except.ok.inj hm'
            exact hr
        · rw [hend] at hrun
          refine iff_of_false (not_reported (by simpa [hrun] using hquiet)) ?_
          rintro ⟨_, w, hw', _, hall⟩
          obtain rfl := Option.some.inj hw'
          exact hr (hall options rfl)
    · obtain ⟨hs', _⟩ | ⟨_, e, he⟩ := @envelope_on self c ⟨[], []⟩ task.metadata
      · exact absurd hs' hs
      · have hrun : run self c task executionOptions = ⟨[], []⟩ := by
          simp only [run, execute, hd, bind_on, check_on, hw, okOr, he]
        exact iff_of_false (not_reported (by simp [hrun])) fun h => hs h.1

theorem reported_iff_unhindered (self : OrchestrateUseCase) (c : Collaborators) (task : Task)
    (executionOptions : Attributes) :
    Reported self c task executionOptions ↔ Unhindered self c task executionOptions := by
  unfold Unhindered
  cases hd : c.deliberate task with
  | error e => exact reported_iff_of_refused hd
  | ok out => exact reported_iff_of_deliberated hd

theorem winner_of_deliberate {useCase : DeliberateUseCase} {out : DeliberateOutput}
    {w w' : Deliberate.World}
    (h : Returns exec (deliberate useCase task).run w (.ok out) w') :
    ∃ winner, out.deliberation.proposals.get? out.winnerProposalId = some winner := by
  obtain ⟨ranked, best, ⟨_, _, ts, hsealed, rfl, _⟩, _, hpick, hid⟩ := CouncilRuns.deliberate_ok h
  have hmem : best ∈ numbered ts := by
    unfold pickWinner at hpick
    split at hpick
    · exact List.mem_of_find?_eq_some (okOr_eq_ok.mp hpick)
    · exact List.mem_of_head? (okOr_eq_ok.mp hpick)
  have hpair : WinnerSelection.pair best ∈ ts.map Prod.snd := by
    rw [← WinnerSelection.map_pair_numbered]
    exact List.mem_map_of_mem hmem
  obtain ⟨t, ht, hbest⟩ := List.mem_map.mp hpair
  have hproposal : t.2.1 = best.proposal := congrArg Prod.fst hbest
  refine ⟨best.proposal, ?_⟩
  rw [hid, ← hproposal, hsealed.id_eq ht]
  exact (hsealed.stored t ht).1

end Runs

section Unrecorded

open Choreographer.CouncilRuns

def unrecorded : Collaborators where
  deliberate _ := .ok ⟨ranked [careful, hasty], careful⟩
  execute _ _ := .ok ⟨"execution", true, DurationMs.zero, Attributes.empty⟩
  recordOrchestration _ := .error (.invariantViolated "statistics unavailable")
  now _ := epoch
  uuid _ := "event"
  identifies _ := ⟨⟨"event", by decide⟩, rfl⟩

theorem unrecorded_not_reported : ¬ Reported ⟨"choreographer"⟩ unrecorded gated Attributes.empty := by
  apply not_reported
  have hevents : (run ⟨"choreographer"⟩ unrecorded gated Attributes.empty).events.map
      Event.isTerminal = [false] := rfl
  intro event hevent
  have hmem : event.isTerminal ∈ _ := List.mem_map_of_mem hevent
  rw [hevents] at hmem
  exact List.mem_singleton.mp hmem

end Unrecorded

end Choreographer.Orchestrate
