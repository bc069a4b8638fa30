import Choreographer.Contracts
import Choreographer.Deliberations
import Choreographer.Lib.Programs

namespace Choreographer.Deliberate

open Choreographer.Lib.SortedMaps Choreographer.Lib.Updates Choreographer.Lib.Programs
open Choreographer.Texts Choreographer.Values Choreographer.Contracts Choreographer.Deliberations

structure Council where
  id : CouncilId
  specialty : Specialty
  agents : OrdSet AgentId

/-- Of the context of a task only its id is read; the rest is for the agents. -/
structure ExternalContextBundle where
  bundleId : String

structure TaskMetadata where
  correlationId : Option EventId
  causationId : Option EventId
  sourceEventId : Option EventId
  executionProfile : Attributes

structure Task where
  id : TaskId
  specialty : Specialty
  description : String
  constraints : TaskConstraints
  attributes : Attributes
  externalContext : Option ExternalContextBundle
  metadata : TaskMetadata

structure DraftRequest where
  task : String
  constraints : TaskConstraints
  diverse : Bool
  externalContext : Option ExternalContextBundle

structure EventEnvelope where
  eventId : EventId
  emittedAt : OffsetDateTime
  source : String
  correlationId : Option EventId
  causationId : Option EventId

def EventEnvelope.newWithCausation (eventId : EventId) (emittedAt : OffsetDateTime)
    (source : String) (correlationId causationId : Option EventId) :
    Except DomainError EventEnvelope :=
  let trimmed := trim source
  if trimmed = "" then .error (.emptyField "event.source")
  else if trimmed.utf8ByteSize > 256 then
    .error (.fieldTooLong "event.source" trimmed.utf8ByteSize 256)
  else .ok ⟨eventId, emittedAt, trimmed, correlationId, causationId⟩

structure DeliberationCompletedEvent where
  envelope : EventEnvelope
  taskId : TaskId
  specialty : Specialty
  winnerProposalId : ProposalId
  winnerScore : Score
  numCandidates : U32
  duration : DurationMs
  externalContextBundleId : Option String

/-- The calls of the use cases on their ports. An agent is known by its id, a
validator by its place in the configuration. -/
inductive Call
  | now
  | council (specialty : Specialty)
  | councils
  | contract (contractId : String)
  | resolveAll (ids : List AgentId)
  | uuid
  | generate (agent : AgentId) (request : DraftRequest)
  | critique (agent : AgentId) (peerContent : String) (constraints : TaskConstraints)
  | revise (agent : AgentId) (ownContent feedback : String)
  | validate (validator : Nat) (content : String) (constraints : TaskConstraints)
  | score (reports : List ValidatorReport)
  | save (deliberation : Deliberation)
  | get (taskId : TaskId)
  | recordDeliberation (specialty : Specialty) (duration : DurationMs)
  | publishDeliberationCompleted (event : DeliberationCompletedEvent)
  | elapsed

def Call.Answer : Call → Type
  | .now => OffsetDateTime
  | .council _ => Except DomainError Council
  | .councils => Except DomainError (List Council)
  | .contract _ => Except DomainError OutputContract
  | .resolveAll _ => Except DomainError (List AgentId)
  | .uuid => String
  | .generate _ _ => Except DomainError String
  | .critique _ _ _ => Except DomainError String
  | .revise _ _ _ => Except DomainError String
  | .validate _ _ _ => Except DomainError ValidatorReport
  | .score _ => Except DomainError Score
  | .save _ => Except DomainError Unit
  | .get _ => Except DomainError Deliberation
  | .recordDeliberation _ _ => Except DomainError Unit
  | .publishDeliberationCompleted _ => Except DomainError Unit
  | .elapsed => DurationMs

def calls : Interface := ⟨Call, Call.Answer⟩

abbrev Council.Run := ExceptT DomainError (Prog calls)

def ask (c : Call) : Council.Run c.Answer := ExceptT.lift (Prog.call (I := calls) c)

def checked {α : Type} (x : Except DomainError α) : Council.Run α := ExceptT.mk (Prog.done x)

structure DeliberateOutput where
  deliberation : Deliberation
  winnerProposalId : ProposalId

/-- How the use case is wired: how many validators there are, and as whom it speaks. -/
structure DeliberateUseCase where
  validators : Nat
  source : String

section WinnerSelection

/-- Proposals that passed come first, each group in the order it had. -/
def prioritizeValidOutputs (deliberation : Deliberation) (ranked : List RankedOutcome) :
    Except DomainError (Deliberation × List RankedOutcome) :=
  let reordered := (ranked.filter fun c => c.outcome.allPassed) ++
    ranked.filter fun c => !c.outcome.allPassed
  deliberation.reprioritize (reordered.map fun c => c.proposal.id)

def pickWinner (ranked : List RankedOutcome) (constraints : TaskConstraints) :
    Except DomainError RankedOutcome :=
  match constraints.outputContract with
  | some contract =>
    okOr (ranked.find? fun c => c.outcome.allPassed) (.noValidProposal contract.contractId)
  | none => okOr ranked.head? (.emptyCollection "deliberation.ranked")

end WinnerSelection

def newProposalId : Council.Run ProposalId := do
  let raw ← ask .uuid
  checked (Text.new raw)

def newEventId : Council.Run EventId := do
  let raw ← ask .uuid
  checked (Text.new raw)

def resolveAgents (council : Council) (constraints : TaskConstraints) :
    Council.Run (List AgentId) :=
  let ids := council.agents.keys
  let ids := match constraints.numAgents with
    | some n => ids.take n.val
    | none => ids
  ExceptT.mk (Prog.call (I := calls) (.resolveAll ids))

/-- One proposal for each agent, and their ids in the order of the agents. -/
def seedProposals (task : Task) (now : OffsetDateTime) :
    List AgentId → Deliberation → Council.Run (Deliberation × List ProposalId)
  | [], deliberation => pure (deliberation, [])
  | agent :: rest, deliberation => do
    let content ← ExceptT.mk (Prog.call (I := calls) (.generate agent
      ⟨task.description, task.constraints, true, task.externalContext⟩))
    let proposalId ← newProposalId
    let proposal ← checked (Proposal.new proposalId agent task.specialty content task.attributes now)
    let deliberation ← checked (deliberation.addProposal proposal)
    let (deliberation, ids) ← seedProposals task now rest deliberation
    pure (deliberation, proposalId :: ids)

/-- An agent goes over the proposal of its neighbour. -/
def reviewPeer (constraints : TaskConstraints) (agent : AgentId) (peer : ProposalId)
    (deliberation : Deliberation) : Council.Run Deliberation := do
  let proposal ← checked (okOr (deliberation.proposals.get? peer)
    (.notFound "deliberation.proposal"))
  let feedback ← ExceptT.mk (Prog.call (I := calls)
    (.critique agent proposal.content constraints))
  let revision ← ExceptT.mk (Prog.call (I := calls) (.revise agent proposal.content feedback))
  let now ← ask .now
  checked (deliberation.reviseProposal peer revision now)

/-- Every agent reviews the next one's proposal, and the last one the first one's. -/
def reviewRound (constraints : TaskConstraints) :
    List (AgentId × ProposalId) → Deliberation → Council.Run Deliberation
  | [], deliberation => pure deliberation
  | (agent, peer) :: rest, deliberation => do
    let deliberation ← reviewPeer constraints agent peer deliberation
    reviewRound constraints rest deliberation

def reviewRounds (constraints : TaskConstraints) (pairs : List (AgentId × ProposalId)) :
    Nat → Deliberation → Council.Run Deliberation
  | 0, deliberation => pure deliberation
  | rounds + 1, deliberation => do
    let deliberation ← reviewRound constraints pairs deliberation
    reviewRounds constraints pairs rounds deliberation

def runPeerReviewRounds (agents : List AgentId) (orderedProposalIds : List ProposalId)
    (constraints : TaskConstraints) (deliberation : Deliberation) : Council.Run Deliberation :=
  let rounds := constraints.rounds.val
  if rounds = 0 ∨ agents.length < 2 then pure deliberation
  else if orderedProposalIds.length ≠ agents.length then
    throw (.invariantViolated "proposal count must match agent count before peer review")
  else
    reviewRounds constraints (agents.zip (orderedProposalIds.rotate 1)) rounds deliberation

def runValidators (content : String) (constraints : TaskConstraints) :
    List Nat → Council.Run (List ValidatorReport)
  | [] => pure []
  | validator :: rest => do
    let report ← ExceptT.mk (Prog.call (I := calls) (.validate validator content constraints))
    let reports ← runValidators content constraints rest
    pure (report :: reports)

def attachValidations (self : DeliberateUseCase) (constraints : TaskConstraints) :
    List ProposalId → Deliberation → Council.Run Deliberation
  | [], deliberation => pure deliberation
  | id :: rest, deliberation => do
    let proposal ← checked (okOr (deliberation.proposals.get? id)
      (.notFound "deliberation.proposal"))
    let reports ← runValidators proposal.content constraints (List.range self.validators)
    let score ← ExceptT.mk (Prog.call (I := calls) (.score reports))
    let deliberation ← checked (deliberation.attachOutcome id ⟨score, reports⟩)
    attachValidations self constraints rest deliberation

def envelope (self : DeliberateUseCase) (emittedAt : OffsetDateTime) (metadata : TaskMetadata) :
    Council.Run EventEnvelope := do
  let eventId ← newEventId
  checked (EventEnvelope.newWithCausation eventId emittedAt self.source metadata.correlationId
    metadata.causationId)

def finalize (self : DeliberateUseCase) (deliberation : Deliberation) (ranked : List RankedOutcome)
    (task : Task) (completedAt : OffsetDateTime) : Council.Run DeliberateOutput := do
  ExceptT.mk (Prog.call (I := calls) (.save deliberation))
  let duration := deliberation.duration.getD DurationMs.zero
  ExceptT.mk (Prog.call (I := calls) (.recordDeliberation deliberation.specialty duration))
  let winner ← checked (pickWinner ranked task.constraints)
  let envelope ← envelope self completedAt task.metadata
  ExceptT.mk (Prog.call (I := calls) (.publishDeliberationCompleted
    ⟨envelope, deliberation.taskId, deliberation.specialty, winner.proposal.id,
      winner.outcome.score, toU32 ranked.length, duration,
      task.externalContext.map ExternalContextBundle.bundleId⟩))
  pure ⟨deliberation, winner.proposal.id⟩

def deliberated (self : DeliberateUseCase) (task : Task) :
    Council.Run (Deliberation × List RankedOutcome × OffsetDateTime) := do
  let startedAt ← ask .now
  let council ← ExceptT.mk (Prog.call (I := calls) (.council task.specialty))
  let agents ← resolveAgents council task.constraints
  if agents.isEmpty then throw (.emptyCollection "deliberation.agents")
  let now ← ask .now
  let (deliberation, ids) ← seedProposals task now agents
    (Deliberation.start task.id task.specialty task.constraints.rounds startedAt)
  let deliberation ← checked deliberation.advance
  let deliberation ← runPeerReviewRounds agents ids task.constraints deliberation
  let deliberation ← checked deliberation.advance
  let deliberation ← attachValidations self task.constraints deliberation.proposals.keys deliberation
  let deliberation ← checked deliberation.advance
  let completedAt ← ask .now
  let (deliberation, ranked) ← checked (deliberation.complete completedAt)
  if task.constraints.outputContract.isSome then
    let (deliberation, ranked) ← checked (prioritizeValidOutputs deliberation ranked)
    pure (deliberation, ranked, completedAt)
  else pure (deliberation, ranked, completedAt)

def deliberate (self : DeliberateUseCase) (task : Task) : Council.Run DeliberateOutput := do
  let (deliberation, ranked, completedAt) ← deliberated self task
  finalize self deliberation ranked task completedAt

inductive ValidationMode
  | strict
  | warn
deriving DecidableEq

inductive CouncilSelector
  | byId (councilId : CouncilId)
  | bySpecialty (specialty : Specialty)

structure RunCouncilDecisionInput where
  councilSelector : CouncilSelector
  contractId : String
  taskDescription : String
  externalContext : Option ExternalContextBundle
  validationMode : ValidationMode
  metadata : TaskMetadata

structure RunCouncilDecisionOutput where
  taskId : TaskId
  winner : RankedOutcome
  candidates : List RankedOutcome
  validationMode : ValidationMode
  passed : Bool
  durationMs : DurationMs

def decided (input : RunCouncilDecisionInput) (taskId : TaskId) (output : DeliberateOutput) :
    Council.Run RunCouncilDecisionOutput := do
  let durationMs ← ask .elapsed
  let candidates ← checked output.deliberation.rankedOutcomes
  let winner ← checked (okOr (candidates.find? fun c => c.proposal.id = output.winnerProposalId)
    (.invariantViolated "winner proposal id not found in ranked outcomes"))
  pure ⟨taskId, winner, candidates, input.validationMode, true, durationMs⟩

/-- The deliberations that are kept, and the completions that were announced. -/
structure World where
  repository : OrdMap TaskId Deliberation
  published : List DeliberationCompletedEvent
  refused : List DomainError

/-- Only the choice of a winner says that there is none. -/
def IsPortError (e : DomainError) : Prop := ∀ contractId, e ≠ .noValidProposal contractId

/-- A port that answers as it likes, but never that no proposal is valid. What it
refuses is on record. -/
def Answers {α : Type} (w : World) (a : Except DomainError α) (w' : World) (done : World) : Prop :=
  (∃ v, a = .ok v) ∧ w' = done ∨
    ∃ e, a = .error e ∧ IsPortError e ∧ w' = { w with refused := w.refused ++ [e] }

/-- What each call answers and does. Nothing is known of agents, validators and
scores, of clocks, of councils and of contracts. -/
def exec : Semantics calls World
  | .now, w, _, w' => w' = w
  | .council _, w, a, w' => Answers w a w' w
  | .councils, w, a, w' => Answers w a w' w
  | .contract _, w, a, w' => Answers w a w' w
  | .resolveAll _, w, a, w' => Answers w a w' w
  | .uuid, w, _, w' => w' = w
  | .generate _ _, w, a, w' => Answers w a w' w
  | .critique _ _ _, w, a, w' => Answers w a w' w
  | .revise _ _ _, w, a, w' => Answers w a w' w
  | .validate _ _ _, w, a, w' => Answers w a w' w
  | .score _, w, a, w' => Answers w a w' w
  | .save d, w, a, w' =>
    Answers w a w' { w with repository := w.repository.insert d.taskId d }
  | .get taskId, w, a, w' =>
    a = okOr (w.repository.get? taskId) (.notFound "deliberation") ∧ w' = w ∨
      ∃ e, a = .error e ∧ IsPortError e ∧ w' = { w with refused := w.refused ++ [e] }
  | .recordDeliberation _ _, w, a, w' => Answers w a w' w
  | .publishDeliberationCompleted event, w, a, w' =>
    Answers w a w' { w with published := w.published ++ [event] }
  | .elapsed, w, _, w' => w' = w

end Choreographer.Deliberate
