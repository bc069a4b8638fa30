import Choreographer.CouncilRuns
import Choreographer.Lib.Streams

namespace Choreographer.DeliberationStreams

open Choreographer.Lib.SortedMaps Choreographer.Lib.Updates Choreographer.Lib.Programs
open Choreographer.Lib.Streams
open Choreographer.Texts Choreographer.Values Choreographer.Contracts Choreographer.Deliberations
open Choreographer.Deliberate Choreographer.WinnerSelection Choreographer.CouncilRuns

section Wire

inductive Code
  | invalidArgument
  | failedPrecondition
  | aborted
  | notFound
  | alreadyExists
deriving DecidableEq

structure Status where
  code : Code
  message : String

def statusCode : DomainError → Code
  | .emptyField _ => .invalidArgument
  | .fieldTooLong _ _ _ => .invalidArgument
  | .invalidCharacters _ => .invalidArgument
  | .outOfRange _ _ _ _ => .invalidArgument
  | .mustBeNonZero _ => .invalidArgument
  | .emptyCollection _ => .invalidArgument
  | .invalidTransition _ _ => .failedPrecondition
  | .invariantViolated _ => .failedPrecondition
  | .noValidProposal _ => .failedPrecondition
  | .conflict _ => .aborted
  | .notFound _ => .notFound
  | .alreadyExists _ => .alreadyExists

def domainErrorToStatus (err : DomainError) : Status := ⟨statusCode err, err.toString⟩

structure DeliberationResult where
  proposal : Option Proposal
  validation : Option ValidationOutcome
  rank : U32

def DeliberationResult.default : DeliberationResult := ⟨none, none, 0⟩

structure DeliberateResponse where
  taskId : String
  results : List DeliberationResult
  winnerProposalId : String
  durationMs : U64

def rankedResult (deliberation : Deliberation) (entry : ProposalId × Nat) :
    Option DeliberationResult := do
  let proposal ← deliberation.proposals.get? entry.1
  let outcome ← deliberation.outcomes.get? entry.1
  pure ⟨some proposal, some outcome, toU32 entry.2⟩

def flattenRanked (deliberation : Deliberation) : List DeliberationResult :=
  deliberation.ranking.zipIdx.filterMap (rankedResult deliberation)

def deliberateResponseFrom (out : DeliberateOutput) : DeliberateResponse where
  taskId := out.deliberation.taskId.asStr
  results := flattenRanked out.deliberation
  winnerProposalId := out.winnerProposalId.asStr
  durationMs := (out.deliberation.duration.map DurationMs.get).getD 0

structure DeliberationUpdate where
  taskId : String
  phase : DeliberationPhase
  emittedAt : Option OffsetDateTime
  payload : Option DeliberationResult

abbrev Item := Except Status DeliberationUpdate

end Wire

section Streaming

abbrev Streaming := ExceptT DomainError (Prog (sending Item calls))

def onPhaseChanged (taskId : TaskId) (phase : DeliberationPhase) (emittedAt : OffsetDateTime) :
    Streaming Unit :=
  sendE (.ok ⟨taskId.asStr, phase, some emittedAt, none⟩)

def advanceWithObserver (deliberation : Deliberation) : Streaming Deliberation := do
  let deliberation ← silentE (checked deliberation.advance)
  let now ← silentE (ask .now)
  onPhaseChanged deliberation.taskId deliberation.phase now
  pure deliberation

def deliberatedWithObserver (self : DeliberateUseCase) (task : Task) :
    Streaming (Deliberation × List RankedOutcome × OffsetDateTime) := do
  let startedAt ← silentE (ask .now)
  let council ← silentE (ExceptT.mk (Prog.call (I := calls) (.council task.specialty)))
  let agents ← silentE (resolveAgents council task.constraints)
  if agents.isEmpty then throw (.emptyCollection "deliberation.agents")
  onPhaseChanged task.id .proposing startedAt
  let now ← silentE (ask .now)
  let (deliberation, ids) ← silentE (seedProposals task now agents
    (Deliberation.start task.id task.specialty task.constraints.rounds startedAt))
  let deliberation ← advanceWithObserver deliberation
  let deliberation ← silentE (runPeerReviewRounds agents ids task.constraints deliberation)
  let deliberation ← advanceWithObserver deliberation
  let deliberation ← silentE (attachValidations self task.constraints deliberation.proposals.keys
    deliberation)
  let deliberation ← advanceWithObserver deliberation
  let completedAt ← silentE (ask .now)
  let (deliberation, ranked) ← silentE (checked (deliberation.complete completedAt))
  onPhaseChanged deliberation.taskId deliberation.phase completedAt
  if task.constraints.outputContract.isSome then
    let (deliberation, ranked) ← silentE (checked (prioritizeValidOutputs deliberation ranked))
    pure (deliberation, ranked, completedAt)
  else pure (deliberation, ranked, completedAt)

def executeWithObserver (self : DeliberateUseCase) (task : Task) : Streaming DeliberateOutput := do
  let (deliberation, ranked, completedAt) ← deliberatedWithObserver self task
  silentE (finalize self deliberation ranked task completedAt)

def finalFrame : Except DomainError DeliberateOutput → Item
  | .ok out =>
    let response := deliberateResponseFrom out
    .ok ⟨response.taskId, .completed, none,
      some (response.results.head?.getD DeliberationResult.default)⟩
  | .error e => .error (domainErrorToStatus e)

def streamDeliberation (self : DeliberateUseCase) (task : Task) : Prog (sending Item calls) Unit := do
  let outcome ← (executeWithObserver self task).run
  send (finalFrame outcome)

/-- How many items wait in the channel of a stream before its sender has to wait too. -/
def channelCapacity : Nat := 16

end Streaming

section Phases

/-- The same task for the same council, in the same phase. -/
structure Same (d d' : Deliberation) : Prop where
  taskId : d'.taskId = d.taskId
  specialty : d'.specialty = d.specialty
  phase : d'.phase = d.phase

theorem Same.refl (d : Deliberation) : Same d d := ⟨rfl, rfl, rfl⟩

theorem Same.trans {d d₁ d₂ : Deliberation} (h : Same d d₁) (h' : Same d₁ d₂) : Same d d₂ where
  taskId := h'.taskId.trans h.taskId
  specialty := h'.specialty.trans h.specialty
  phase := h'.phase.trans h.phase

theorem same_addProposal {d d' : Deliberation} {p : Proposal} (h : d.addProposal p = .ok d') :
    Same d d' := by
  simp only [Deliberation.addProposal, except_bind_eq_ok] at h
  obtain ⟨_, _, h⟩ := h
  split at h
  · simp at h
  · obtain rfl := Except.ok.inj h
    exact ⟨rfl, rfl, rfl⟩

theorem same_reviseProposal {d d' : Deliberation} {id : ProposalId} {content : String}
    {now : OffsetDateTime} (h : d.reviseProposal id content now = .ok d') : Same d d' := by
  simp only [Deliberation.reviseProposal, except_bind_eq_ok] at h
  obtain ⟨_, _, _, _, _, _, h⟩ := h
  obtain rfl := Except.ok.inj h
  exact ⟨rfl, rfl, rfl⟩

theorem same_attachOutcome {d d' : Deliberation} {id : ProposalId} {outcome : ValidationOutcome}
    (h : d.attachOutcome id outcome = .ok d') : Same d d' := by
  simp only [Deliberation.attachOutcome, except_bind_eq_ok] at h
  obtain ⟨_, _, h⟩ := h
  split at h
  · simp at h
  · split at h
    · simp at h
    · obtain rfl := Except.ok.inj h
      exact ⟨rfl, rfl, rfl⟩

theorem advance_ok {d d' : Deliberation} (h : d.advance = .ok d') :
    d'.taskId = d.taskId ∧ d'.specialty = d.specialty ∧ d.phase.next = some d'.phase := by
  simp only [Deliberation.advance] at h
  split at h
  · simp at h
  · next next hnext =>
    split at h
    · simp at h
    · split at h
      · simp at h
      · obtain rfl := Except.ok.inj h
        exact ⟨rfl, rfl, hnext⟩

theorem complete_same {d : Deliberation} {now : OffsetDateTime}
    {x : Deliberation × List RankedOutcome} (h : d.complete now = .ok x) :
    x.1.taskId = d.taskId ∧ x.1.specialty = d.specialty ∧ x.1.phase = .completed := by
  simp only [Deliberation.complete, except_bind_eq_ok] at h
  obtain ⟨_, _, _, _, h⟩ := h
  obtain rfl := Except.ok.inj h
  exact ⟨rfl, rfl, rfl⟩

theorem prioritize_specialty {d : Deliberation} {ranked : List RankedOutcome}
    {x : Deliberation × List RankedOutcome} (h : prioritizeValidOutputs d ranked = .ok x) :
    x.1.specialty = d.specialty := by
  simp only [prioritizeValidOutputs, Deliberation.reprioritize, except_bind_eq_ok] at h
  obtain ⟨_, _, h⟩ := h
  split at h
  · simp at h
  · obtain ⟨_, _, h⟩ := except_bind_eq_ok.mp h
    obtain rfl := Except.ok.inj h
    rfl

variable {w w' : World}

theorem same_seedProposals {task : Task} {now : OffsetDateTime} {agents : List AgentId}
    {d : Deliberation} {x : Deliberation × List ProposalId}
    (h : Returns exec (seedProposals task now agents d).run w (.ok x) w') : Same d x.1 := by
  induction agents generalizing d x w w' with
  | nil =>
    obtain ⟨hr, _⟩ := returns_pure.mp h
    obtain rfl := Except.ok.inj hr
    exact Same.refl _
  | cons agent rest ih =>
    obtain ⟨content, w₁, _, h⟩ := returns_bind_ok.mp h
    obtain ⟨id, w₂, _, h⟩ := returns_bind_ok.mp h
    obtain ⟨p, w₃, _, h⟩ := returns_bind_ok.mp h
    obtain ⟨d₁, w₄, hadd, h⟩ := returns_bind_ok.mp h
    obtain ⟨y, w₅, hrest, h⟩ := returns_bind_ok.mp h
    obtain ⟨hr, _⟩ := returns_pure.mp h
    obtain rfl := Except.ok.inj hr
    obtain ⟨hadd, _⟩ := returns_ofExcept.mp hadd
    have hsame := ih hrest
    exact (same_addProposal hadd.symm).trans hsame

theorem same_reviewRound {constraints : TaskConstraints} {pairs : List (AgentId × ProposalId)}
    {d d' : Deliberation}
    (h : Returns exec (reviewRound constraints pairs d).run w (.ok d') w') : Same d d' := by
  induction pairs generalizing d w with
  | nil =>
    obtain ⟨hr, _⟩ := returns_pure.mp h
    obtain rfl := Except.ok.inj hr
    exact Same.refl _
  | cons pair rest ih =>
    obtain ⟨d₁, w₁, hpeer, h⟩ := returns_bind_ok.mp h
    obtain ⟨_, _, _, hpeer⟩ := returns_bind_ok.mp hpeer
    obtain ⟨_, _, _, hpeer⟩ := returns_bind_ok.mp hpeer
    obtain ⟨_, _, _, hpeer⟩ := returns_bind_ok.mp hpeer
    obtain ⟨_, _, _, hpeer⟩ := returns_bind_ok.mp hpeer
    obtain ⟨hrevise, _⟩ := returns_ofExcept.mp hpeer
    exact (same_reviseProposal hrevise.symm).trans (ih h)

theorem same_reviewRounds {constraints : TaskConstraints} {pairs : List (AgentId × ProposalId)}
    {rounds : Nat} {d d' : Deliberation}
    (h : Returns exec (reviewRounds constraints pairs rounds d).run w (.ok d') w') :
    Same d d' := by
  induction rounds generalizing d w with
  | zero =>
    obtain ⟨hr, _⟩ := returns_pure.mp h
    obtain rfl := Except.ok.inj hr
    exact Same.refl _
  | succ rounds ih =>
    obtain ⟨d₁, w₁, hround, h⟩ := returns_bind_ok.mp h
    exact (same_reviewRound hround).trans (ih h)

theorem same_runPeerReviewRounds {agents : List AgentId} {ids : List ProposalId}
    {constraints : TaskConstraints} {d d' : Deliberation}
    (h : Returns exec (runPeerReviewRounds agents ids constraints d).run w (.ok d') w') :
    Same d d' := by
  simp only [runPeerReviewRounds] at h
  split at h
  · obtain ⟨hr, _⟩ := returns_pure.mp h
    obtain rfl := Except.ok.inj hr
    exact Same.refl _
  · split at h
    · obtain ⟨hr, _⟩ := returns_ofExcept.mp h
      simp at hr
    · exact same_reviewRounds h

theorem same_attachValidations {self : DeliberateUseCase} {constraints : TaskConstraints}
    {ids : List ProposalId} {d d' : Deliberation}
    (h : Returns exec (attachValidations self constraints ids d).run w (.ok d') w') :
    Same d d' := by
  induction ids generalizing d w with
  | nil =>
    obtain ⟨hr, _⟩ := returns_pure.mp h
    obtain rfl := Except.ok.inj hr
    exact Same.refl _
  | cons id rest ih =>
    obtain ⟨_, _, _, h⟩ := returns_bind_ok.mp h
    obtain ⟨_, _, _, h⟩ := returns_bind_ok.mp h
    obtain ⟨_, _, _, h⟩ := returns_bind_ok.mp h
    obtain ⟨d₁, _, hattach, h⟩ := returns_bind_ok.mp h
    obtain ⟨hattach, _⟩ := returns_ofExcept.mp hattach
    exact (same_attachOutcome hattach.symm).trans (ih h)

theorem advance_specialty {d d' : Deliberation}
    (h : Returns exec (checked d.advance).run w (.ok d') w') : d'.specialty = d.specialty :=
  (advance_ok (returns_ofExcept.mp h).1.symm).2.1

/-- A deliberation is for the council that its task names. -/
theorem deliberated_specialty {self : DeliberateUseCase} {task : Task}
    {x : Deliberation × List RankedOutcome × OffsetDateTime}
    (h : Returns exec (deliberated self task).run w (.ok x) w') :
    x.1.specialty = task.specialty := by
  obtain ⟨startedAt, _, -, h⟩ := returns_bind_ok.mp h
  obtain ⟨council, _, -, h⟩ := returns_bind_ok.mp h
  obtain ⟨agents, _, -, h⟩ := returns_bind_ok.mp h
  dsimp only at h
  split at h
  · obtain ⟨_, _, hthrow, -⟩ := returns_bind_ok.mp h
    simpa using (returns_ofExcept.mp hthrow).1
  obtain ⟨now, _, -, h⟩ := returns_bind_ok.mp h
  obtain ⟨seeded, _, hseeded, h⟩ := returns_bind_ok.mp h
  obtain ⟨d₁, _, hrevising, h⟩ := returns_bind_ok.mp h
  obtain ⟨d₂, _, hreviewed, h⟩ := returns_bind_ok.mp h
  obtain ⟨d₃, _, hvalidating, h⟩ := returns_bind_ok.mp h
  obtain ⟨d₄, _, hattached, h⟩ := returns_bind_ok.mp h
  obtain ⟨d₅, _, hscoring, h⟩ := returns_bind_ok.mp h
  obtain ⟨completedAt, _, -, h⟩ := returns_bind_ok.mp h
  obtain ⟨y, _, hcompleted, h⟩ := returns_bind_ok.mp h
  have hscored : d₅.specialty = task.specialty := by
    rw [advance_specialty hscoring, (same_attachValidations hattached).specialty,
      advance_specialty hvalidating, (same_runPeerReviewRounds hreviewed).specialty,
      advance_specialty hrevising, (same_seedProposals hseeded).specialty]
    rfl
  have hsealed : y.1.specialty = task.specialty :=
    (complete_same (returns_ofExcept.mp hcompleted).1.symm).2.1.trans hscored
  split at h
  · obtain ⟨z, _, hprioritized, h⟩ := returns_bind_ok.mp h
    obtain rfl := Except.ok.inj (returns_pure.mp h).1
    exact (prioritize_specialty (returns_ofExcept.mp hprioritized).1.symm).trans hsealed
  · obtain rfl := Except.ok.inj (returns_pure.mp h).1
    exact hsealed

end Phases

section Stages

/-- Until the agents are told what to propose on. -/
def opened (task : Task) : Council.Run (OffsetDateTime × List AgentId) := do
  let startedAt ← ask .now
  let council ← ExceptT.mk (Prog.call (I := calls) (.council task.specialty))
  let agents ← resolveAgents council task.constraints
  if agents.isEmpty then throw (.emptyCollection "deliberation.agents")
  pure (startedAt, agents)

def proposed (task : Task) (x : OffsetDateTime × List AgentId) :
    Council.Run (List AgentId × List ProposalId × Deliberation) := do
  let now ← ask .now
  let (deliberation, ids) ← seedProposals task now x.2
    (Deliberation.start task.id task.specialty task.constraints.rounds x.1)
  let deliberation ← checked deliberation.advance
  pure (x.2, ids, deliberation)

def revised (task : Task) (x : List AgentId × List ProposalId × Deliberation) :
    Council.Run Deliberation := do
  let deliberation ← runPeerReviewRounds x.1 x.2.1 task.constraints x.2.2
  checked deliberation.advance

def validated (self : DeliberateUseCase) (task : Task) (deliberation : Deliberation) :
    Council.Run Deliberation := do
  let deliberation ← attachValidations self task.constraints deliberation.proposals.keys
    deliberation
  checked deliberation.advance

def scored (deliberation : Deliberation) :
    Council.Run (Deliberation × List RankedOutcome × OffsetDateTime) := do
  let completedAt ← ask .now
  let (deliberation, ranked) ← checked (deliberation.complete completedAt)
  pure (deliberation, ranked, completedAt)

def concluded (self : DeliberateUseCase) (task : Task)
    (x : Deliberation × List RankedOutcome × OffsetDateTime) : Council.Run DeliberateOutput := do
  let (deliberation, ranked) ←
    if task.constraints.outputContract.isSome then checked (prioritizeValidOutputs x.1 x.2.1)
    else pure (x.1, x.2.1)
  finalize self deliberation ranked task x.2.2

variable (self : DeliberateUseCase) (task : Task)

/-- How far a deliberation came that failed: the phases that it entered, and that it is the
last of them in which it failed. -/
inductive CameTo (w : World) (e : DomainError) (w' : World) : List DeliberationPhase → Prop
  | opening : Returns exec (opened task).run w (.error e) w' → CameTo w e w' []
  | proposing {x v} : Returns exec (opened task).run w (.ok x) v →
      Returns exec (proposed task x).run v (.error e) w' → CameTo w e w' [.proposing]
  | revising {x v} : Returns exec (opened task >>= proposed task).run w (.ok x) v →
      Returns exec (revised task x).run v (.error e) w' → CameTo w e w' [.proposing, .revising]
  | validating {d v} :
      Returns exec (opened task >>= proposed task >>= revised task).run w (.ok d) v →
      Returns exec (validated self task d).run v (.error e) w' →
      CameTo w e w' [.proposing, .revising, .validating]
  | scoring {d v} :
      Returns exec (opened task >>= proposed task >>= revised task >>= validated self task).run w
        (.ok d) v →
      Returns exec (scored d).run v (.error e) w' →
      CameTo w e w' [.proposing, .revising, .validating, .scoring]
  | completed {x v} :
      Returns exec (opened task >>= proposed task >>= revised task >>= validated self task >>=
        scored).run w (.ok x) v →
      Returns exec (concluded self task x).run v (.error e) w' →
      CameTo w e w' [.proposing, .revising, .validating, .scoring, .completed]

theorem deliberate_stages : deliberate self task =
    opened task >>= proposed task >>= revised task >>= validated self task >>= scored >>=
      concluded self task := by
  unfold deliberate deliberated opened proposed revised validated scored concluded
  simp only [bindE_assoc]
  refine congrArg (_ >>= ·) (funext fun startedAt => ?_)
  refine congrArg (_ >>= ·) (funext fun council => ?_)
  refine congrArg (_ >>= ·) (funext fun agents => ?_)
  split
  · rfl
  · simp only [bindE_assoc, pureE_bind]
    cases task.constraints.outputContract.isSome
    · simp only [Bool.false_eq_true, if_false, pureE_bind]
    · simp only [if_true, bindE_assoc, pureE_bind]

def onAdvanced (deliberation : Deliberation) : Streaming Unit := do
  let now ← silentE (ask .now)
  onPhaseChanged deliberation.taskId deliberation.phase now

theorem executeWithObserver_stages : executeWithObserver self task =
    staged (opened task) (fun x => onPhaseChanged task.id .proposing x.1) >>=
      (fun x => staged (proposed task x) fun y => onAdvanced y.2.2) >>=
      (fun x => staged (revised task x) onAdvanced) >>=
      (fun d => staged (validated self task d) onAdvanced) >>=
      (fun d => staged (scored d) fun x => onPhaseChanged x.1.taskId x.1.phase x.2.2) >>=
      fun x => silentE (concluded self task x) := by
  unfold executeWithObserver deliberatedWithObserver opened proposed revised validated scored
    concluded advanceWithObserver staged onAdvanced
  simp only [bindE_assoc, silentE_bind]
  refine congrArg (_ >>= ·) (funext fun startedAt => ?_)
  refine congrArg (_ >>= ·) (funext fun council => ?_)
  refine congrArg (_ >>= ·) (funext fun agents => ?_)
  split
  · rfl
  · simp only [bindE_assoc, pureE_bind, silentE_pure]
    cases task.constraints.outputContract.isSome
    · simp only [Bool.false_eq_true, if_false, pureE_bind]
    · simp only [if_true, bindE_assoc, pureE_bind, silentE_bind]

end Stages

section Observed

/-- A frame that tells of a phase of a task. -/
def Shows (taskId : TaskId) (phase : DeliberationPhase) (item : Item) : Prop :=
  ∃ emittedAt, item = .ok ⟨taskId.asStr, phase, some emittedAt, none⟩

def pipeline : List DeliberationPhase :=
  [.proposing, .revising, .validating, .scoring, .completed]

variable {self : DeliberateUseCase} {task : Task} {w w' : World}

theorem still_now (w : World) (a : OffsetDateTime) (w' : World)
    (h : Returns exec (Prog.call (I := calls) .now) w a w') : w' = w :=
  returns_call.mp h

theorem answered_now (w : World) : ∃ a, Returns exec (Prog.call (I := calls) .now) w a w :=
  ⟨epoch, .ask (a := epoch) rfl (.done _ _)⟩

/-- The deliberation of this task has come to this phase. -/
structure Entered (task : Task) (phase : DeliberationPhase) (d : Deliberation) : Prop where
  taskId : d.taskId = task.id
  phase : d.phase = phase

theorem Entered.advanced {phase next : DeliberationPhase} {d d₁ d' : Deliberation}
    (h : Entered task phase d) (hsame : Same d d₁) (hnext : phase.next = some next)
    (hadvance : Returns exec (checked d₁.advance).run w (.ok d') w') : Entered task next d' := by
  obtain ⟨hid, -, hphase⟩ := advance_ok (returns_ofExcept.mp hadvance).1.symm
  rw [hsame.phase, h.phase, hnext] at hphase
  exact ⟨hid.trans (hsame.taskId.trans h.taskId), (Option.some.inj hphase).symm⟩

theorem entered_proposed {x : OffsetDateTime × List AgentId}
    {y : List AgentId × List ProposalId × Deliberation}
    (h : Returns exec (proposed task x).run w (.ok y) w') : Entered task .revising y.2.2 := by
  obtain ⟨_, _, -, h⟩ := returns_bind_ok.mp h
  obtain ⟨z, _, hseed, h⟩ := returns_bind_ok.mp h
  obtain ⟨d, _, hadvance, h⟩ := returns_bind_ok.mp h
  obtain rfl := Except.ok.inj (returns_pure.mp h).1
  exact Entered.advanced ⟨rfl, rfl⟩ (same_seedProposals hseed) rfl hadvance

theorem entered_revised {x : List AgentId × List ProposalId × Deliberation} {d : Deliberation}
    (hx : Entered task .revising x.2.2) (h : Returns exec (revised task x).run w (.ok d) w') :
    Entered task .validating d := by
  obtain ⟨_, _, hreview, hadvance⟩ := returns_bind_ok.mp h
  exact hx.advanced (same_runPeerReviewRounds hreview) rfl hadvance

theorem entered_validated {d d' : Deliberation} (hd : Entered task .validating d)
    (h : Returns exec (validated self task d).run w (.ok d') w') : Entered task .scoring d' := by
  obtain ⟨_, _, hattach, hadvance⟩ := returns_bind_ok.mp h
  exact hd.advanced (same_attachValidations hattach) rfl hadvance

theorem entered_scored {d : Deliberation} {x : Deliberation × List RankedOutcome × OffsetDateTime}
    (hd : Entered task .scoring d) (h : Returns exec (scored d).run w (.ok x) w') :
    Entered task .completed x.1 := by
  obtain ⟨_, _, -, h⟩ := returns_bind_ok.mp h
  obtain ⟨y, _, hcomplete, h⟩ := returns_bind_ok.mp h
  obtain ⟨hid, -, hphase⟩ := complete_same (returns_ofExcept.mp hcomplete).1.symm
  obtain rfl := Except.ok.inj (returns_pure.mp h).1
  exact ⟨hid.trans hd.taskId, hphase⟩

theorem announces_phase {phase : DeliberationPhase} {d : Deliberation} (h : Entered task phase d)
    (emittedAt : OffsetDateTime) :
    Announces exec (Shows task.id) (onPhaseChanged d.taskId d.phase emittedAt) phase := by
  apply Announces.send
  exact ⟨emittedAt, by rw [h.taskId, h.phase]⟩

theorem announces_advanced {phase : DeliberationPhase} {d : Deliberation}
    (h : Entered task phase d) : Announces exec (Shows task.id) (onAdvanced d) phase :=
  Announces.skip still_now answered_now fun now => announces_phase h now

theorem tells_execute : Tells exec (Shows task.id) (executeWithObserver self task)
    (deliberate self task) pipeline (fun _ => True) (CameTo self task) := by
  rw [executeWithObserver_stages, deliberate_stages]
  have hopened : Tells exec (Shows task.id)
      (staged (opened task) fun x => onPhaseChanged task.id .proposing x.1) (opened task)
      [.proposing] (fun _ => True) (CameTo self task) :=
    Tells.stage (fun _ _ _ _ => trivial) (fun x _ => Announces.send ⟨x.1, rfl⟩)
      fun _ _ _ => .opening
  have hproposed := hopened.bind (f := fun x => staged (proposed task x) fun y => onAdvanced y.2.2)
    (fun x _ => Tells.stage (fun _ _ _ => entered_proposed) (fun _ => announces_advanced)
      fun _ _ _ _ => rfl) fun _ _ _ _ _ => .proposing
  have hrevised := hproposed.bind (f := fun x => staged (revised task x) onAdvanced)
    (fun x hx => Tells.stage (fun _ _ _ => entered_revised hx) (fun _ => announces_advanced)
      fun _ _ _ _ => rfl) fun _ _ _ _ _ => .revising
  have hvalidated := hrevised.bind (f := fun d => staged (validated self task d) onAdvanced)
    (fun d hd => Tells.stage (fun _ _ _ => entered_validated hd) (fun _ => announces_advanced)
      fun _ _ _ _ => rfl) fun _ _ _ _ _ => .validating
  have hscored := hvalidated.bind
    (f := fun d => staged (scored d) fun x => onPhaseChanged x.1.taskId x.1.phase x.2.2)
    (fun d hd => Tells.stage (fun _ _ _ => entered_scored hd) (fun x hx => announces_phase hx x.2.2)
      fun _ _ _ _ => rfl) fun _ _ _ _ _ => .scoring
  exact hscored.bind (fun x _ => Tells.silent (fun _ _ _ _ => trivial) fun _ _ _ _ => rfl)
    fun _ _ _ _ _ => .completed

end Observed

section Results

variable {self : DeliberateUseCase} {task : Task} {w w' : World}

theorem head_of_closed {d : Deliberation} {ranked : List RankedOutcome} {c : RankedOutcome}
    (h : Closed task d ranked) (hw : pickWinner ranked task.constraints = .ok c) :
    d.ranking.head? = some c.proposal.id := by
  obtain ⟨-, sorted, ts, hsealed, rfl, -, hts⟩ := h
  cases hc : task.constraints.outputContract with
  | none =>
    apply head_ranking hsealed
    simpa only [pickWinner, hc, okOr_eq_ok] using hw
  | some contract =>
    rw [hc, Option.isSome_some, if_pos rfl] at hts
    subst hts
    rw [pickWinner_contract hc, okOr_eq_ok] at hw
    have hfind := find_valid sorted
    rw [hw] at hfind
    cases hp : passing sorted with
    | nil => simp [hp] at hfind
    | cons t rest =>
      rw [hp] at hfind
      have hid : c.proposal.id = t.1 := by
        rw [show c.proposal = t.2.1 from congrArg Prod.fst (Option.some.inj hfind)]
        exact hsealed.id_eq (by simp [hp])
      rw [hsealed.ranking, hp, hid]
      rfl

/-- What is first in a sealed ranking is first among the results, with all that is known
of it. -/
theorem head_flattenRanked {d : Deliberation} {ts : List Tuple} {id : ProposalId}
    (h : Sealed d ts) (hid : d.ranking.head? = some id) :
    ∃ proposal validation, d.proposals.get? id = some proposal ∧
      d.outcomes.get? id = some validation ∧
      (flattenRanked d).head? = some ⟨some proposal, some validation, 0⟩ := by
  have hranking := h.ranking
  cases ts with
  | nil => simp [hranking] at hid
  | cons t rest =>
    obtain ⟨hproposal, hvalidation⟩ := h.stored t (List.mem_cons_self ..)
    rw [hranking, List.map_cons, List.head?_cons] at hid
    obtain rfl := Option.some.inj hid
    refine ⟨t.2.1, t.2.2, hproposal, hvalidation, ?_⟩
    rw [flattenRanked, hranking, List.map_cons, List.zipIdx_cons, List.filterMap_cons]
    simp only [rankedResult, hproposal, hvalidation]
    rfl

theorem finalFrame_ok {out : DeliberateOutput}
    (h : Returns exec (deliberate self task).run w (.ok out) w') :
    ∃ proposal validation, out.deliberation.proposals.get? out.winnerProposalId = some proposal ∧
      out.deliberation.outcomes.get? out.winnerProposalId = some validation ∧
      finalFrame (.ok out) =
        .ok ⟨task.id.asStr, .completed, none, some ⟨some proposal, some validation, 0⟩⟩ := by
  obtain ⟨ranked, c, hclosed, -, hpick, hwinner⟩ := deliberate_ok h
  have hfirst := head_of_closed hclosed hpick
  obtain ⟨hid, _, ts, hsealed, -⟩ := hclosed
  obtain ⟨proposal, validation, hproposal, hvalidation, hhead⟩ := head_flattenRanked hsealed hfirst
  rw [hwinner]
  refine ⟨proposal, validation, hproposal, hvalidation, ?_⟩
  simp only [finalFrame, deliberateResponseFrom, hhead, hid, Option.getD_some]

/-- Something was asked for, but not that a deliberation of this task be filed. -/
def Elsewhere (taskId : TaskId) (w v : World) : Prop :=
  ∃ c a, exec c w a v ∧ ∀ d, c = .save d → d.taskId ≠ taskId

end Results

/-- A stream is its deliberation, told. Whoever reads it, and whenever the reader leaves,
the deliberation runs as one that nobody watches, and every such run can be told. The
frames are its phases in order, each once and of this task, as far as it came, and then
the winner or what went wrong; they fit into the channel, and what has arrived is all of
this, or the part of it that was sent before the reader left. -/
theorem stream_tells_deliberation (self : DeliberateUseCase) (task : Task) (w w' : World) :
    (∀ sink, Returns (attached exec) (streamDeliberation self task) (w, Sink.fresh Item) ()
        (w', sink) →
      ∃ outcome shown frames, Returns exec (deliberate self task).run w outcome w' ∧
        List.Forall₂ (Shows task.id) shown frames ∧ shown <+: pipeline ∧
        (∀ out, outcome = .ok out → shown = pipeline ∧
          ∃ proposal validation,
            out.deliberation.proposals.get? out.winnerProposalId = some proposal ∧
            out.deliberation.outcomes.get? out.winnerProposalId = some validation ∧
            finalFrame outcome =
              .ok ⟨task.id.asStr, .completed, none, some ⟨some proposal, some validation, 0⟩⟩) ∧
        (∀ e, outcome = .error e → CameTo self task w e w' shown ∧
          finalFrame outcome = .error (domainErrorToStatus e)) ∧
        (frames ++ [finalFrame outcome]).length ≤ channelCapacity ∧
        sink.received <+: frames ++ [finalFrame outcome] ∧
        (sink.isOpen = true → sink.received = frames ++ [finalFrame outcome])) ∧
    ∀ outcome, Returns exec (deliberate self task).run w outcome w' →
      ∃ frames, Returns (attached exec) (streamDeliberation self task) (w, Sink.fresh Item) ()
        (w', ⟨frames ++ [finalFrame outcome], true⟩) := by
  refine ⟨fun sink h => ?_, fun outcome h => ?_⟩
  · obtain ⟨outcome, v, hrun, hsend⟩ := returns_bind.mp h
    obtain ⟨hdeliberate, shown, frames, hshows, hafter, hshown, hall, hcame⟩ :=
      tells_execute.told _ _ _ hrun
    obtain ⟨hw, hlast⟩ := returns_send hsend
    have hw' : w' = v.1 := hw
    subst hw'
    refine ⟨outcome, shown, frames, hdeliberate, hshows, hshown, ?_, ?_, ?_, ?_⟩
    · rintro out rfl
      exact ⟨(hall out rfl).2, finalFrame_ok hdeliberate⟩
    · rintro e rfl
      exact ⟨hcame e rfl, rfl⟩
    · have hlength := hshown.length_le
      rw [hshows.length_eq] at hlength
      simp only [pipeline, List.length_cons, List.length_nil] at hlength
      simp only [List.length_append, List.length_cons, List.length_nil, channelCapacity]
      omega
    · obtain ⟨-, rfl⟩ | ⟨hclosed, got, hgot, hreceived, -⟩ := hafter.append hlast
      · exact ⟨List.prefix_refl _, fun _ => rfl⟩
      · refine ⟨?_, fun hopen => ?_⟩
        · rw [hreceived]
          exact hgot
        · exact absurd (hclosed.symm.trans hopen) Bool.false_ne_true
  · obtain ⟨frames, hrun⟩ := tells_execute.tellable _ _ _ [] h
    exact ⟨frames, returns_bind.mpr ⟨outcome, _, hrun, sends _ _ _⟩⟩

end Choreographer.DeliberationStreams
