import Choreographer.Values

namespace Choreographer.Deliberations

open Choreographer.Lib.SortedMaps Choreographer.Lib.Updates
open Choreographer.Texts Choreographer.Values

def oneBits : Nat := 0x3FF0000000000000
def negZeroBits : Nat := 0x8000000000000000

/-- A quality in the unit interval, as the bits of a double. -/
structure Score where
  bits : U64
  valid : bits.val ≤ oneBits ∨ bits.val = negZeroBits

namespace Score

/-- Between zero and one, doubles are ordered as their bits are, but the two zeros
are equal. -/
def key (self : Score) : Nat := if self.bits.val = negZeroBits then 0 else self.bits.val

def cmp (self other : Score) : Ordering := compare self.key other.key

end Score

structure ValidatorReport where
  kind : String
  passed : Bool
  summary : String
  details : Attributes
  named : trim kind ≠ ""

def ValidatorReport.new (kind : String) (passed : Bool) (summary : String) (details : Attributes) :
    Except DomainError ValidatorReport :=
  if h : trim kind = "" then .error (.emptyField "validator_report.kind")
  else .ok ⟨kind, passed, summary, details, h⟩

structure ValidationOutcome where
  score : Score
  reports : List ValidatorReport

def ValidationOutcome.allPassed (self : ValidationOutcome) : Bool :=
  self.reports.all ValidatorReport.passed

structure Proposal where
  id : ProposalId
  author : AgentId
  specialty : Specialty
  content : String
  attributes : Attributes
  createdAt : OffsetDateTime
  updatedAt : OffsetDateTime
  revisionCount : U32

namespace Proposal

def new (id : ProposalId) (author : AgentId) (specialty : Specialty) (content : String)
    (attributes : Attributes) (now : OffsetDateTime) : Except DomainError Proposal :=
  if trim content = "" then .error (.emptyField "proposal.content")
  else .ok ⟨id, author, specialty, content, attributes, now, now, 0⟩

def revise (self : Proposal) (newContent : String) (now : OffsetDateTime) :
    Except DomainError Proposal :=
  if trim newContent = "" then .error (.emptyField "proposal.content")
  else .ok { self with
    content := newContent
    updatedAt := now
    revisionCount := saturatingSucc self.revisionCount }

end Proposal

inductive DeliberationPhase
  | proposing
  | revising
  | validating
  | scoring
  | completed
deriving DecidableEq

namespace DeliberationPhase

def name : DeliberationPhase → String
  | .proposing => "Proposing"
  | .revising => "Revising"
  | .validating => "Validating"
  | .scoring => "Scoring"
  | .completed => "Completed"

def next : DeliberationPhase → Option DeliberationPhase
  | .proposing => some .revising
  | .revising => some .validating
  | .validating => some .scoring
  | .scoring => some .completed
  | .completed => none

end DeliberationPhase

/-- A proposal paired with what was made of it and its place. -/
structure RankedOutcome where
  proposal : Proposal
  outcome : ValidationOutcome
  rank : U32

/-- One deliberation over one task. A proposal is filed under its own id. -/
structure Deliberation where
  taskId : TaskId
  specialty : Specialty
  roundsBudget : U32
  phase : DeliberationPhase
  proposals : OrdMap ProposalId Proposal
  outcomes : OrdMap ProposalId ValidationOutcome
  ranking : List ProposalId
  startedAt : OffsetDateTime
  completedAt : Option OffsetDateTime
  filed : ∀ id p, proposals.get? id = some p → p.id = id

def toU32 (n : Nat) : U32 := ⟨min n (2 ^ 32 - 1), by omega⟩

/-- A proposal with its id and what was made of it. -/
abbrev Tuple := ProposalId × Proposal × ValidationOutcome

def ranksBefore (a b : Tuple) : Bool :=
  ((b.2.2.score.cmp a.2.2.score).then (compare a.1 b.1)).isLE

def numbered (tuples : List Tuple) : List RankedOutcome :=
  tuples.mapIdx fun i t => ⟨t.2.1, t.2.2, toU32 i⟩

namespace Deliberation

def start (taskId : TaskId) (specialty : Specialty) (roundsBudget : U32) (now : OffsetDateTime) :
    Deliberation where
  taskId
  specialty
  roundsBudget
  phase := .proposing
  proposals := OrdMap.empty
  outcomes := OrdMap.empty
  ranking := []
  startedAt := now
  completedAt := none
  filed := by simp

variable (self : Deliberation)

def requirePhase (expected : DeliberationPhase) : Except DomainError Unit :=
  if self.phase = expected then .ok ()
  else .error (.invalidTransition self.phase.name expected.name)

theorem filed_insert (proposal : Proposal) (id : ProposalId) (p : Proposal)
    (h : (self.proposals.insert proposal.id proposal).get? id = some p) : p.id = id := by
  rw [OrdMap.get?_insert] at h
  split at h
  · next hid =>
    rw [← Option.some.inj h, hid]
  · exact self.filed id p h

def addProposal (proposal : Proposal) : Except DomainError Deliberation := do
  self.requirePhase .proposing
  if self.proposals.contains proposal.id then .error (.alreadyExists "deliberation.proposal")
  else pure { self with
    proposals := self.proposals.insert proposal.id proposal
    filed := self.filed_insert proposal }

def reviseProposal (proposalId : ProposalId) (newContent : String) (now : OffsetDateTime) :
    Except DomainError Deliberation := do
  self.requirePhase .revising
  let proposal ← okOr (self.proposals.get? proposalId) (.notFound "deliberation.proposal")
  let proposal ← proposal.revise newContent now
  pure { self with
    proposals := self.proposals.insert proposal.id proposal
    filed := self.filed_insert proposal }

def attachOutcome (proposalId : ProposalId) (outcome : ValidationOutcome) :
    Except DomainError Deliberation := do
  self.requirePhase .validating
  if !self.proposals.contains proposalId then .error (.notFound "deliberation.proposal")
  else if self.outcomes.contains proposalId then .error (.alreadyExists "deliberation.outcome")
  else pure { self with outcomes := self.outcomes.insert proposalId outcome }

def advance : Except DomainError Deliberation :=
  match self.phase.next with
  | none => .error (.invalidTransition "Completed" "Completed")
  | some next =>
    if self.phase = .proposing && self.proposals.size == 0 then
      .error (.invariantViolated "cannot leave Proposing without proposals")
    else if self.phase = .validating && self.outcomes.size != self.proposals.size then
      .error (.invariantViolated "every proposal must have an outcome before Scoring")
    else .ok { self with phase := next }

def materialize (id : ProposalId) : Except DomainError Tuple := do
  let proposal ← okOr (self.proposals.get? id) (.invariantViolated "missing proposal in ranking")
  let outcome ← okOr (self.outcomes.get? id) (.invariantViolated "missing outcome at Scoring")
  pure (id, proposal, outcome)

def materializeRankedTuples (ranking : List ProposalId) : Except DomainError (List Tuple) :=
  ranking.mapM self.materialize

def complete (now : OffsetDateTime) : Except DomainError (Deliberation × List RankedOutcome) := do
  self.requirePhase .scoring
  let tuples ← self.materializeRankedTuples self.proposals.keys
  let ranked := tuples.mergeSort ranksBefore
  pure ({ self with
      ranking := ranked.map Prod.fst
      phase := .completed
      completedAt := some now },
    numbered ranked)

def reprioritize (ranking : List ProposalId) :
    Except DomainError (Deliberation × List RankedOutcome) := do
  self.requirePhase .completed
  if ranking.length ≠ self.ranking.length ∨
      (OrdSet.ofList self.ranking).keys ≠ (OrdSet.ofList ranking).keys then
    .error (.invariantViolated
      "reprioritized ranking must contain every completed proposal exactly once")
  else
    let ranked ← self.materializeRankedTuples ranking
    pure ({ self with ranking }, numbered ranked)

def rankedOutcomes : Except DomainError (List RankedOutcome) := do
  self.requirePhase .completed
  let ranked ← self.materializeRankedTuples self.ranking
  pure (numbered ranked)

/-- From start to completion, in whole milliseconds; nothing if the clock went back. -/
def duration : Option DurationMs :=
  self.completedAt.map fun ended =>
    let millis := (ended.nanos - self.startedAt.nanos).tdiv 1000000
    if h : 0 ≤ millis ∧ millis < 2 ^ 64 then ⟨⟨millis.toNat, by omega⟩⟩ else DurationMs.zero

end Deliberation

end Choreographer.Deliberations
