import Choreographer.Lib.SortedMaps
import Choreographer.Lib.ByteStrings
import Choreographer.Lib.Programs
import Choreographer.Lib.Updates
import Choreographer.Texts
import Choreographer.Values
import Choreographer.Steps
import Choreographer.DefinitionParts
import Choreographer.Definition
import Choreographer.Acceptance
import Choreographer.Drafts
import Choreographer.Diffs
import Choreographer.Agenda
import Choreographer.Instance
import Choreographer.DefinitionDigests
import Choreographer.DiffCompleteness
import Choreographer.Operations
import Choreographer.StrandedSessions
import Choreographer.Frozen
import Choreographer.TransitionLog
import Choreographer.Lifecycle
import Choreographer.HumanGuards
import Choreographer.Audit
import Choreographer.TamperEvidence
import Choreographer.InMemory
import Choreographer.Redb
import Choreographer.RedbTables
import Choreographer.OutboxClaims
import Choreographer.PublishOutbox
import Choreographer.OutboxDelivery
import Choreographer.ClaimExclusion
import Choreographer.Contracts
import Choreographer.Deliberations
import Choreographer.Deliberate
import Choreographer.WinnerSelection
import Choreographer.CouncilRuns
import Choreographer.EvidenceGates
import Choreographer.OutputValidators
import Choreographer.StepConfig
import Choreographer.DeclaredContracts
import Choreographer.StoreRefinement
import Choreographer.SessionJournal
import Choreographer.SessionLog
import Choreographer.LostUpdates
import Choreographer.SessionFacts
import Choreographer.UseCases
import Choreographer.Histories
import Choreographer.UseCaseRuns
import Choreographer.Fencing
import Choreographer.JournalAgreement
import Choreographer.EventIds
import Choreographer.Publications
import Choreographer.BoundSessions
import Choreographer.Works
import Choreographer.Recordable
import Choreographer.SoleRuns
import Choreographer.DrivenSessions
import Choreographer.DriverVerbs
import Choreographer.SafetyLimit
import Choreographer.Lib.Runs
import Choreographer.CompletedDeliberations
import Choreographer.AgendaIntegrity
import Choreographer.SessionRecords
import Choreographer.ReasonGraph
import Choreographer.Testimony
import Choreographer.MemoryValues
import Choreographer.SessionMemory
import Choreographer.MemoryProjection
import Choreographer.MemoryRecorder
import Choreographer.MemoryRuns
import Choreographer.MemoryShelves
import Choreographer.DanglingReasons
import Choreographer.GuardMemory
import Choreographer.TimeTravel
import Choreographer.PeerReview
import Choreographer.Lib.Graphs
import Choreographer.Reachability
import Choreographer.Following
import Choreographer.Refusals
import Choreographer.HumanWaits
import Choreographer.Designs
import Choreographer.DesignedDrafts
import Choreographer.DeliberationSteps
import Choreographer.Orchestrate
import Choreographer.KernelPages
import Choreographer.KernelReads
import Choreographer.Participants
import Choreographer.PreparedSteps
import Choreographer.DesignedCeremonies
import Choreographer.Chains
import Choreographer.DesignedRuns
import Choreographer.KernelReferences
import Choreographer.Lib.Brackets
import Choreographer.Lib.Padding
import Choreographer.Lib.Readers
import Choreographer.Documents
import Choreographer.EventShapes
import Choreographer.JsonTexts
import Choreographer.KernelDetails
import Choreographer.Fences
import Choreographer.Lib.Quotations
import Choreographer.JsonFrames
import Choreographer.Lib.Lines
import Choreographer.KernelPipes
import Choreographer.Lib.Pairings
import Choreographer.KernelWrites
import Choreographer.ToolCatalog
import Choreographer.ToolServer
import Choreographer.Lib.Debts
import Choreographer.RuntimeExecutor
import Choreographer.Lib.Registers
import Choreographer.Councils
import Choreographer.Lib.Streams
import Choreographer.DeliberationStreams
import Choreographer.AutoDispatch
import Choreographer.StepHandlers
import Choreographer.OutboxDrains
