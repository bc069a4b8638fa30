import Choreographer.DefinitionParts

namespace Choreographer.Agenda

open Choreographer.Lib.SortedMaps Choreographer.Lib.Updates
open Choreographer.Texts Choreographer.Values

structure CeremonyInterventionContent where
  message : InterventionMessage
  details : Attributes

def CeremonyInterventionContent.new (message : String) (details : Attributes) :
    Except DomainError CeremonyInterventionContent := do
  let message ← Text.new message
  pure ⟨message, details⟩

inductive CeremonyInterventionKind
  | opinion
  | investigation
  | action
deriving DecidableEq, Repr

inductive CeremonyInterventionTarget
  | table
  | roles (roleIds : OrdSet RoleId)

namespace CeremonyInterventionTarget

def accepts (self : CeremonyInterventionTarget) (roleId : RoleId) : Bool :=
  match self with
  | .table => true
  | .roles roleIds => roleIds.contains roleId

def roleIds : CeremonyInterventionTarget → Option (OrdSet RoleId)
  | .table => none
  | .roles roleIds => some roleIds

end CeremonyInterventionTarget

structure CeremonyInterventionProvenance where
  sourceInterventionId : CeremonyInterventionId
  sourceResponseRoleId : RoleId
  selectedRoleId : RoleId
deriving DecidableEq

/-- Of an item of a bundle, what memory keeps a reference by. -/
structure ExternalContextItem where
  itemId : String
  kind : String
  title : String

/-- Evidence a source collected. Of the bundle it carries, the code reads the
summary and the items; `serialized` is what the JSON serializer makes of the whole pack. -/
structure CeremonyEvidencePack where
  sourceId : CeremonyEvidenceSourceId
  summary : Option String
  items : List ExternalContextItem
  serialized : Option Value
  collectedAt : OffsetDateTime

def CeremonyEvidencePack.interventionContent (self : CeremonyEvidencePack) :
    Except DomainError CeremonyInterventionContent := do
  let summary ← okOr self.summary
    (.invariantViolated "ceremony evidence pack must retain its summary")
  let serialized ← okOr self.serialized
    (.invariantViolated "ceremony evidence pack could not be represented as attributes")
  let details ← Attributes.new (OrdMap.empty.insert "evidence_pack" serialized)
  CeremonyInterventionContent.new summary details

structure CeremonyInterventionResponse where
  roleId : RoleId
  content : CeremonyInterventionContent
  evidencePack : Option CeremonyEvidencePack
  respondedAt : OffsetDateTime

def CeremonyInterventionResponse.new (roleId : RoleId) (content : CeremonyInterventionContent)
    (respondedAt : OffsetDateTime) : CeremonyInterventionResponse :=
  ⟨roleId, content, none, respondedAt⟩

def CeremonyInterventionResponse.fromEvidence (roleId : RoleId)
    (evidencePack : CeremonyEvidencePack) (respondedAt : OffsetDateTime) :
    Except DomainError CeremonyInterventionResponse := do
  let content ← evidencePack.interventionContent
  pure ⟨roleId, content, some evidencePack, respondedAt⟩

inductive CeremonyInterventionStatus
  | opened
  | closed
deriving DecidableEq, Repr

def CeremonyInterventionStatus.isOpen (self : CeremonyInterventionStatus) : Bool := self = .opened

structure CeremonyIntervention where
  id : CeremonyInterventionId
  kind : CeremonyInterventionKind
  requestedBy : RoleId
  target : CeremonyInterventionTarget
  request : CeremonyInterventionContent
  provenance : Option CeremonyInterventionProvenance
  responses : List CeremonyInterventionResponse
  status : CeremonyInterventionStatus
  createdAt : OffsetDateTime
  updatedAt : OffsetDateTime
  closedAt : Option OffsetDateTime

namespace CeremonyIntervention

def openWithProvenance (id : CeremonyInterventionId) (kind : CeremonyInterventionKind)
    (requestedBy : RoleId) (target : CeremonyInterventionTarget)
    (request : CeremonyInterventionContent) (provenance : Option CeremonyInterventionProvenance)
    (now : OffsetDateTime) : CeremonyIntervention :=
  { id, kind, requestedBy, target, request, provenance, responses := [], status := .opened,
    createdAt := now, updatedAt := now, closedAt := none }

def ensureCanRespond (self : CeremonyIntervention) (roleId : RoleId) : Except DomainError Unit :=
  if !self.status.isOpen then
    .error (.invariantViolated "closed ceremony interventions cannot receive responses")
  else if !self.target.accepts roleId then
    .error (.invariantViolated "ceremony intervention does not target responding role")
  else if self.responses.any fun response => response.roleId = roleId then
    .error (.alreadyExists "ceremony_intervention.response_role")
  else .ok ()

def respond (roleId : RoleId) (content : CeremonyInterventionContent) (now : OffsetDateTime) :
    Update DomainError CeremonyIntervention Unit := do
  check fun self => self.ensureCanRespond roleId
  modify fun self => { self with
    responses := self.responses ++ [CeremonyInterventionResponse.new roleId content now]
    updatedAt := now }

def respondWithEvidence (roleId : RoleId) (evidencePack : CeremonyEvidencePack)
    (now : OffsetDateTime) : Update DomainError CeremonyIntervention Unit := do
  check fun self => self.ensureCanRespond roleId
  let response ← check fun _ => CeremonyInterventionResponse.fromEvidence roleId evidencePack now
  modify fun self => { self with
    responses := self.responses ++ [response]
    updatedAt := now }

def ensureCanClose (self : CeremonyIntervention) (roleId : RoleId) : Except DomainError Unit :=
  if !self.status.isOpen then
    .error (.invariantViolated "ceremony intervention is already closed")
  else if roleId ≠ self.requestedBy then
    .error (.invariantViolated "only the requesting role can close a ceremony intervention")
  else .ok ()

def close (roleId : RoleId) (now : OffsetDateTime) :
    Update DomainError CeremonyIntervention Unit := do
  check fun self => self.ensureCanClose roleId
  modify fun self => { self with
    status := .closed
    updatedAt := now
    closedAt := some now }

/-- Nothing against this role answering. -/
structure CanRespond (item : CeremonyIntervention) (roleId : RoleId) : Prop where
  isOpen : item.status = .opened
  targeted : item.target.accepts roleId = true
  first : ∀ response ∈ item.responses, response.roleId ≠ roleId

theorem ensureCanRespond_ok {i : CeremonyIntervention} {roleId : RoleId} {u : Unit} :
    i.ensureCanRespond roleId = .ok u ↔ i.CanRespond roleId := by
  unfold ensureCanRespond
  split_ifs with h1 h2 h3
  · simp only [false_iff]
    exact fun h => by simp [h.isOpen, CeremonyInterventionStatus.isOpen] at h1
  · simp only [false_iff]
    exact fun h => by simp [h.targeted] at h2
  · simp only [false_iff]
    intro h
    obtain ⟨r, hr, he⟩ := List.any_eq_true.mp h3
    exact h.first r hr (by simpa using he)
  · simp only [true_iff]
    refine ⟨by simpa [CeremonyInterventionStatus.isOpen] using h1, by simpa using h2, ?_⟩
    intro r hr he
    exact h3 (List.any_eq_true.mpr ⟨r, hr, by simpa using he⟩)

theorem ensureCanClose_ok {i : CeremonyIntervention} {roleId : RoleId} {u : Unit} :
    i.ensureCanClose roleId = .ok u ↔ i.status = .opened ∧ roleId = i.requestedBy := by
  unfold ensureCanClose
  split_ifs <;> simp_all [CeremonyInterventionStatus.isOpen]

theorem respond_succeeds {roleId : RoleId} {content : CeremonyInterventionContent}
    {now : OffsetDateTime} {i i' : CeremonyIntervention} {u : Unit}
    (h : Succeeds (respond roleId content now) i u i') :
    i.CanRespond roleId ∧ i' = { i with
      responses := i.responses ++ [CeremonyInterventionResponse.new roleId content now]
      updatedAt := now } := by
  simpa [respond, ensureCanRespond_ok] using h

theorem respondWithEvidence_succeeds {roleId : RoleId} {evidencePack : CeremonyEvidencePack}
    {now : OffsetDateTime} {i i' : CeremonyIntervention} {u : Unit}
    (h : Succeeds (respondWithEvidence roleId evidencePack now) i u i') :
    ∃ content, i.CanRespond roleId ∧ i' = { i with
      responses := i.responses ++ [⟨roleId, content, some evidencePack, now⟩]
      updatedAt := now } := by
  simp only [respondWithEvidence, succeeds_bind, succeeds_check, ensureCanRespond_ok,
    succeeds_modify] at h
  obtain ⟨_, _, ⟨hc, rfl⟩, response, _, ⟨hr, rfl⟩, rfl⟩ := h
  simp only [CeremonyInterventionResponse.fromEvidence, except_bind_eq_ok] at hr
  obtain ⟨content, -, hr⟩ := hr
  cases hr
  exact ⟨content, hc, rfl⟩

theorem close_succeeds {roleId : RoleId} {now : OffsetDateTime} {i i' : CeremonyIntervention}
    {u : Unit} (h : Succeeds (close roleId now) i u i') :
    i.status = .opened ∧ roleId = i.requestedBy ∧
      i' = { i with status := .closed, updatedAt := now, closedAt := some now } := by
  simpa [close, ensureCanClose_ok, and_assoc] using h

theorem atomic_respond (roleId : RoleId) (content : CeremonyInterventionContent)
    (now : OffsetDateTime) : Atomic (respond roleId content now) :=
  (readOnly_check _).bind fun _ => (total_modify _).atomic

theorem atomic_respondWithEvidence (roleId : RoleId) (evidencePack : CeremonyEvidencePack)
    (now : OffsetDateTime) : Atomic (respondWithEvidence roleId evidencePack now) :=
  (readOnly_check _).bind fun _ => (readOnly_check _).bind fun _ => (total_modify _).atomic

theorem atomic_close (roleId : RoleId) (now : OffsetDateTime) : Atomic (close roleId now) :=
  (readOnly_check _).bind fun _ => (total_modify _).atomic

end CeremonyIntervention

inductive ReasonAsserter
  | theEngine
  | itsAuthor
  | anySeat
deriving DecidableEq, Repr

inductive CeremonyReasonKind
  | answers
  | chosenBecause
  | authorizes
  | achievedBy
  | followsFrom
  | satisfiesConstraint
  | violatesConstraint
  | supersedes
  | contradicts
deriving DecidableEq, Repr

def CeremonyReasonKind.asserter : CeremonyReasonKind → ReasonAsserter
  | .answers => .theEngine
  | .authorizes | .chosenBecause | .achievedBy => .itsAuthor
  | _ => .anySeat

inductive MemoryConfidence
  | high
  | medium
  | low
deriving DecidableEq, Repr

/-- Something a session produced that a reason can point at. -/
inductive CeremonyRecordRef
  | step (stepId : StepId)
  | agendaItem (agendaItem : CeremonyInterventionId)
  | contribution (agendaItem : CeremonyInterventionId) (ordinal : U32)
  | guardDecision (guardName : GuardName)
  | transition (ordinal : U32)
deriving DecidableEq

/-- Why one thing a session produced led to another. Nothing explains itself. -/
structure CeremonyReason where
  fromRecord : CeremonyRecordRef
  toRecord : CeremonyRecordRef
  kind : CeremonyReasonKind
  why : String
  confidence : MemoryConfidence
  assertedBy : Option RoleId
  assertedAt : OffsetDateTime
  apart : fromRecord ≠ toRecord

def maxWhy : Nat := 512

def CeremonyReason.new (fromRecord toRecord : CeremonyRecordRef) (kind : CeremonyReasonKind)
    (why : String) (confidence : MemoryConfidence) (assertedBy : Option RoleId)
    (assertedAt : OffsetDateTime) : Except DomainError CeremonyReason :=
  if h : fromRecord = toRecord then
    .error (.invariantViolated "nothing in a session explains itself")
  else if trim why = "" then .error (.emptyField "ceremony_reason.why")
  else if (trim why).toList.length > maxWhy then
    .error (.fieldTooLong "ceremony_reason.why" (trim why).toList.length maxWhy)
  else .ok ⟨fromRecord, toRecord, kind, trim why, confidence, assertedBy, assertedAt, h⟩

theorem CeremonyReason.new_ok {fromRecord toRecord : CeremonyRecordRef} {kind : CeremonyReasonKind}
    {why : String} {confidence : MemoryConfidence} {assertedBy : Option RoleId}
    {assertedAt : OffsetDateTime} {reason : CeremonyReason}
    (h : CeremonyReason.new fromRecord toRecord kind why confidence assertedBy assertedAt =
      .ok reason) :
    reason.fromRecord = fromRecord ∧ reason.toRecord = toRecord ∧ reason.kind = kind ∧
      reason.assertedBy = assertedBy ∧ reason.assertedAt = assertedAt := by
  unfold CeremonyReason.new at h
  split_ifs at h
  cases h
  exact ⟨rfl, rfl, rfl, rfl, rfl⟩

end Choreographer.Agenda
