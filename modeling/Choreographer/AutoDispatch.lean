import Choreographer.DeliberationStreams
import Choreographer.DesignedDrafts
import Choreographer.Lib.Pairings
import Choreographer.StepConfig

namespace Choreographer.AutoDispatch

open Choreographer.Lib.SortedMaps Choreographer.Lib.Updates Choreographer.Lib.Programs
open Choreographer.Lib.Pairings
open Choreographer.Texts Choreographer.Values Choreographer.Contracts Choreographer.Deliberations
open Choreographer.Deliberate Choreographer.CouncilRuns Choreographer.DeliberationStreams
open Choreographer.DesignedDrafts Choreographer.StepConfig

section Triggers

def maxKindLen : Nat := 128

structure TriggerEvent where
  envelope : EventEnvelope
  kind : String
  requestedSpecialties : List Specialty
  taskDescriptionTemplate : Option TaskDescription
  constraints : TaskConstraints
  payload : Attributes
  externalContext : Option ExternalContextBundle

/-- Those that were not seen before, each where it is first. -/
def uniqueAfter (seen : OrdSet Specialty) : List Specialty → List Specialty
  | [] => []
  | sp :: rest =>
    if seen.contains sp then uniqueAfter seen rest else sp :: uniqueAfter (OrdSet.add sp seen) rest

def TriggerEvent.newWithContext (envelope : EventEnvelope) (kind : String)
    (requestedSpecialties : List Specialty) (taskDescriptionTemplate : Option TaskDescription)
    (constraints : TaskConstraints) (payload : Attributes)
    (externalContext : Option ExternalContextBundle) : Except DomainError TriggerEvent :=
  let trimmed := trim kind
  if trimmed = "" then .error (.emptyField "trigger.kind")
  else if trimmed.utf8ByteSize > maxKindLen then
    .error (.fieldTooLong "trigger.kind" trimmed.utf8ByteSize maxKindLen)
  else
    let unique := uniqueAfter OrdMap.empty requestedSpecialties
    if unique.isEmpty then .error (.emptyCollection "trigger.requested_specialties")
    else .ok ⟨envelope, trimmed, unique, taskDescriptionTemplate, constraints, payload,
      externalContext⟩

def TaskMetadata.default : TaskMetadata := ⟨none, none, none, Attributes.empty⟩

def TaskMetadata.withTriggerEnvelope (self : TaskMetadata) (envelope : EventEnvelope) :
    TaskMetadata where
  sourceEventId := self.sourceEventId.or (some envelope.eventId)
  causationId := self.causationId.or (envelope.causationId.or (some envelope.eventId))
  correlationId := self.correlationId.or (envelope.correlationId.or (some envelope.eventId))
  executionProfile := self.executionProfile

def TaskMetadata.fromTriggerEnvelope (envelope : EventEnvelope) : TaskMetadata :=
  TaskMetadata.withTriggerEnvelope TaskMetadata.default envelope

/-- A trigger as it comes over the wire. What is made of its constraints, its payload and
its context is known here only by its outcome. -/
structure PbTriggerEvent where
  eventId : String
  kind : String
  source : String
  emittedAt : Option OffsetDateTime
  requestedSpecialties : List String
  taskDescriptionTemplate : String
  constraints : Except DomainError TaskConstraints
  payload : Except DomainError Attributes
  externalContext : Except DomainError (Option ExternalContextBundle)
  correlationId : String
  causationId : String

def optionalEventId (value : String) : Except DomainError (Option EventId) :=
  let trimmed := trim value
  if trimmed = "" then .ok none else (Text.new trimmed).map some

def triggerEventId (ev : PbTriggerEvent) : Council.Run EventId :=
  if trim ev.eventId = "" then newEventId else checked (Text.new ev.eventId)

def template (raw : String) : Except DomainError (Option TaskDescription) :=
  if trim raw = "" then .ok none else (TaskDescription.new raw).map some

def triggerEventFromProto (ev : PbTriggerEvent) (fallbackNow : OffsetDateTime) :
    Council.Run TriggerEvent := do
  let eventId ← triggerEventId ev
  let correlationId ← checked (optionalEventId ev.correlationId)
  let causationId ← checked (optionalEventId ev.causationId)
  let envelope ← checked (EventEnvelope.newWithCausation eventId (ev.emittedAt.getD fallbackNow)
    ev.source correlationId causationId)
  let specialties ← checked (ev.requestedSpecialties.mapM Text.new)
  let template ← checked (template ev.taskDescriptionTemplate)
  let constraints ← checked ev.constraints
  let payload ← checked ev.payload
  let externalContext ← checked ev.externalContext
  checked (TriggerEvent.newWithContext envelope ev.kind specialties template constraints payload
    externalContext)

end Triggers

section Dispatch

structure AutoDispatchOutcome where
  successes : List (Specialty × Deliberation)
  failures : List (Specialty × DomainError)

namespace AutoDispatchOutcome

def default : AutoDispatchOutcome := ⟨[], []⟩

def accepted (self : AutoDispatchOutcome) : Bool := !self.successes.isEmpty

def dispatchedTaskIds (self : AutoDispatchOutcome) : List TaskId :=
  self.successes.map fun success => success.2.taskId

def record (self : AutoDispatchOutcome) (specialty : Specialty) :
    Except DomainError DeliberateOutput → AutoDispatchOutcome
  | .ok out => { self with successes := self.successes ++ [(specialty, out.deliberation)] }
  | .error err => { self with failures := self.failures ++ [(specialty, err)] }

end AutoDispatchOutcome

structure AutoDispatchService where
  deliberate : DeliberateUseCase
  defaultDescription : String

def AutoDispatchService.new (deliberate : DeliberateUseCase) (defaultDescription : String) :
    Except DomainError AutoDispatchService :=
  if trim defaultDescription = "" then .error (.emptyField "auto_dispatch.default_description")
  else .ok ⟨deliberate, defaultDescription⟩

def buildTask (specialty : Specialty) (description : TaskDescription) (constraints : TaskConstraints)
    (attributes : Attributes) (externalContext : Option ExternalContextBundle)
    (metadata : TaskMetadata) : Council.Run Task := do
  let raw ← ask .uuid
  let id ← checked (Text.new raw)
  pure ⟨id, specialty, description.asStr, constraints, attributes, externalContext, metadata⟩

/-- One council after the other, and what has come of those before. -/
def dispatchEach (self : AutoDispatchService) (event : TriggerEvent) (description : TaskDescription) :
    List Specialty → AutoDispatchOutcome → Council.Run AutoDispatchOutcome
  | [], outcome => pure outcome
  | specialty :: rest, outcome => do
    let task ← buildTask specialty description event.constraints event.payload
      event.externalContext (TaskMetadata.fromTriggerEnvelope event.envelope)
    let result ← ExceptT.lift (deliberate self.deliberate task).run
    dispatchEach self event description rest (outcome.record specialty result)

def descriptionText (self : AutoDispatchService) (event : TriggerEvent) : String :=
  match event.taskDescriptionTemplate with
  | some d => d.asStr
  | none => self.defaultDescription

def dispatch (self : AutoDispatchService) (event : TriggerEvent) :
    Council.Run AutoDispatchOutcome := do
  let description ← checked (TaskDescription.new (descriptionText self event))
  dispatchEach self event description event.requestedSpecialties AutoDispatchOutcome.default

structure TriggerAck where
  eventId : String
  accepted : Bool
  dispatchedTaskIds : List String
  reason : String

def acknowledge (trigger : TriggerEvent) (outcome : AutoDispatchOutcome) : TriggerAck where
  eventId := trigger.envelope.eventId.asStr
  accepted := outcome.accepted
  dispatchedTaskIds := outcome.dispatchedTaskIds.map Text.asStr
  reason := if outcome.accepted then "" else "no specialties produced a deliberation"

def processTriggerEvent (self : AutoDispatchService) (event : PbTriggerEvent) :
    Council.Run TriggerAck := do
  let now ← ask .now
  let trigger ← triggerEventFromProto event now
  let outcome ← dispatch self trigger
  pure (acknowledge trigger outcome)

end Dispatch

section Announcements

variable {self : DeliberateUseCase} {task : Task} {w w' : World}

/-- A completion that was announced for a task. -/
structure Announces (task : Task) (d : Deliberation) (event : DeliberationCompletedEvent) :
    Prop where
  taskId : event.taskId = task.id
  ownTask : d.taskId = task.id
  specialty : event.specialty = task.specialty
  correlationId : event.envelope.correlationId = task.metadata.correlationId
  causationId : event.envelope.causationId = task.metadata.causationId

/-- A deliberation is on file under the id of its task. -/
def OnFile (w : World) (id : TaskId) : Prop :=
  ∃ d, w.repository.get? id = some d ∧ d.taskId = id

theorem onFile_insert {d : Deliberation} {id : TaskId} (h : OnFile w id)
    (hw : w'.repository = w.repository.insert d.taskId d) : OnFile w' id := by
  by_cases hid : id = d.taskId
  · subst hid
    exact ⟨d, by rw [hw, OrdMap.get?_insert_self], rfl⟩
  · obtain ⟨d', hget, hown⟩ := h
    exact ⟨d', by rw [hw, OrdMap.get?_insert_ne _ hid, hget], hown⟩

theorem newWithCausation_ids {eventId : EventId} {emittedAt : OffsetDateTime} {source : String}
    {correlationId causationId : Option EventId} {envelope : EventEnvelope}
    (h : EventEnvelope.newWithCausation eventId emittedAt source correlationId causationId =
      .ok envelope) :
    envelope.eventId = eventId ∧ envelope.correlationId = correlationId ∧
      envelope.causationId = causationId := by
  simp only [EventEnvelope.newWithCausation] at h
  split at h
  · simp at h
  · split at h
    · simp at h
    · obtain rfl := Except.ok.inj h
      exact ⟨rfl, rfl, rfl⟩

/-- What the last stage leaves behind: a result and its announcement, or neither of
them. -/
theorem finalize_announces {d : Deliberation} {ranked : List RankedOutcome} {t : OffsetDateTime}
    {r : Except DomainError DeliberateOutput}
    (h : Returns exec (finalize self d ranked task t).run w r w') :
    ((∃ e, r = .error e ∧ w'.published = w.published) ∧
      (w'.repository = w.repository ∨ w'.repository = w.repository.insert d.taskId d)) ∨
    ∃ out event, r = .ok out ∧ out.deliberation = d ∧
      w'.repository = w.repository.insert d.taskId d ∧ w'.published = w.published ++ [event] ∧
      event.taskId = d.taskId ∧ event.specialty = d.specialty ∧
      event.envelope.correlationId = task.metadata.correlationId ∧
      event.envelope.causationId = task.metadata.causationId := by
  obtain ⟨e, hsave, rfl⟩ | ⟨_, v₁, hsave, h⟩ := returns_bindE.mp h
  · obtain ⟨-, rfl⟩ := Answers.refusal (returns_call.mp hsave)
    exact .inl ⟨⟨e, rfl, rfl⟩, .inl rfl⟩
  obtain rfl := Answers.success (returns_call.mp hsave)
  obtain ⟨e, hrecord, rfl⟩ | ⟨_, v₂, hrecord, h⟩ := returns_bindE.mp h
  · obtain ⟨-, rfl⟩ := Answers.refusal (returns_call.mp hrecord)
    exact .inl ⟨⟨e, rfl, rfl⟩, .inr rfl⟩
  obtain rfl := Answers.success (returns_call.mp hrecord)
  obtain ⟨e, hpick, rfl⟩ | ⟨c, v₃, hpick, h⟩ := returns_bindE.mp h
  · obtain ⟨-, rfl⟩ := returns_ofExcept.mp hpick
    exact .inl ⟨⟨e, rfl, rfl⟩, .inr rfl⟩
  obtain ⟨-, rfl⟩ := returns_ofExcept.mp hpick
  obtain ⟨e, henv, rfl⟩ | ⟨env, v₄, henv, h⟩ := returns_bindE.mp h
  · obtain ⟨hk, -⟩ := quiet_envelope self t task.metadata _ _ _ henv
    exact .inl ⟨⟨e, rfl, hk.2⟩, .inr hk.1⟩
  obtain ⟨hk, -⟩ := quiet_envelope self t task.metadata _ _ _ henv
  obtain ⟨_, _, _, hnew⟩ := returns_bind_ok.mp henv
  obtain ⟨-, hcorrelation, hcausation⟩ := newWithCausation_ids (returns_ofExcept.mp hnew).1.symm
  obtain ⟨e, hpub, rfl⟩ | ⟨_, v₅, hpub, h⟩ := returns_bindE.mp h
  · obtain ⟨-, rfl⟩ := Answers.refusal (returns_call.mp hpub)
    exact .inl ⟨⟨e, rfl, hk.2⟩, .inr hk.1⟩
  obtain rfl := Answers.success (returns_call.mp hpub)
  obtain ⟨rfl, rfl⟩ := returns_pure.mp h
  exact .inr ⟨_, _, rfl, rfl, hk.1, congrArg (· ++ _) hk.2, rfl, rfl, hcorrelation, hcausation⟩

/-- A deliberation that comes to a result announces it, once, and one that does not
announces nothing. Nothing that was on file is lost. -/
theorem deliberate_announces {r : Except DomainError DeliberateOutput}
    (h : Returns exec (deliberate self task).run w r w') :
    (∀ id, OnFile w id → OnFile w' id) ∧
      ((∃ e, r = .error e ∧ w'.published = w.published) ∨
        ∃ out event, r = .ok out ∧ Announces task out.deliberation event ∧
          w'.published = w.published ++ [event] ∧ OnFile w' task.id) := by
  obtain ⟨e, -, rfl, -, hk⟩ | ⟨d, ranked, t, v, hd, hc, hk, hf⟩ := deliberate_cases h
  · refine ⟨fun id hid => ?_, .inl ⟨e, rfl, hk.2⟩⟩
    rwa [OnFile, hk.1]
  have hbefore : ∀ id, OnFile w id → OnFile v id := by
    intro id hid
    rwa [OnFile, hk.1]
  have hspecialty := deliberated_specialty hd
  obtain ⟨⟨e, rfl, hpublished⟩, hrepo | hrepo⟩ |
    ⟨out, event, rfl, rfl, hrepo, hpublished, hid, hsp, hcorrelation, hcausation⟩ :=
      finalize_announces hf
  · refine ⟨fun id hid => ?_, .inl ⟨e, rfl, hpublished.trans hk.2⟩⟩
    rw [OnFile, hrepo]
    exact hbefore id hid
  · refine ⟨fun id hid => ?_, .inl ⟨e, rfl, hpublished.trans hk.2⟩⟩
    exact onFile_insert (hbefore id hid) hrepo
  · refine ⟨fun id hid => onFile_insert (hbefore id hid) hrepo, .inr ⟨out, event, rfl, ?_, ?_, ?_⟩⟩
    · exact ⟨hid.trans hc.1, hc.1, hsp.trans hspecialty, hcorrelation, hcausation⟩
    · rw [hpublished, hk.2]
    · refine ⟨out.deliberation, ?_, hc.1⟩
      rw [hrepo, ← hc.1, OrdMap.get?_insert_self]

end Announcements

section Runs

variable {w w' : World}

theorem uniqueAfter_spec (l : List Specialty) (seen : OrdSet Specialty) :
    (uniqueAfter seen l).Sublist l ∧ (uniqueAfter seen l).Nodup ∧
      ∀ sp ∈ uniqueAfter seen l, seen.contains sp = false := by
  induction l generalizing seen with
  | nil => simp [uniqueAfter]
  | cons sp rest ih =>
    rw [uniqueAfter]
    by_cases hseen : seen.contains sp = true
    · rw [if_pos hseen]
      obtain ⟨hsublist, hnodup, hnew⟩ := ih seen
      exact ⟨hsublist.cons sp, hnodup, hnew⟩
    · rw [if_neg hseen]
      obtain ⟨hsublist, hnodup, hnew⟩ := ih (OrdSet.add sp seen)
      refine ⟨hsublist.cons_cons sp, List.nodup_cons.mpr ⟨fun hmem => ?_, hnodup⟩,
        fun other hother => ?_⟩
      · have hagain := hnew sp hmem
        simp at hagain
      · obtain rfl | hother := List.mem_cons.mp hother
        · simpa using hseen
        · have hadded := hnew other hother
          rw [OrdSet.contains_add, Bool.or_eq_false_iff] at hadded
          exact hadded.2

theorem optionalEventId_ok {raw : String} {id : Option EventId} (h : optionalEventId raw = .ok id) :
    id.map Text.asStr = if trim raw = "" then none else some (trim raw) := by
  simp only [optionalEventId] at h
  split at h
  · next hblank =>
    obtain rfl := Except.ok.inj h
    rw [if_pos hblank]
    rfl
  · next hblank =>
    obtain ⟨t, ht, rfl⟩ := except_map_eq_ok.mp h
    rw [if_neg hblank, Option.map_some, asStr_of_new_trim ht]

/-- A trigger that was accepted off the wire names each council once, and says for
itself what the sender left out. -/
structure Reads (ev : PbTriggerEvent) (trigger : TriggerEvent) : Prop where
  nodup : trigger.requestedSpecialties.Nodup
  requested : (trigger.requestedSpecialties.map Text.asStr).Sublist
    (ev.requestedSpecialties.map trim)
  eventId : trim ev.eventId ≠ "" → trigger.envelope.eventId.asStr = trim ev.eventId
  correlationId : trigger.envelope.correlationId.map Text.asStr =
    if trim ev.correlationId = "" then none else some (trim ev.correlationId)
  causationId : trigger.envelope.causationId.map Text.asStr =
    if trim ev.causationId = "" then none else some (trim ev.causationId)

theorem newWithContext_ok {envelope : EventEnvelope} {kind : String} {specialties : List Specialty}
    {template : Option TaskDescription} {constraints : TaskConstraints} {payload : Attributes}
    {context : Option ExternalContextBundle} {trigger : TriggerEvent}
    (h : TriggerEvent.newWithContext envelope kind specialties template constraints payload context =
      .ok trigger) :
    trigger.envelope = envelope ∧
      trigger.requestedSpecialties = uniqueAfter OrdMap.empty specialties := by
  simp only [TriggerEvent.newWithContext] at h
  split at h
  · simp at h
  · split at h
    · simp at h
    · split at h
      · simp at h
      · obtain rfl := Except.ok.inj h
        exact ⟨rfl, rfl⟩

theorem triggerEventId_ok {ev : PbTriggerEvent} {id : EventId}
    (h : Returns exec (triggerEventId ev).run w (.ok id) w') :
    Kept w w' ∧ (trim ev.eventId ≠ "" → id.asStr = trim ev.eventId) := by
  rw [triggerEventId] at h
  split at h
  · next hblank =>
    have hkept := (quiet_uuid.bind fun raw _ => Meets.ofExcept (outcome_text raw)) _ _ _ h
    exact ⟨hkept.1, fun hgiven => absurd hblank hgiven⟩
  · obtain ⟨hid, rfl⟩ := returns_ofExcept.mp h
    exact ⟨⟨rfl, rfl⟩, fun _ => text_new_ok hid.symm⟩

theorem triggerEventFromProto_ok {ev : PbTriggerEvent} {now : OffsetDateTime}
    {trigger : TriggerEvent}
    (h : Returns exec (triggerEventFromProto ev now).run w (.ok trigger) w') :
    Kept w w' ∧ Reads ev trigger := by
  obtain ⟨eventId, v, heventId, h₁⟩ := returns_bind_ok.mp h
  obtain ⟨hkept, hgiven⟩ := triggerEventId_ok heventId
  obtain ⟨correlationId, _, hrun₁, h₂⟩ := returns_bind_ok.mp h₁
  obtain ⟨hcorrelation, rfl⟩ := returns_ofExcept.mp hrun₁
  obtain ⟨causationId, _, hrun₂, h₃⟩ := returns_bind_ok.mp h₂
  obtain ⟨hcausation, rfl⟩ := returns_ofExcept.mp hrun₂
  obtain ⟨envelope, _, hrun₃, h₄⟩ := returns_bind_ok.mp h₃
  obtain ⟨henvelope, rfl⟩ := returns_ofExcept.mp hrun₃
  obtain ⟨specialties, _, hrun₄, h₅⟩ := returns_bind_ok.mp h₄
  obtain ⟨hspecialties, rfl⟩ := returns_ofExcept.mp hrun₄
  obtain ⟨_, _, hrun₅, h₆⟩ := returns_bind_ok.mp h₅
  obtain ⟨-, rfl⟩ := returns_ofExcept.mp hrun₅
  obtain ⟨_, _, hrun₆, h₇⟩ := returns_bind_ok.mp h₆
  obtain ⟨-, rfl⟩ := returns_ofExcept.mp hrun₆
  obtain ⟨_, _, hrun₇, h₈⟩ := returns_bind_ok.mp h₇
  obtain ⟨-, rfl⟩ := returns_ofExcept.mp hrun₇
  obtain ⟨_, _, hrun₈, h₉⟩ := returns_bind_ok.mp h₈
  obtain ⟨-, rfl⟩ := returns_ofExcept.mp hrun₈
  obtain ⟨hnew, rfl⟩ := returns_ofExcept.mp h₉
  obtain ⟨rfl, hunique⟩ := newWithContext_ok hnew.symm
  obtain ⟨hid, hcorrelationId, hcausationId⟩ := newWithCausation_ids henvelope.symm
  obtain ⟨hsublist, hnodup, -⟩ := uniqueAfter_spec specialties OrdMap.empty
  have htexts : specialties.map Text.asStr = ev.requestedSpecialties.map trim :=
    map_of_mapM_ok (fun _ _ => text_new_ok) hspecialties.symm
  refine ⟨hkept, hunique ▸ hnodup, ?_, fun hgiven' => hid ▸ hgiven hgiven', ?_, ?_⟩
  · rw [hunique, ← htexts]
    exact hsublist.map Text.asStr
  · rw [hcorrelationId, optionalEventId_ok hcorrelation.symm]
  · rw [hcausationId, optionalEventId_ok hcausation.symm]

/-- The completion of one of the deliberations that a trigger asked for. -/
structure Completes (trigger : TriggerEvent) (success : Specialty × Deliberation)
    (event : DeliberationCompletedEvent) : Prop where
  taskId : event.taskId = success.2.taskId
  specialty : event.specialty = success.1
  correlationId : event.envelope.correlationId =
    (TaskMetadata.fromTriggerEnvelope trigger.envelope).correlationId
  causationId : event.envelope.causationId =
    (TaskMetadata.fromTriggerEnvelope trigger.envelope).causationId

/-- Every council that was asked for either succeeds or fails, and the completions that
were announced meanwhile are those of the ones that succeeded, in their order. -/
theorem dispatchEach_ok {self : AutoDispatchService} {trigger : TriggerEvent}
    {description : TaskDescription} {specialties : List Specialty}
    {outcome outcome' : AutoDispatchOutcome}
    (h : Returns exec (dispatchEach self trigger description specialties outcome).run w
      (.ok outcome') w') :
    (∀ id, OnFile w id → OnFile w' id) ∧ ∃ successes failures events,
      outcome'.successes = outcome.successes ++ successes ∧
      outcome'.failures = outcome.failures ++ failures ∧
      (successes.map Prod.fst ++ failures.map Prod.fst).Perm specialties ∧
      (successes.map Prod.fst).Sublist specialties ∧
      List.Forall₂ (Completes trigger) successes events ∧
      w'.published = w.published ++ events ∧ ∀ event ∈ events, OnFile w' event.taskId := by
  induction specialties generalizing outcome w with
  | nil =>
    obtain ⟨hr, rfl⟩ := returns_pure.mp h
    obtain rfl := Except.ok.inj hr
    refine ⟨fun _ hid => hid, [], [], [], ?_⟩
    simp
  | cons specialty rest ih =>
    obtain ⟨task, v, hbuild, h₁⟩ := returns_bind_ok.mp h
    obtain ⟨_, _, huuid, hbuild'⟩ := returns_bind_ok.mp hbuild
    obtain ⟨_, hdrawn, -⟩ := returns_lift.mp huuid
    obtain ⟨id, _, hid, hbuild''⟩ := returns_bind_ok.mp hbuild'
    obtain ⟨-, rfl⟩ := returns_ofExcept.mp hid
    obtain ⟨htask, rfl⟩ := returns_pure.mp hbuild''
    obtain rfl : v = w := returns_call.mp hdrawn
    obtain ⟨result, v₁, hlift, h₂⟩ := returns_bind_ok.mp h₁
    obtain ⟨_, hrun, hresult⟩ := returns_lift.mp hlift
    obtain rfl := Except.ok.inj hresult
    obtain ⟨hkeeps, hannounced⟩ := deliberate_announces hrun
    obtain ⟨hkeeps', successes, failures, events, hsuccesses, hfailures, hperm, hsublist, hall,
      hpublished, hfiled⟩ := ih h₂
    refine ⟨fun id hid => hkeeps' id (hkeeps id hid), ?_⟩
    obtain rfl := Except.ok.inj htask
    obtain ⟨e, rfl, hquiet⟩ | ⟨out, event, rfl, hevent, htold, hon⟩ := hannounced
    · refine ⟨successes, (specialty, e) :: failures, events, hsuccesses, ?_, ?_, ?_, hall, ?_,
        hfiled⟩
      · rw [hfailures, AutoDispatchOutcome.record, List.append_assoc]
        rfl
      · exact List.perm_middle.trans (hperm.cons specialty)
      · exact hsublist.cons specialty
      · rw [hpublished, hquiet]
    · refine ⟨(specialty, out.deliberation) :: successes, failures, event :: events, ?_, hfailures,
        hperm.cons specialty, hsublist.cons_cons specialty, .cons ?_ hall, ?_, ?_⟩
      · rw [hsuccesses, AutoDispatchOutcome.record, List.append_assoc]
        rfl
      · exact ⟨hevent.taskId.trans hevent.ownTask.symm, hevent.specialty, hevent.correlationId,
          hevent.causationId⟩
      · rw [hpublished, htold, List.append_assoc]
        rfl
      · intro event' hmem
        obtain rfl | hmem := List.mem_cons.mp hmem
        · rw [hevent.taskId]
          exact hkeeps' _ hon
        · exact hfiled event' hmem

end Runs

def saidOr (said fallback : String) : String := if said = "" then fallback else said

theorem saidOr_of_reads {id : Option EventId} {said : String} {eventId : EventId}
    (h : id.map Text.asStr = if said = "" then none else some said) :
    (id.or (some eventId)).map Text.asStr = some (saidOr said eventId.asStr) := by
  rw [saidOr]
  split at h
  · next hblank =>
    rw [Option.map_eq_none_iff.mp h, if_pos hblank]
    rfl
  · next hblank =>
    obtain ⟨given, rfl, hgiven⟩ := Option.map_eq_some_iff.mp h
    rw [if_neg hblank, ← hgiven]
    rfl

/-- Whatever the councils do, the answer to a trigger is what was announced on its behalf:
its task ids are those of the completions that were published, one for each council that
came to a result, in the order they were asked for and no council twice. Each can be looked
up, and names what the sender named as its origin, or the trigger itself. -/
theorem trigger_acknowledged {self : AutoDispatchService} {request : PbTriggerEvent}
    {ack : TriggerAck} {w w' : World}
    (h : Returns exec (processTriggerEvent self request).run w (.ok ack) w') :
    ∃ events, w'.published = w.published ++ events ∧
      ack.dispatchedTaskIds = (events.map fun event => event.taskId.asStr) ∧
      (ack.accepted = true ↔ events ≠ []) ∧
      (events.map fun event => event.specialty.asStr).Nodup ∧
      (events.map fun event => event.specialty.asStr).Sublist
        (request.requestedSpecialties.map trim) ∧
      (trim request.eventId ≠ "" → ack.eventId = trim request.eventId) ∧
      ∀ event ∈ events, OnFile w' event.taskId ∧
        event.envelope.correlationId.map Text.asStr =
          some (saidOr (trim request.correlationId) ack.eventId) ∧
        event.envelope.causationId.map Text.asStr =
          some (saidOr (trim request.causationId) ack.eventId) := by
  obtain ⟨now, v, hnow, h₁⟩ := returns_bind_ok.mp h
  obtain ⟨_, hasked, -⟩ := returns_lift.mp hnow
  obtain rfl : v = w := returns_call.mp hasked
  obtain ⟨trigger, v₁, htrigger, h₂⟩ := returns_bind_ok.mp h₁
  obtain ⟨hkept, hreads⟩ := triggerEventFromProto_ok htrigger
  obtain ⟨outcome, v₂, hdispatch, h₃⟩ := returns_bind_ok.mp h₂
  obtain ⟨hack, rfl⟩ := returns_pure.mp h₃
  obtain rfl := Except.ok.inj hack
  obtain ⟨description, v₃, hdescription, heach⟩ := returns_bind_ok.mp hdispatch
  obtain ⟨-, rfl⟩ := returns_ofExcept.mp hdescription
  obtain ⟨-, successes, _, events, hsuccesses, -, -, hsublist, hall, hpublished, hfiled⟩ :=
    dispatchEach_ok heach
  obtain rfl : outcome.successes = successes := hsuccesses
  have hspecialties : (events.map fun event => event.specialty.asStr) =
      (outcome.successes.map Prod.fst).map Text.asStr := by
    rw [List.map_map]
    exact map_eq_of_forall₂ hall fun _ _ hc => congrArg Text.asStr hc.specialty
  refine ⟨events, by rw [hpublished, hkept.2], ?_, ?_, ?_, ?_, hreads.eventId, ?_⟩
  · rw [acknowledge, AutoDispatchOutcome.dispatchedTaskIds, List.map_map]
    exact (map_eq_of_forall₂ hall fun _ _ hc => congrArg Text.asStr hc.taskId).symm
  · have hlength := hall.length_eq
    rw [acknowledge, AutoDispatchOutcome.accepted, Bool.not_eq_true', List.isEmpty_eq_false_iff,
      ne_eq, ne_eq, ← List.length_eq_zero_iff, ← List.length_eq_zero_iff, hlength]
  · rw [hspecialties]
    exact (hreads.nodup.sublist hsublist).map fun _ _ => Text.ext
  · rw [hspecialties]
    exact (hsublist.map Text.asStr).trans hreads.requested
  · intro event hmem
    obtain ⟨success, -, hc⟩ := exists_of_forall₂ hall.flip hmem
    refine ⟨hfiled event hmem, ?_, ?_⟩
    · rw [hc.correlationId]
      exact saidOr_of_reads hreads.correlationId
    · rw [hc.causationId]
      exact saidOr_of_reads hreads.causationId

section Alerted

def alert : PbTriggerEvent where
  eventId := "alert-7"
  kind := "alert.fired"
  source := "grafana"
  emittedAt := none
  requestedSpecialties := ["triage", " triage "]
  taskDescriptionTemplate := "choose"
  constraints := .ok gated.constraints
  payload := .ok Attributes.empty
  externalContext := .ok none
  correlationId := ""
  causationId := "case-1"

def alertId : EventId := ⟨"alert-7", by decide⟩
def caseId : EventId := ⟨"case-1", by decide⟩

def alertMetadata : TaskMetadata := ⟨some alertId, some caseId, some alertId, Attributes.empty⟩

def service : AutoDispatchService := ⟨useCase, "look into it"⟩

def alerted : World := announcedOn gated.id Attributes.empty alertMetadata

def alertTask : Task := { gated with metadata := alertMetadata }

theorem alert_deliberates : Returns exec (deliberate useCase alertTask).run emptyWorld
    (.ok ⟨ranked [careful, hasty], careful⟩) alerted :=
  posed_runs ..

def choose : TaskDescription := ⟨"choose", by decide⟩

def alertTrigger : TriggerEvent where
  envelope := ⟨alertId, epoch, "grafana", none, some caseId⟩
  kind := "alert.fired"
  requestedSpecialties := [triage]
  taskDescriptionTemplate := some choose
  constraints := gated.constraints
  payload := Attributes.empty
  externalContext := none

theorem alert_runs : Returns exec (processTriggerEvent service alert).run emptyWorld
    (.ok ⟨"alert-7", true, ["task"], ""⟩) alerted := by
  refine returns_bind_ok.mpr ⟨epoch, emptyWorld, .ask (a := epoch) rfl (.done _ _), ?_⟩
  refine returns_bind_ok.mpr ⟨alertTrigger, emptyWorld, .done _ _, ?_⟩
  refine returns_bind_ok.mpr ⟨⟨[(triage, ranked [careful, hasty])], []⟩, alerted, ?_, .done _ _⟩
  refine returns_bind_ok.mpr ⟨choose, emptyWorld, .done _ _, ?_⟩
  refine returns_bind_ok.mpr ⟨alertTask, emptyWorld, .ask (a := "task") rfl (.done _ _), ?_⟩
  exact returns_bind_ok.mpr
    ⟨_, alerted, returns_lift.mpr ⟨_, alert_deliberates, rfl⟩, .done _ _⟩

theorem trigger_acknowledged_alert :
    ∃ events, alerted.published = emptyWorld.published ++ events ∧
      ["task"] = (events.map fun event => event.taskId.asStr) := by
  obtain ⟨events, hpublished, hids, -⟩ := trigger_acknowledged alert_runs
  exact ⟨events, hpublished, hids⟩

end Alerted

end Choreographer.AutoDispatch
