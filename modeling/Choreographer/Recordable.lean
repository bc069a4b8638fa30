import Choreographer.TamperEvidence
import Choreographer.UseCaseRuns
import Choreographer.Works

namespace Choreographer.Recordable

open Choreographer.Lib.SortedMaps Choreographer.Lib.Updates Choreographer.Lib.Programs
open Choreographer.Texts Choreographer.Values Choreographer.Steps Choreographer.DefinitionParts
open Choreographer.Definition Choreographer.Agenda Choreographer.Instance Choreographer.Operations
open Choreographer.Audit Choreographer.InMemory Choreographer.SessionJournal
open Choreographer.SessionFacts Choreographer.SessionLog Choreographer.UseCases
open Choreographer.Histories Choreographer.UseCaseRuns Choreographer.Works

section Wording

theorem plain_eventType (eventType : AuditEventType) : Plain eventType.asStr := by
  cases eventType <;> decide

end Wording

section Facts

/-- A name that somebody may act under. -/
def Named (actorId : String) : Prop :=
  trim actorId ≠ "" ∧ (trim actorId).utf8ByteSize ≤ 256

/-- What is derived for this to have happened has room in an event id. -/
def Short (id : CeremonyId) (subject : AuditEventType × String) : Prop :=
  id.asStr.utf8ByteSize + subject.1.asStr.utf8ByteSize + subject.2.utf8ByteSize + 2 ≤ 256

variable {session : CeremonyInstance} {eventType : AuditEventType} {about : String}
  {occurredAt : OffsetDateTime}

theorem text_isOk {rule : TextRule} {s : String} :
    (∃ t : Text rule, Text.new s = .ok t) ↔ trim s ≠ "" ∧ (trim s).utf8ByteSize ≤ rule.maxLen ∧
      ∀ c ∈ (trim s).toList, rule.allowed c = true := by
  simp only [Text.new_eq_ok]
  constructor
  · rintro ⟨t, ht⟩
    obtain ⟨hs, hrest⟩ := TextRule.check_ok.mp ht
    rw [← hs]
    exact hrest
  · intro h
    have hok : rule.check s = .ok (trim s) := TextRule.check_ok.mpr ⟨rfl, h⟩
    exact ⟨⟨trim s, TextRule.check_idem hok⟩, hok⟩

/-- A text that begins with an id and ends tidily is refused for its length and for
nothing else. -/
theorem composed_isOk {rule : TextRule} (hrule : rule.allowed = noControl) (id : CeremonyId)
    {s : String} (h : Worded s) :
    (∃ t : Text rule, Text.new (id.asStr ++ s) = .ok t) ↔
      id.asStr.utf8ByteSize + s.utf8ByteSize ≤ rule.maxLen := by
  rw [text_isOk, trim_append id h.tidy, String.utf8ByteSize_append, hrule]
  have hne : id.asStr ++ s ≠ "" := by
    intro he
    apply id.asStr_ne_empty
    have hempty := congrArg String.toList he
    rw [String.toList_append] at hempty
    exact String.toList_eq_nil_iff.mp (List.append_eq_nil_iff.mp hempty).1
  have hplain : Plain (id.asStr ++ s) := (plain_text id fun _ hc => hc).append h.plain
  constructor
  · exact fun hok => hok.2.1
  · exact fun hle => ⟨hne, hle, hplain⟩

theorem actor_isOk {actorId : String} {kind : AuditActorKind} {roleId : Option RoleId} :
    (∃ actor, AuditActor.new actorId kind roleId = .ok actor) ↔ Named actorId := by
  simp only [AuditActor.new, except_bind_eq_ok]
  constructor
  · rintro ⟨_, t, ht, -⟩
    obtain ⟨hne, hsize, -⟩ := text_isOk.mp ⟨t, ht⟩
    exact ⟨hne, hsize⟩
  · rintro ⟨hne, hsize⟩
    have hnew : ∃ t : Text ⟨"audit_actor.actor_id", 256, fun _ => true, by decide⟩,
        Text.new actorId = .ok t := text_isOk.mpr ⟨hne, hsize, fun _ _ => rfl⟩
    obtain ⟨t, ht⟩ := hnew
    exact ⟨_, t, ht, rfl⟩

theorem eventId_isOk {id : CeremonyId} (h : Worded about) :
    (∃ eventId : EventId, Text.new (eventIdText id eventType about) = .ok eventId) ↔
      Short id (eventType, about) := by
  have htext : eventIdText id eventType about =
      id.asStr ++ ((":" ++ eventType.asStr ++ ":") ++ about) := by
    simp only [eventIdText, String.append_assoc]
  have hcolon : Plain ":" := by decide
  have hworded : Worded ((":" ++ eventType.asStr ++ ":") ++ about) :=
    h.after ((hcolon.append (plain_eventType eventType)).append hcolon)
  rw [htext, composed_isOk rfl id hworded, Short]
  simp only [String.utf8ByteSize_append]
  have hone : ":".utf8ByteSize = 1 := rfl
  rw [hone]
  constructor <;> intro hle <;> omega

theorem fact_isOk {actor : AuditActor} (h : Worded about) :
    (∃ f, fact session eventType about actor occurredAt = .ok f) ↔
      Short session.id (eventType, about) := by
  rw [← eventId_isOk h]
  simp only [fact, except_bind_eq_ok]
  constructor
  · rintro ⟨_, eventId, hid, -⟩
    exact ⟨eventId, hid⟩
  · rintro ⟨eventId, hid⟩
    exact ⟨_, eventId, hid, rfl⟩

theorem toldBy_isOk {actorId : String} {kind : AuditActorKind} {roleId : Option RoleId}
    (h : Worded about) :
    (∃ f, (do
      let actor ← AuditActor.new actorId kind roleId
      fact session eventType about actor occurredAt) = .ok f) ↔
      Named actorId ∧ Short session.id (eventType, about) := by
  simp only [except_bind_eq_ok]
  constructor
  · rintro ⟨f, actor, hactor, hf⟩
    exact ⟨actor_isOk.mp ⟨actor, hactor⟩, (fact_isOk h).mp ⟨f, hf⟩⟩
  · rintro ⟨hnamed, hshort⟩
    obtain ⟨actor, hactor⟩ := actor_isOk.mpr hnamed
    obtain ⟨f, hf⟩ := (fact_isOk h).mpr hshort
    exact ⟨f, actor, hactor, hf⟩

theorem seatFact_isOk {roleId : RoleId} {kind : AuditActorKind} (h : Worded about) :
    (∃ f, seatFact session eventType about roleId kind occurredAt = .ok f) ↔
      Named roleId.asStr ∧ Short session.id (eventType, about) := toldBy_isOk h

theorem partyFact_isOk {actorId : String} {kind : AuditActorKind} (h : Worded about) :
    (∃ f, partyFact session eventType about actorId kind occurredAt = .ok f) ↔
      Named actorId ∧ Short session.id (eventType, about) := toldBy_isOk h

/-- A fact of this session, of this moment. -/
structure Dated (session : CeremonyInstance) (occurredAt : OffsetDateTime) (f : AuditFact) : Prop
    where
  own : f.ceremonyId = session.id
  moment : f.occurredAt = occurredAt

theorem fact_dated {actor : AuditActor} {f : AuditFact}
    (h : fact session eventType about actor occurredAt = .ok f) : Dated session occurredAt f := by
  simp only [fact, except_bind_eq_ok] at h
  obtain ⟨eventId, -, h⟩ := h
  obtain rfl := Except.ok.inj h
  exact ⟨rfl, rfl⟩

theorem toldBy_dated {actorId : String} {kind : AuditActorKind} {roleId : Option RoleId}
    {f : AuditFact} (h : (do
      let actor ← AuditActor.new actorId kind roleId
      fact session eventType about actor occurredAt) = .ok f) : Dated session occurredAt f := by
  simp only [except_bind_eq_ok] at h
  obtain ⟨actor, -, h⟩ := h
  exact fact_dated h

theorem singleton_dated {actorId : String} {kind : AuditActorKind} {roleId : Option RoleId}
    {facts : List AuditFact} (h : List.singleton <$> (do
      let actor ← AuditActor.new actorId kind roleId
      fact session eventType about actor occurredAt) = .ok facts) :
    facts ≠ [] ∧ ∀ f ∈ facts, Dated session occurredAt f := by
  generalize hx : (do
    let actor ← AuditActor.new actorId kind roleId
    fact session eventType about actor occurredAt) = x at h
  cases x with
  | error e => simp at h
  | ok f =>
    obtain rfl := Except.ok.inj h
    exact ⟨by simp [List.singleton], by simpa [List.singleton] using toldBy_dated hx⟩

end Facts

section Subjects

def startingAttempt (i : CeremonyInstance) (stepId : StepId) : StepAttempt :=
  ((i.stepRecord stepId).bind fun record => (nextAttemptForStart record).toOption).getD
    StepAttempt.first

def runningAttempt (i : CeremonyInstance) (stepId : StepId) : StepAttempt :=
  ((i.stepRecord stepId).map StepExecutionRecord.attempt).getD StepAttempt.first

/-- What a piece of work on a session would have happened to which thing. A move may also
be the last one; the two ids have the same length. -/
def subjects (i : CeremonyInstance) : Work → List (AuditEventType × String)
  | .startStep _ _ stepId _ => [(.stepStarted, aboutStep stepId (startingAttempt i stepId))]
  | .finishStep stepId result granted _ _ =>
    [(ending result, aboutStep stepId ((granted.map Prod.fst).getD (runningAttempt i stepId)))]
  | .move .. => [(.transitionApplied, "transition:" ++ (i.transitions.length + 1).repr)]
  | .approve guardName _ _ => [(.humanApprovalRecorded, aboutGuard guardName)]
  | .deferral guardName _ _ _ => [(.humanDeferralRecorded, aboutGuard guardName)]
  | .seat seating _ _ => [(.participantsBound, aboutSeating seating.seats)]
  | .request interventionId .. => [(.interventionRequested, aboutIntervention interventionId)]
  | .respond interventionId roleId _ _ =>
    [(.interventionResponded, aboutResponse interventionId roleId)]
  | .collect interventionId roleId _ sourceId _ =>
    [(.evidenceCollected, aboutEvidence interventionId sourceId),
      (.interventionResponded, aboutResponse interventionId roleId)]
  | .close interventionId _ _ => [(.interventionClosed, aboutIntervention interventionId)]
  | .assertReason .. => [(.reasonAsserted, "reason:" ++ (i.reasons.length + 1).repr)]

/-- Under which name the work is done: a seat's own, or one the caller declares. -/
def actingAs : Work → String
  | .startStep roleId _ _ _ | .finishStep _ _ _ roleId _ | .move roleId _ _ | .approve _ roleId _
  | .deferral _ roleId _ _ | .request _ roleId _ _ _ _ _ | .respond _ roleId _ _
  | .collect _ roleId _ _ _ | .close _ roleId _ | .assertReason roleId _ _ _ _ _ _ => roleId.asStr
  | .seat _ actorId _ => actorId

/-- Every text that is derived from the work has room where it goes. -/
def Fits (i : CeremonyInstance) (work : Work) : Prop :=
  Named (actingAs work) ∧ ∀ subject ∈ subjects i work, Short i.id subject

variable {d : CeremonyDefinition} {now : OffsetDateTime} {i i' : CeremonyInstance}

theorem worded_aboutGuard (guardName : GuardName) : Worded (aboutGuard guardName) :=
  (worded_text guardName fun _ => noControl_of_isSnakeCase).after (by decide)

theorem worded_aboutIntervention (interventionId : CeremonyInterventionId) :
    Worded (aboutIntervention interventionId) :=
  (worded_text interventionId fun _ hc => hc).after (by decide)

theorem worded_aboutResponse (interventionId : CeremonyInterventionId) (roleId : RoleId) :
    Worded (aboutResponse interventionId roleId) := by
  refine (worded_text roleId fun _ hc => hc).after (Plain.append ?_ (by decide))
  exact (worded_aboutIntervention interventionId).plain

theorem worded_aboutEvidence (interventionId : CeremonyInterventionId)
    (sourceId : CeremonyEvidenceSourceId) : Worded (aboutEvidence interventionId sourceId) := by
  refine (worded_text sourceId fun _ hc => hc).after (Plain.append ?_ (by decide))
  exact (worded_aboutIntervention interventionId).plain

theorem worded_aboutStep (stepId : StepId) (attempt : StepAttempt) :
    Worded (aboutStep stepId attempt) := by
  refine (worded_repr _).after (Plain.append (Plain.append ?_ ?_) ?_)
  · decide
  · exact plain_text stepId fun _ => noControl_of_isSnakeCase
  · decide

theorem worded_aboutSeating (seating : Seating) : Worded (aboutSeating seating.seats) := by
  refine ⟨tidy_aboutSeating seating.nonempty, Plain.append (by decide) (plain_intercalate ?_ ?_)⟩
  · decide
  · intro text htext
    obtain ⟨seat, -, rfl⟩ := List.mem_map.mp htext
    exact ((plain_text seat.1 fun _ hc => hc).append (by decide)).append
      (plain_text seat.2 fun _ hc => hc)

theorem method_ident {work : Work} {a : work.Answer}
    (h : Succeeds (work.method d now) i a i') : ident i' = ident i := by
  cases work with
  | startStep => exact (startStepAs_effect h).1.ident
  | finishStep => exact (applyStepResult_effect h).ident
  | move => exact (applyTransitionAs_effect h).1.ident
  | approve => exact (approveGuard_effect h).ident
  | deferral => exact (deferGuard_effect h).ident
  | seat seating =>
    obtain ⟨-, bindings, rfl⟩ := bindAll_succeeds seating.nonempty h
    rfl
  | request => exact (requestIntervention_effect h).ident
  | respond => exact (respond_effect h).ident
  | collect => exact (respondWithEvidence_effect h).ident
  | close => exact (closeIntervention_effect h).ident
  | assertReason => exact (assertReason_effect h).ident

theorem singleton_isOk {x : Except DomainError AuditFact} :
    (∃ facts, List.singleton <$> x = .ok facts) ↔ ∃ f, x = .ok f := by
  simp [except_map_eq_ok]

theorem seatTold_isOk {session : CeremonyInstance} {eventType : AuditEventType} {about : String}
    {roleId : RoleId} {kind : AuditActorKind} {occurredAt : OffsetDateTime} (h : Worded about)
    (hid : session.id = i.id) :
    (∃ facts, List.singleton <$> seatFact session eventType about roleId kind occurredAt =
      .ok facts) ↔ Named roleId.asStr ∧ ∀ subject ∈ [(eventType, about)], Short i.id subject := by
  rw [singleton_isOk, seatFact_isOk h, hid]
  simp

theorem aboutTransition_moved {roleId : Option RoleId} {trigger : TransitionTrigger}
    (h : Effect d i (.applyTransition roleId trigger now) i') :
    aboutTransition i' = "transition:" ++ (i.transitions.length + 1).repr := by
  cases h
  simp [aboutTransition]

theorem aboutReason_asserted {roleId : RoleId} {fromRecord toRecord : CeremonyRecordRef}
    {kind : CeremonyReasonKind} {why : String} {confidence : MemoryConfidence}
    (h : Effect d i (.assertReason roleId fromRecord toRecord kind why confidence now) i') :
    aboutReason i' = "reason:" ++ (i.reasons.length + 1).repr := by
  cases h
  simp [aboutReason]

theorem runningAttempt_finished {stepId : StepId} {result : StepResult}
    (h : Effect d i (.applyStepResult stepId result now) i') :
    ∃ record, i'.stepRecord stepId = some record ∧ record.attempt = runningAttempt i stepId := by
  cases h with
  | @applyStepResult _ _ _ step record matching hstep hstate hrecord executing =>
    refine ⟨record.withResult result, by simp [CeremonyInstance.stepRecord], ?_⟩
    simp [runningAttempt, CeremonyInstance.stepRecord, hrecord, StepExecutionRecord.withResult]

theorem moved_isOk {roleId : RoleId} {kind : AuditActorKind} {trigger : TransitionTrigger}
    (h : Effect d i (.applyTransition (some roleId) trigger now) i') :
    (∃ facts, transitionApplied i' d roleId kind now = .ok facts) ↔
      Named roleId.asStr ∧
        Short i.id (.transitionApplied, "transition:" ++ (i.transitions.length + 1).repr) := by
  have habout := aboutTransition_moved h
  have hworded : Worded (aboutTransition i') := by
    rw [habout]
    exact (worded_repr _).after (by decide)
  have hid : i'.id = i.id := congrArg Prod.fst h.ident
  rw [← habout, ← hid]
  simp only [transitionApplied, actor, except_bind_eq_ok]
  constructor
  · rintro ⟨_, actor, hactor, moved, hmoved, -⟩
    exact ⟨actor_isOk.mp ⟨actor, hactor⟩, (fact_isOk hworded).mp ⟨moved, hmoved⟩⟩
  · rintro ⟨hnamed, hshort⟩
    obtain ⟨actor, hactor⟩ := actor_isOk.mpr hnamed
    obtain ⟨moved, hmoved⟩ := (fact_isOk hworded).mpr hshort
    have hend : ∃ ended, fact i' .ceremonyCompleted (aboutTransition i') actor now = .ok ended :=
      (fact_isOk hworded).mpr hshort
    obtain ⟨ended, hended⟩ := hend
    by_cases hterminal : i'.isTerminal d = true
    · refine ⟨[moved, ended], actor, hactor, moved, hmoved, ?_⟩
      rw [if_pos hterminal, hended]
      rfl
    · refine ⟨[moved], actor, hactor, moved, hmoved, ?_⟩
      rw [if_neg hterminal]
      rfl

theorem facts_isOk {work : Work} {a : work.Answer} (h : Succeeds (work.method d now) i a i') :
    (∃ facts, work.facts d now i' a = .ok facts) ↔ Fits i work := by
  have hid : i'.id = i.id := congrArg Prod.fst (method_ident h)
  cases work with
  | startStep roleId roleKind stepId lease =>
    obtain ⟨-, record, hrecord, numbered⟩ := startStepAs_effect h
    have hattempt : startingAttempt i stepId = a := by
      simp only [startingAttempt, CeremonyInstance.stepRecord, hrecord, Option.bind_some, numbered]
      rfl
    rw [Fits, subjects, hattempt]
    exact seatTold_isOk (worded_aboutStep stepId a) hid
  | finishStep stepId result granted roleId roleKind =>
    cases granted with
    | some grant => exact seatTold_isOk (worded_aboutStep stepId grant.1) hid
    | none =>
      obtain ⟨record, hrecord, hattempt⟩ := runningAttempt_finished (applyStepResult_effect h)
      have hfacts : Work.facts d now i' (.finishStep stepId result none roleId roleKind) a =
          List.singleton <$> stepFinished i' stepId record.attempt result roleId roleKind now := by
        simp only [Work.facts, hrecord]
        rfl
      rw [Fits, subjects, Option.map_none, Option.getD_none, ← hattempt, hfacts]
      exact seatTold_isOk (worded_aboutStep stepId record.attempt) hid
  | move roleId roleKind trigger =>
    rw [Fits, subjects, List.forall_mem_singleton]
    exact moved_isOk (applyTransitionAs_effect h).1
  | approve guardName => exact seatTold_isOk (worded_aboutGuard guardName) hid
  | deferral guardName => exact seatTold_isOk (worded_aboutGuard guardName) hid
  | seat seating actorId actorKind =>
    rw [Fits, subjects, List.forall_mem_singleton, ← hid]
    exact singleton_isOk.trans (partyFact_isOk (worded_aboutSeating seating))
  | request interventionId => exact seatTold_isOk (worded_aboutIntervention interventionId) hid
  | respond interventionId roleId =>
    exact seatTold_isOk (worded_aboutResponse interventionId roleId) hid
  | collect interventionId roleId roleKind sourceId evidencePack =>
    have hconsulted : (∃ f, seatFact i' .evidenceCollected (aboutEvidence interventionId sourceId)
        roleId roleKind now = .ok f) ↔ _ := seatFact_isOk (worded_aboutEvidence _ _)
    have hresponded : (∃ f, interventionResponded i' interventionId roleId roleKind now = .ok f) ↔
        _ := seatFact_isOk (worded_aboutResponse _ _)
    rw [Fits, subjects, List.forall_mem_cons, List.forall_mem_singleton, ← hid]
    simp only [Work.facts, evidenceCollected, except_bind_eq_ok]
    constructor
    · rintro ⟨_, consulted, hc, responded, hr, -⟩
      obtain ⟨hnamed, hshort⟩ := hconsulted.mp ⟨consulted, hc⟩
      exact ⟨hnamed, hshort, (hresponded.mp ⟨responded, hr⟩).2⟩
    · rintro ⟨hnamed, hsource, hanswer⟩
      obtain ⟨consulted, hc⟩ := hconsulted.mpr ⟨hnamed, hsource⟩
      obtain ⟨responded, hr⟩ := hresponded.mpr ⟨hnamed, hanswer⟩
      exact ⟨_, consulted, hc, responded, hr, rfl⟩
  | close interventionId => exact seatTold_isOk (worded_aboutIntervention interventionId) hid
  | assertReason roleId =>
    have habout := aboutReason_asserted (assertReason_effect h)
    rw [Fits, subjects, ← habout]
    refine seatTold_isOk ?_ hid
    rw [habout]
    exact (worded_repr _).after (by decide)

theorem facts_dated {work : Work} {a : work.Answer} {facts : List AuditFact}
    (h : work.facts d now i a = .ok facts) : facts ≠ [] ∧ ∀ f ∈ facts, Dated i now f := by
  cases work with
  | finishStep stepId result granted roleId roleKind =>
    cases granted with
    | some grant => exact singleton_dated h
    | none =>
      simp only [Work.facts, except_bind_eq_ok] at h
      obtain ⟨record, -, h⟩ := h
      exact singleton_dated h
  | move roleId roleKind trigger =>
    simp only [Work.facts, transitionApplied, except_bind_eq_ok] at h
    obtain ⟨actor, -, moved, hmoved, h⟩ := h
    split at h
    · simp only [except_bind_eq_ok] at h
      obtain ⟨ended, hended, h⟩ := h
      obtain rfl := Except.ok.inj h
      exact ⟨by simp, by simp [fact_dated hmoved, fact_dated hended]⟩
    · obtain rfl := Except.ok.inj h
      exact ⟨by simp, by simp [fact_dated hmoved]⟩
  | collect interventionId roleId roleKind sourceId evidencePack =>
    simp only [Work.facts, evidenceCollected, except_bind_eq_ok] at h
    obtain ⟨consulted, hconsulted, responded, hresponded, h⟩ := h
    obtain rfl := Except.ok.inj h
    exact ⟨by simp, by simp [toldBy_dated hconsulted, toldBy_dated hresponded]⟩
  | _ => exact singleton_dated h

end Subjects

section Sealing

variable {env : Rendering}

theorem sealAt_isOk {f : AuditFact} {sequence : AuditSequence}
    {previous : Option AuditRecordHash} :
    (∃ record, AuditRecord.sealAt env f sequence previous = .ok record) ↔
      (env.rfc3339 f.occurredAt).isSome = true := by
  simp only [AuditRecord.sealAt, AuditRecord.computeHash, except_bind_eq_ok, okOr_eq_ok,
    Option.isSome_iff_exists]
  constructor
  · rintro ⟨_, _, ⟨t, ht, -⟩, -⟩
    exact ⟨t, ht⟩
  · rintro ⟨t, ht⟩
    exact ⟨_, _, ⟨t, ht, rfl⟩, rfl⟩

theorem sealBehind_isOk {head : Option AuditRecord} {id : CeremonyId} {f : AuditFact}
    (hhead : ∀ r, head = some r → r.ceremonyId = ofText id) (hown : f.ceremonyId = id) :
    (∃ record, sealBehind env head f = .ok record) ↔
      (env.rfc3339 f.occurredAt).isSome = true := by
  cases head with
  | none => exact sealAt_isOk
  | some previous =>
    have hsame : ofText f.ceremonyId = previous.ceremonyId := by rw [hown, hhead previous rfl]
    simp only [sealBehind, AuditRecord.following, except_bind_eq_ok, require_eq_ok,
      decide_eq_true_eq, hsame, true_and, exists_const]
    exact sealAt_isOk

/-- Facts of one ceremony at one moment can be sealed behind its journal if and only if the
moment can be written down. -/
theorem sealFacts_isOk {head : Option AuditRecord} {id : CeremonyId} {now : OffsetDateTime}
    {facts : List AuditFact} (hhead : ∀ r, head = some r → r.ceremonyId = ofText id)
    (hne : facts ≠ []) (hown : ∀ f ∈ facts, f.ceremonyId = id)
    (hnow : ∀ f ∈ facts, f.occurredAt = now) :
    (∃ sealed, sealFacts env head facts = (sealed, .ok ())) ↔ (env.rfc3339 now).isSome = true := by
  constructor
  · cases facts with
    | nil => exact absurd rfl hne
    | cons f rest =>
      rintro ⟨sealed, h⟩
      rw [← hnow f List.mem_cons_self]
      apply (sealBehind_isOk hhead (hown f List.mem_cons_self)).mp
      unfold sealFacts at h
      split at h
      · simp at h
      · next record hrecord => exact ⟨record, hrecord⟩
  · intro htime
    clear hne
    induction facts generalizing head with
    | nil => exact ⟨[], rfl⟩
    | cons f rest ih =>
      have hf := hown f List.mem_cons_self
      obtain ⟨record, hrecord⟩ : ∃ record, sealBehind env head f = .ok record := by
        apply (sealBehind_isOk hhead hf).mpr
        rw [hnow f List.mem_cons_self]
        exact htime
      have hnext : ∀ r, some record = some r → r.ceremonyId = ofText id := by
        rintro r ⟨⟩
        rw [(sealBehind_eq_ok hrecord).1.ceremonyId, hf]
      obtain ⟨sealed, hsealed⟩ := ih hnext (fun g hg => hown g (List.mem_cons_of_mem f hg))
        (fun g hg => hnow g (List.mem_cons_of_mem f hg))
      refine ⟨record :: sealed, ?_⟩
      rw [sealFacts, hrecord]
      dsimp only
      rw [hsealed]

theorem sealed_from {facts : List AuditFact} {sealed : List AuditRecord}
    (h : List.Forall₂ SealOf facts sealed) : ∀ r ∈ sealed, ∃ f ∈ facts, SealOf f r := by
  induction h with
  | nil => simp
  | cons hone _ ih =>
    intro r hr
    rcases List.mem_cons.mp hr with rfl | hr
    · exact ⟨_, List.mem_cons_self, hone⟩
    · obtain ⟨f, hf, hseal⟩ := ih r hr
      exact ⟨f, List.mem_cons_of_mem _ hf, hseal⟩

theorem did_own {d : CeremonyDefinition} {base : Option CeremonyInstance} {act : Act}
    {i : CeremonyInstance} {facts : List AuditFact} (h : Did d base act i facts) :
    ∀ f ∈ facts, f.ceremonyId = i.id := by
  cases h with
  | opened told | startedStep _ _ _ told | finishedStep _ _ told | movedOn _ _ told
  | approvedGuard _ told | deferredGuard _ told | seated _ _ told | requested _ told
  | responded _ told | closed _ told | asserted _ told =>
    simpa using told.own
  | movedToEnd _ _ told toldEnd => simp [told.own, toldEnd.own]
  | collected _ _ told toldAnswer => simp [told.own, toldAnswer.own]

theorem journal_own {w : World Deed} (h : (protocol env rule).inv w) (id : CeremonyId) :
    ∀ r ∈ (w.store.stored id).journal, r.ceremonyId = ofText id := by
  obtain ⟨hstored, hlegal, hlawful⟩ := h
  rw [hstored id]
  have hown : ∀ e ∈ w.log, e.landed = true → ∀ f ∈ e.facts, f.ceremonyId = e.ceremony := by
    intro e he hl
    obtain ⟨earlier, later, hsplit⟩ := List.append_of_mem he
    exact did_own (hlawful earlier e later hsplit hl).1
  clear hlawful hstored
  generalize w.log = log at hlegal hown
  induction log using List.reverseRecOn with
  | nil => simp [replay, StoredCeremony.default]
  | append_singleton log e ih =>
    obtain ⟨hlog, he⟩ := legal_concat.mp hlegal
    specialize ih hlog fun e' he' => hown e' (by simp [he'])
    by_cases hin : e.landed = true ∧ e.ceremony = id
    · obtain ⟨hl, rfl⟩ := hin
      obtain ⟨sealed, hsealed, -, hafter⟩ := he.stored hl
      rw [replay_concat, Function.update_self, hafter, he.met]
      intro r hr
      rcases List.mem_append.mp hr with hr | hr
      · exact ih r hr
      · obtain ⟨f, hf, hseal⟩ := sealed_from (sealFacts_sealOf hsealed) r hr
        rw [hseal.ceremonyId, hown e (by simp) hl f hf]
    · rw [replay_concat_of_other he hin]
      exact ih

end Sealing

section Recording

variable {env : Rendering} {d : CeremonyDefinition} {now : OffsetDateTime}
  {loaded : LoadedSession} {i : CeremonyInstance} {α : Type}

/-- A session as it is stored, under its revision: nobody has committed in between. -/
structure Current (loaded : LoadedSession) (w : World Deed) : Prop where
  stored : (w.store.stored loaded.session.id).session = some loaded.session
  agreed : loaded.expected.agrees (w.store.stored loaded.session.id).revision = true

/-- Run by itself, the program ends well and leaves this session on record. -/
def Lands (env : Rendering) (p : UseCaseM LoadedSession) (w : World Deed) (i : CeremonyInstance) :
    Prop :=
  ∃ stored w', Returns (exec env) p.run w (.ok stored) w' ∧ stored.session = i ∧
    (w'.store.stored i.id).session = some i

theorem storing_isOk {w : World Deed} (h : (protocol env rule).inv w) (lost : DomainError)
    (loaded : LoadedSession) {facts : List AuditFact}
    (hagreed : loaded.expected.agrees (w.store.stored loaded.session.id).revision = true)
    (hne : facts ≠ []) (hdated : ∀ f ∈ facts, Dated loaded.session now f) :
    (∃ l, (storing env lost loaded facts w.store).1 = .ok l) ↔
      (env.rfc3339 now).isSome = true := by
  have hsealing : (∃ sealed, sealFacts env (w.store.stored loaded.session.id).journal.getLast?
      facts = (sealed, .ok ())) ↔ (env.rfc3339 now).isSome = true :=
    sealFacts_isOk (fun r hr => journal_own h _ r (List.mem_of_getLast? hr)) hne
      (fun f hf => (hdated f hf).own) (fun f hf => (hdated f hf).moment)
  rw [← hsealing]
  obtain ⟨hc, -⟩ := @storing_concluded env lost loaded facts w.store
  constructor
  · rintro ⟨l, hl⟩
    rw [hl] at hc
    obtain ⟨-, -, sealed, hsealed, -⟩ := hc.of_ok
    exact ⟨sealed, hsealed⟩
  · rintro ⟨sealed, hsealed⟩
    generalize (storing env lost loaded facts w.store).1 = answer at hc
    generalize (storing env lost loaded facts w.store).2.stored loaded.session.id = s' at hc
    cases hc with
    | foreign theirs =>
      simp only [List.any_eq_true, decide_eq_true_eq] at theirs
      obtain ⟨f, hf, hother⟩ := theirs
      exact absurd (hdated f hf).own (by simpa using hother)
    | conflict stale =>
      rw [hagreed] at stale
      simp at stale
    | refused _ unsealed =>
      rw [hsealed] at unsealed
      simp at unsealed
    | landed => exact ⟨_, rfl⟩

theorem storing_stores {w : World Deed} {lost : DomainError} {facts : List AuditFact}
    {l : LoadedSession} (h : (storing env lost loaded facts w.store).1 = .ok l) :
    l.session = loaded.session ∧
      ((storing env lost loaded facts w.store).2.stored loaded.session.id).session =
        some loaded.session := by
  obtain ⟨hc, -⟩ := @storing_concluded env lost loaded facts w.store
  rw [h] at hc
  obtain ⟨-, rfl, sealed, -, hafter⟩ := hc.of_ok
  rw [hafter]
  exact ⟨rfl, rfl⟩

theorem recording_returns {work : Work} {a : work.Answer}
    (h : Succeeds (work.method d now) loaded.session a i)
    {andThen : work.Answer → LoadedSession → UseCaseM α} {w w' : World Deed} {b : α} :
    Returns (exec env) (recording d now loaded work andThen).run w (.ok b) w' ↔
      ∃ facts l, work.facts d now i a = .ok facts ∧
        (storing env lostCommit ⟨i, loaded.expected⟩ facts w.store).1 = .ok l ∧
        Returns (exec env) (andThen a l).run
          (w.concluded env (some loaded.session) ⟨d, work.act i a⟩ lostCommit
            ⟨i, loaded.expected⟩ facts) (.ok b) w' := by
  have hon : (work.method d now).on loaded.session = (.ok a, i) := h
  have hrun : recording d now loaded work andThen = (do
      let facts ← checked (work.facts d now i a)
      let stored ← commit ⟨i, loaded.expected⟩ facts loaded.session ⟨d, work.act i a⟩
      andThen a stored) := by
    unfold recording operate
    rw [hon]
    rfl
  rw [hrun, returns_bind_ok]
  constructor
  · rintro ⟨facts, v, hchecked, hrest⟩
    obtain ⟨hfacts, rfl⟩ := returns_ofExcept.mp hchecked
    obtain ⟨l, v', hcommit, hthen⟩ := returns_bind_ok.mp hrest
    obtain ⟨hl, rfl⟩ := returns_call.mp hcommit
    exact ⟨facts, l, hfacts.symm, hl.symm, hthen⟩
  · rintro ⟨facts, l, hfacts, hl, hthen⟩
    refine ⟨facts, w, returns_ofExcept.mpr ⟨hfacts.symm, rfl⟩, returns_bind_ok.mpr ?_⟩
    exact ⟨l, _, returns_call.mpr ⟨hl.symm, rfl⟩, hthen⟩

theorem opening_returns {actorId : String} {actorKind : AuditActorKind}
    {andThen : LoadedSession → UseCaseM α} {w w' : World Deed} {b : α} :
    Returns (exec env) (opening d now i actorId actorKind andThen).run w (.ok b) w' ↔
      ∃ f l, ceremonyStarted i actorId actorKind now = .ok f ∧
        (storing env lostOpening ⟨i, .new⟩ [f] w.store).1 = .ok l ∧
        Returns (exec env) (andThen l).run
          (w.concluded env none ⟨d, .opened⟩ lostOpening ⟨i, .new⟩ [f]) (.ok b) w' := by
  rw [opening, returns_bind_ok]
  constructor
  · rintro ⟨f, v, hchecked, hrest⟩
    obtain ⟨hf, rfl⟩ := returns_ofExcept.mp hchecked
    obtain ⟨l, v', hcommit, hthen⟩ := returns_bind_ok.mp hrest
    obtain ⟨hl, rfl⟩ := returns_call.mp hcommit
    exact ⟨f, l, hf.symm, hl.symm, hthen⟩
  · rintro ⟨f, l, hf, hl, hthen⟩
    refine ⟨f, w, returns_ofExcept.mpr ⟨hf.symm, rfl⟩, returns_bind_ok.mpr ?_⟩
    exact ⟨l, _, returns_call.mpr ⟨hl.symm, rfl⟩, hthen⟩

theorem work_lands_iff {w : World Deed} (hw : (protocol env rule).inv w)
    (hcurrent : Current loaded w) {work : Work} {a : work.Answer}
    (h : Succeeds (work.method d now) loaded.session a i) :
    Lands env (recording d now loaded work fun _ stored => pure stored) w i ↔
      Fits loaded.session work ∧ (env.rfc3339 now).isSome = true := by
  have hid : i.id = loaded.session.id := congrArg Prod.fst (method_ident h)
  have hagreed : loaded.expected.agrees (w.store.stored i.id).revision = true := by
    rw [hid]
    exact hcurrent.agreed
  rw [← facts_isOk h]
  simp only [Lands, recording_returns h]
  constructor
  · rintro ⟨_, _, ⟨facts, l, hfacts, hl, -⟩, -⟩
    obtain ⟨hne, hdated⟩ := facts_dated hfacts
    refine ⟨⟨facts, hfacts⟩, ?_⟩
    exact (storing_isOk hw lostCommit ⟨i, loaded.expected⟩ hagreed hne hdated).mp ⟨l, hl⟩
  · rintro ⟨⟨facts, hfacts⟩, htime⟩
    obtain ⟨hne, hdated⟩ := facts_dated hfacts
    obtain ⟨l, hl⟩ :=
      (storing_isOk hw lostCommit ⟨i, loaded.expected⟩ hagreed hne hdated).mpr htime
    obtain ⟨hsession, hstored⟩ := storing_stores hl
    exact ⟨l, _, ⟨facts, l, hfacts, hl, returns_pure.mpr ⟨rfl, rfl⟩⟩, hsession, hstored⟩

theorem worded_aboutSession : Worded aboutSession := ⟨tidy_aboutSession, by decide⟩

theorem opening_lands_iff {w : World Deed} (hw : (protocol env rule).inv w)
    (hfree : (w.store.stored i.id).revision = none) {actorId : String}
    {actorKind : AuditActorKind} :
    Lands env (opening d now i actorId actorKind fun stored => pure stored) w i ↔
      Named actorId ∧ Short i.id (.ceremonyInstanceStarted, aboutSession) ∧
        (env.rfc3339 now).isSome = true := by
  have hagreed : ExpectedRevision.new.agrees (w.store.stored i.id).revision = true := by
    rw [hfree]
    rfl
  have hstarted : (∃ f, ceremonyStarted i actorId actorKind now = .ok f) ↔ _ :=
    partyFact_isOk worded_aboutSession
  have hdated {f : AuditFact} (hf : ceremonyStarted i actorId actorKind now = .ok f) :
      ∀ g ∈ [f], Dated i now g := by
    simpa using toldBy_dated hf
  rw [← and_assoc, ← hstarted]
  simp only [Lands, opening_returns]
  constructor
  · rintro ⟨_, _, ⟨f, l, hf, hl, -⟩, -⟩
    refine ⟨⟨f, hf⟩, ?_⟩
    exact (storing_isOk hw lostOpening ⟨i, .new⟩ hagreed (by simp) (hdated hf)).mp ⟨l, hl⟩
  · rintro ⟨⟨f, hf⟩, htime⟩
    obtain ⟨l, hl⟩ :=
      (storing_isOk hw lostOpening ⟨i, .new⟩ hagreed (by simp) (hdated hf)).mpr htime
    obtain ⟨hsession, hstored⟩ := storing_stores hl
    exact ⟨l, _, ⟨f, l, hf, hl, returns_pure.mpr ⟨rfl, rfl⟩⟩, hsession, hstored⟩

theorem key_isOk (id : CeremonyId) (stepId : StepId) (traceIndex : Nat) :
    (∃ key : IdempotencyKey, Text.new (id.asStr ++ ":" ++ stepId.asStr ++ ":" ++
        (traceIndex + 1).repr) = .ok key) ↔
      id.asStr.utf8ByteSize + stepId.asStr.utf8ByteSize + (traceIndex + 1).repr.utf8ByteSize + 2 ≤
        stringLimit := by
  have htext : id.asStr ++ ":" ++ stepId.asStr ++ ":" ++ (traceIndex + 1).repr =
      id.asStr ++ ((":" ++ stepId.asStr ++ ":") ++ (traceIndex + 1).repr) := by
    simp only [String.append_assoc]
  have hcolon : Plain ":" := by decide
  have hworded : Worded ((":" ++ stepId.asStr ++ ":") ++ (traceIndex + 1).repr) :=
    (worded_repr _).after ((hcolon.append (plain_text stepId fun _ =>
      noControl_of_isSnakeCase)).append hcolon)
  rw [htext, composed_isOk rfl id hworded]
  simp only [String.utf8ByteSize_append]
  have hone : ":".utf8ByteSize = 1 := rfl
  rw [hone]
  constructor <;> intro hle <;> omega

end Recording

/-- In whatever state the use cases have come to, work that a session accepts is recorded if
and only if its derived texts have room and the clock can be written down; likewise for a new
session. The key of a step asks for no more than a string does. -/
theorem accepted_work_recorded_iff (env : Rendering) (c : Config (calls Deed) (World Deed))
    (h : Runs env c) :
    (∀ (loaded : LoadedSession) (d : CeremonyDefinition) (now : OffsetDateTime) (work : Work)
      (a : work.Answer) (i : CeremonyInstance), Current loaded c.world →
      Succeeds (work.method d now) loaded.session a i →
        (Lands env (recording d now loaded work fun _ stored => pure stored) c.world i ↔
          Fits loaded.session work ∧ (env.rfc3339 now).isSome = true)) ∧
    (∀ (d : CeremonyDefinition) (now : OffsetDateTime) (i : CeremonyInstance) (actorId : String)
      (actorKind : AuditActorKind), (c.world.store.stored i.id).revision = none →
        (Lands env (opening d now i actorId actorKind fun stored => pure stored) c.world i ↔
          Named actorId ∧ Short i.id (.ceremonyInstanceStarted, aboutSession) ∧
            (env.rfc3339 now).isSome = true)) ∧
    ∀ (id : CeremonyId) (stepId : StepId) (traceIndex : Nat),
      (∃ key : IdempotencyKey, Text.new (id.asStr ++ ":" ++ stepId.asStr ++ ":" ++
          (traceIndex + 1).repr) = .ok key) ↔
        id.asStr.utf8ByteSize + stepId.asStr.utf8ByteSize +
          (traceIndex + 1).repr.utf8ByteSize + 2 ≤ stringLimit := by
  have hinv := inv_of_runs h
  refine ⟨?_, ?_, key_isOk⟩
  · intro loaded d now work a i hcurrent hdone
    exact work_lands_iff hinv hcurrent hdone
  · intro d now i actorId actorKind hfree
    exact opening_lands_iff hinv hfree

section Docking

def adrift : StateId := ⟨"adrift", by decide⟩
def moored : StateId := ⟨"moored", by decide⟩
def moor : TransitionTrigger := ⟨"moor", by decide⟩
def pilot : RoleId := ⟨"pilot", by decide⟩

def docking : CeremonyDefinition :=
  (CeremonyDefinition.new ⟨"docking", by decide⟩ versionOne none [] []
    [⟨adrift, .initial⟩, ⟨moored, .terminal⟩] [⟨adrift, moored, moor, OrdMap.empty⟩]
    [] [] [⟨pilot, OrdSet.ofList [.transition moor, .requestIntervention], by decide⟩]).toOption.get
    rfl

def dockId : CeremonyId := ⟨"d1", by decide⟩
def dawn : OffsetDateTime := ⟨0, 0⟩

def asking (interventionId : CeremonyInterventionId) : Work :=
  .request interventionId pilot .human .opinion .table
    ⟨⟨"which berth?", by decide⟩, Attributes.empty⟩ none

def berth : CeremonyInterventionId := ⟨"berth", by decide⟩

theorem size_replicate (n : Nat) : (String.ofList (List.replicate n 'b')).utf8ByteSize = n := by
  induction n with
  | zero => rfl
  | succ n ih =>
    rw [List.replicate_succ', String.ofList_append, String.utf8ByteSize_append, ih]
    rfl

theorem trim_replicate (n : Nat) :
    trim (String.ofList (List.replicate n 'b')) = String.ofList (List.replicate n 'b') := by
  apply trim_of_unspaced
  intro c hc
  rw [String.toList_ofList] at hc
  obtain rfl := List.eq_of_mem_replicate hc
  decide

theorem check_replicate {rule : TextRule} {n : Nat} (hpos : 0 < n) (hle : n ≤ rule.maxLen)
    (hallowed : rule.allowed 'b' = true) :
    rule.check (String.ofList (List.replicate n 'b')) =
      .ok (String.ofList (List.replicate n 'b')) := by
  refine TextRule.check_ok.mpr ⟨(trim_replicate n).symm, ?_, by rwa [size_replicate], ?_⟩
  · intro hempty
    have hsize := size_replicate n
    rw [hempty] at hsize
    simp at hsize
    omega
  · intro c hc
    rw [String.toList_ofList] at hc
    rwa [List.eq_of_mem_replicate hc]

def longest : CeremonyInterventionId :=
  ⟨String.ofList (List.replicate 256 'b'), check_replicate (by decide) (by decide) (by decide)⟩

theorem docked_runs : ∃ c loaded, Runs TamperEvidence.table c ∧ Current loaded c.world ∧
    loaded.session.id = dockId ∧
    (∃ i, Succeeds ((asking berth).method docking dawn) loaded.session () i) ∧
    ∃ i, Succeeds ((asking longest).method docking dawn) loaded.session () i := by
  have h₀ : Runs TamperEvidence.table ⟨World.empty, []⟩ := .refl
  have h₁ := h₀.tail (.drift (.mount docking))
  have h₂ := h₁.tail (.arrive (.start dockId docking.name docking.version
    CeremonyContext.empty "harbour" .human))
  have h₃ := h₂.tail (.advance (i := 0) rfl ⟨rfl, rfl⟩)
  have h₄ := h₃.tail (.advance (i := 0) (a := dawn) rfl rfl)
  have h₅ := h₄.tail (.advance (i := 0) rfl ⟨rfl, rfl⟩)
  exact ⟨_, ⟨CeremonyInstance.start dockId docking CeremonyContext.empty dawn,
    .exactly CeremonyRevision.initial⟩, h₅,
    ⟨rfl, rfl⟩, rfl, ⟨_, rfl⟩, ⟨_, rfl⟩⟩

theorem fits_berth {i : CeremonyInstance} (hid : i.id = dockId) : Fits i (asking berth) := by
  have hnamed : Named pilot.asStr := by
    unfold Named
    decide
  have hshort : Short dockId (.interventionRequested, aboutIntervention berth) := by
    unfold Short
    decide
  refine ⟨hnamed, ?_⟩
  rw [hid]
  simpa [subjects, asking] using hshort

theorem longest_too_long (i : CeremonyInstance) : ¬ Fits i (asking longest) := by
  rintro ⟨-, hshort⟩
  have h := hshort (.interventionRequested, aboutIntervention longest) List.mem_cons_self
  have hsize : longest.asStr.utf8ByteSize = 256 := size_replicate 256
  rw [Short, aboutIntervention, String.utf8ByteSize_append, hsize] at h
  omega

theorem accepted_work_recorded_docking : ∃ c loaded i, Runs TamperEvidence.table c ∧
    Current loaded c.world ∧ Succeeds ((asking berth).method docking dawn) loaded.session () i ∧
    Lands TamperEvidence.table
      (recording docking dawn loaded (asking berth) fun _ stored => pure stored) c.world i := by
  obtain ⟨c, loaded, hruns, hcurrent, hid, ⟨i, hdone⟩, -⟩ := docked_runs
  have hrecorded := (accepted_work_recorded_iff TamperEvidence.table c hruns).1 loaded docking dawn
    (asking berth) () i hcurrent hdone
  exact ⟨c, loaded, i, hruns, hcurrent, hdone, hrecorded.mpr ⟨fits_berth hid, rfl⟩⟩

/-- A session accepts what it can never have on record. -/
theorem accepted_never_recorded :
    ¬ ∀ (env : Rendering) (c : Config (calls Deed) (World Deed)), Runs env c →
      ∀ (loaded : LoadedSession) (d : CeremonyDefinition) (now : OffsetDateTime) (work : Work)
        (a : work.Answer) (i : CeremonyInstance), Current loaded c.world →
        Succeeds (work.method d now) loaded.session a i → (env.rfc3339 now).isSome = true →
          Lands env (recording d now loaded work fun _ stored => pure stored) c.world i := by
  intro h
  obtain ⟨c, loaded, hruns, hcurrent, -, -, i, hdone⟩ := docked_runs
  have hlands := h _ c hruns loaded docking dawn (asking longest) () i hcurrent hdone rfl
  exact longest_too_long _ ((work_lands_iff (inv_of_runs hruns) hcurrent hdone).mp hlands).1

end Docking

end Choreographer.Recordable
