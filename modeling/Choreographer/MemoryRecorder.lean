import Choreographer.MemoryProjection
import Choreographer.Works

namespace Choreographer.MemoryRecorder

open Choreographer.Lib.SortedMaps Choreographer.Lib.Updates
open Choreographer.Texts Choreographer.Values Choreographer.Definition Choreographer.Agenda
open Choreographer.Instance Choreographer.SessionFacts Choreographer.Works
open Choreographer.MemoryValues Choreographer.SessionMemory Choreographer.MemoryProjection

/-- What memory is asked to keep: where, what, and under which key. -/
structure MemoryRequest where
  scope : MemoryScope
  write : MemoryWrite
  key : String

section Recorder

variable (self : CeremonyInstance)

/-- Whether the recorder takes a record for one that memory has. -/
def isRemembered (record : CeremonyRecordRef) : Bool :=
  match record with
  | .contribution .. =>
    match contributionEntry self record with
    | .ok (some _) => true
    | _ => false
  | .guardDecision _ =>
    match guardEntry self record with
    | .ok (some _) => true
    | _ => false
  | .transition ordinal =>
    decide (ordinal.val = self.transitions.length) && self.completedAt.isSome
  | .step _ | .agendaItem _ => false

/-- What goes wrong on the way is logged, and nothing is asked of memory. -/
def writeWithKey (write : Except DomainError MemoryWrite) (discriminator : String) :
    Option MemoryRequest := do
  let write ← write.toOption
  let scope ← (MemoryScope.ofCeremony self.id).toOption
  let key ← ((provenance self none self.updatedAt).idempotencyKey discriminator).toOption
  pure ⟨scope, write, key⟩

def write (write : Except DomainError MemoryWrite) (record : CeremonyRecordRef) :
    Option MemoryRequest := do
  let id ← (entryId record).toOption
  writeWithKey self write id.asStr

def rememberContribution (agendaItem : CeremonyInterventionId) : Option MemoryRequest := do
  let item ← self.intervention agendaItem
  let ordinal ← CeremonyInstance.lastOrdinal item.responses
  let record := CeremonyRecordRef.contribution agendaItem ordinal
  match contributionEntry self record with
  | .ok (some entry) => write self (MemoryWrite.unexplained [entry]) record
  | _ => none

def rememberGuardDecision (record : CeremonyRecordRef) : Option MemoryRequest :=
  match guardEntry self record with
  | .ok (some entry) => write self (MemoryWrite.unexplained [entry]) record
  | _ => none

def rememberEnding (definition : CeremonyDefinition) : Option MemoryRequest :=
  match endingEntry self definition with
  | .ok (some (record, entry)) => write self (MemoryWrite.unexplained [entry]) record
  | _ => none

def rememberReason (ordinal : Nat) : Option MemoryRequest := do
  let reason ← self.reasons[ordinal]?
  match relation reason (isRemembered self) with
  | .ok (some relation) =>
    writeWithKey self (MemoryWrite.reasonsOnly [relation]) ("reason:" ++ ordinal.repr)
  | _ => none

end Recorder

/-- What a use case asks of memory once the session it worked on is stored. -/
def request (definition : CeremonyDefinition) (self : CeremonyInstance) : Work → Option MemoryRequest
  | .respond interventionId .. | .collect interventionId .. =>
    rememberContribution self interventionId
  | .approve guardName .. | .deferral guardName .. =>
    rememberGuardDecision self (.guardDecision guardName)
  | .move .. => rememberEnding self definition
  | .assertReason .. => rememberReason self (self.reasons.length - 1)
  | _ => none

/-- The entry a call makes, and the record it is about. -/
inductive Makes (d : CeremonyDefinition) (i : CeremonyInstance) :
    Work → CeremonyRecordRef → MemoryEntry → Prop
  | contribution {work : Work} {agendaItem : CeremonyInterventionId} {item : CeremonyIntervention}
      {ordinal : U32} {entry : MemoryEntry}
      (hwork : (∃ roleId roleKind content, work = .respond agendaItem roleId roleKind content) ∨
        ∃ roleId roleKind sourceId evidencePack,
          work = .collect agendaItem roleId roleKind sourceId evidencePack)
      (hitem : i.intervention agendaItem = some item)
      (hordinal : CeremonyInstance.lastOrdinal item.responses = some ordinal)
      (hentry : contributionEntry i (.contribution agendaItem ordinal) = .ok (some entry)) :
      Makes d i work (.contribution agendaItem ordinal) entry
  | decision {work : Work} {guardName : GuardName} {entry : MemoryEntry}
      (hwork : (∃ roleId roleKind, work = .approve guardName roleId roleKind) ∨
        ∃ roleId roleKind content, work = .deferral guardName roleId roleKind content)
      (hentry : guardEntry i (.guardDecision guardName) = .ok (some entry)) :
      Makes d i work (.guardDecision guardName) entry
  | ending {roleId : RoleId} {roleKind : AuditActorKind} {trigger : TransitionTrigger}
      {record : CeremonyRecordRef} {entry : MemoryEntry}
      (hentry : endingEntry i d = .ok (some (record, entry))) :
      Makes d i (.move roleId roleKind trigger) record entry

section Requests

variable {d : CeremonyDefinition} {i : CeremonyInstance} {work : Work} {record : CeremonyRecordRef}
  {entry : MemoryEntry} {r : MemoryRequest}

def keyOf (id : CeremonyId) (discriminator : String) : String :=
  "remember:" ++ id.asStr ++ ":" ++ discriminator

theorem keyOf_inj {id : CeremonyId} {a b : String} (h : keyOf id a = keyOf id b) : a = b :=
  (String.append_right_inj _).mp h

theorem memoryEntry_new_ok {id : MemoryEntryId} {kind : MemoryEntryKind} {summary : String}
    {dimension : Option MemoryDimension} {provenance : MemoryProvenance} {detail : Attributes}
    (h : MemoryEntry.new id kind summary dimension provenance detail = .ok entry) :
    entry.id = id ∧ entry.kind = kind ∧ entry.provenance = provenance := by
  simp only [MemoryEntry.new, except_bind_eq_ok] at h
  obtain ⟨_, -, h⟩ := h
  obtain rfl := Except.ok.inj h
  exact ⟨rfl, rfl, rfl⟩

theorem contributionEntry_ok {agendaItem : CeremonyInterventionId} {ordinal : U32}
    (h : contributionEntry i (.contribution agendaItem ordinal) = .ok (some entry)) :
    entryId (.contribution agendaItem ordinal) = .ok entry.id ∧
      ∃ item response, i.intervention agendaItem = some item ∧
        item.responses[ordinal.val]? = some response ∧
        entry.provenance = ⟨i.id, some response.roleId, response.respondedAt⟩ := by
  simp only [contributionEntry] at h
  split at h
  · simp at h
  · next item hitem =>
    split at h
    · simp at h
    · next response hresponse =>
      simp only [except_bind_eq_ok] at h
      obtain ⟨id, hid, _, -, bare, hbare, _, -, h⟩ := h
      obtain rfl := Option.some.inj (Except.ok.inj h)
      obtain ⟨rfl, -, hprovenance⟩ := memoryEntry_new_ok hbare
      exact ⟨hid, item, response, hitem, hresponse, hprovenance⟩

theorem guardEntry_ok {guardName : GuardName}
    (h : guardEntry i (.guardDecision guardName) = .ok (some entry)) :
    entryId (.guardDecision guardName) = .ok entry.id ∧
      ((∃ approval, (i.guardApprovals.find? fun approval => approval.guardName = guardName) =
          some approval ∧ entry.kind = .decision ∧
          entry.provenance = ⟨i.id, some approval.approvedBy, approval.approvedAt⟩) ∨
        (i.guardApprovals.find? fun approval => approval.guardName = guardName) = none ∧
        ∃ deferral, (i.guardDeferrals.find? fun deferral => deferral.guardName = guardName) =
          some deferral ∧ entry.kind = .constraint ∧
          entry.provenance = ⟨i.id, some deferral.deferredBy, deferral.deferredAt⟩) := by
  simp only [guardEntry] at h
  split at h
  · next approval happroval =>
    simp only [approvalEntry, except_map_eq_ok, except_bind_eq_ok] at h
    obtain ⟨made, ⟨id, hid, hnew⟩, hsome⟩ := h
    obtain rfl := Option.some.inj hsome
    obtain ⟨rfl, hkind, hprovenance⟩ := memoryEntry_new_ok hnew
    exact ⟨hid, .inl ⟨approval, happroval, hkind, hprovenance⟩⟩
  · next hnone =>
    split at h
    · next deferral hdeferral =>
      simp only [deferralEntry, except_map_eq_ok, except_bind_eq_ok] at h
      obtain ⟨made, ⟨id, hid, hnew⟩, hsome⟩ := h
      obtain rfl := Option.some.inj hsome
      obtain ⟨rfl, hkind, hprovenance⟩ := memoryEntry_new_ok hnew
      exact ⟨hid, .inr ⟨hnone, deferral, hdeferral, hkind, hprovenance⟩⟩
    · simp at h

theorem endingEntry_ok (h : endingEntry i d = .ok (some (record, entry))) :
    entryId record = .ok entry.id ∧ (∃ ordinal, record = .transition ordinal ∧
      ordinal.val = i.transitions.length) ∧ ∃ ending, i.transitions.getLast? = some ending ∧
        entry.provenance = ⟨i.id, ending.appliedBy, ending.appliedAt⟩ := by
  unfold endingEntry at h
  split at h
  · split at h
    · simp at h
    · next ending hending =>
      split at h
      · simp only [except_bind_eq_ok] at h
        obtain ⟨id, hid, made, hnew, h⟩ := h
        obtain ⟨rfl, rfl⟩ := Prod.mk.inj (Option.some.inj (Except.ok.inj h))
        obtain ⟨rfl, -, hprovenance⟩ := memoryEntry_new_ok hnew
        exact ⟨hid, ⟨_, rfl, rfl⟩, ending, hending, hprovenance⟩
      · simp at h
  · simp at h

theorem Makes.named (h : Makes d i work record entry) : entryId record = .ok entry.id := by
  cases h with
  | contribution _ _ _ hentry => exact (contributionEntry_ok hentry).1
  | decision _ hentry => exact (guardEntry_ok hentry).1
  | ending hentry => exact (endingEntry_ok hentry).1

theorem Makes.memorable (h : Makes d i work record entry) : Memorable record := by
  cases h with
  | contribution | decision => trivial
  | ending hentry =>
    obtain ⟨-, ⟨ordinal, rfl, -⟩, -⟩ := endingEntry_ok hentry
    trivial

/-- A request to keep an entry. -/
structure AsksEntry (i : CeremonyInstance) (entry : MemoryEntry) (r : MemoryRequest) : Prop where
  scope : MemoryScope.ofCeremony i.id = .ok r.scope
  entries : r.write.entries = [entry]
  relations : r.write.relations = []
  key : r.key = keyOf i.id entry.id.asStr

/-- A request to keep a reason, the one of this number. -/
structure AsksRelation (i : CeremonyInstance) (ordinal : Nat) (relation : MemoryRelation)
    (r : MemoryRequest) : Prop where
  scope : MemoryScope.ofCeremony i.id = .ok r.scope
  entries : r.write.entries = []
  relations : r.write.relations = [relation]
  key : r.key = keyOf i.id ("reason:" ++ ordinal.repr)

theorem toOption_eq_some {α : Type} {x : Except DomainError α} {a : α} :
    x.toOption = some a ↔ x = .ok a := by
  cases x with
  | error e => simp [Except.toOption]
  | ok b => simp [Except.toOption]

theorem writeWithKey_eq_some {write : Except DomainError MemoryWrite} {discriminator : String}
    (htrim : trim discriminator = discriminator) (hne : discriminator ≠ "") :
    writeWithKey i write discriminator = some r ↔ write = .ok r.write ∧
      MemoryScope.ofCeremony i.id = .ok r.scope ∧ r.key = keyOf i.id discriminator := by
  simp only [writeWithKey, Option.bind_eq_bind, Option.bind_eq_some_iff, toOption_eq_some,
    MemoryProvenance.idempotencyKey, htrim, if_neg hne]
  constructor
  · rintro ⟨w, hw, scope, hscope, key, hkey, h⟩
    obtain rfl := Option.some.inj h
    exact ⟨hw, hscope, (Except.ok.inj hkey).symm⟩
  · rintro ⟨hw, hscope, hkey⟩
    exact ⟨r.write, hw, r.scope, hscope, r.key, by rw [hkey]; rfl, rfl⟩

theorem write_eq_some (hid : entryId record = .ok entry.id) :
    write i (MemoryWrite.unexplained [entry]) record = some r ↔ AsksEntry i entry r := by
  have htext := entryId_asStr hid
  simp only [write, hid, Except.toOption, Option.bind_eq_bind, Option.bind_some]
  rw [writeWithKey_eq_some (by rw [htext]; exact trim_entryText record)
    (by rw [htext]; exact entryText_ne_empty record)]
  constructor
  · rintro ⟨hw, hscope, hkey⟩
    have hw := Except.ok.inj hw
    exact ⟨hscope, by rw [← hw], by rw [← hw], hkey⟩
  · intro h
    obtain ⟨scope, ⟨entries, relations, something⟩, key⟩ := r
    obtain ⟨hscope, rfl, rfl, hkey⟩ := h
    exact ⟨rfl, hscope, hkey⟩

theorem request_makes (h : Makes d i work record entry) :
    request d i work = some r ↔ AsksEntry i entry r := by
  rw [← write_eq_some h.named]
  cases h with
  | @contribution _ agendaItem item ordinal _ hwork hitem hordinal hentry =>
    have hrequest : request d i work = rememberContribution i agendaItem := by
      obtain ⟨_, _, _, rfl⟩ | ⟨_, _, _, _, rfl⟩ := hwork
      · rfl
      · rfl
    rw [hrequest]
    simp only [rememberContribution, hitem, hordinal, hentry, Option.bind_eq_bind, Option.bind_some]
  | @decision _ guardName _ hwork hentry =>
    have hrequest : request d i work = rememberGuardDecision i (.guardDecision guardName) := by
      obtain ⟨_, _, rfl⟩ | ⟨_, _, _, rfl⟩ := hwork
      · rfl
      · rfl
    rw [hrequest, rememberGuardDecision, hentry]
  | ending hentry =>
    change rememberEnding i d = some r ↔ _
    rw [rememberEnding, hentry]

theorem request_cases (h : request d i work = some r) :
    (∃ record entry, Makes d i work record entry ∧ AsksEntry i entry r) ∨
      ∃ roleId roleKind fromRecord toRecord kind why confidence reason edge,
        work = .assertReason roleId roleKind fromRecord toRecord kind why confidence ∧
        i.reasons[i.reasons.length - 1]? = some reason ∧
        relation reason (isRemembered i) = .ok (some edge) ∧
        AsksRelation i (i.reasons.length - 1) edge r := by
  have hmakes {record : CeremonyRecordRef} {entry : MemoryEntry}
      (hm : Makes d i work record entry) :
      ∃ record entry, Makes d i work record entry ∧ AsksEntry i entry r :=
    ⟨record, entry, hm, (request_makes hm).mp h⟩
  have hcontribution (agendaItem : CeremonyInterventionId)
      (hwork : (∃ roleId roleKind content, work = .respond agendaItem roleId roleKind content) ∨
        ∃ roleId roleKind sourceId evidencePack,
          work = .collect agendaItem roleId roleKind sourceId evidencePack)
      (hr : rememberContribution i agendaItem = some r) :
      ∃ record entry, Makes d i work record entry ∧ AsksEntry i entry r := by
    simp only [rememberContribution, Option.bind_eq_bind, Option.bind_eq_some_iff] at hr
    obtain ⟨item, hitem, ordinal, hordinal, hr⟩ := hr
    split at hr
    · next entry hentry => exact hmakes (.contribution hwork hitem hordinal hentry)
    · simp at hr
  have hdecision (guardName : GuardName)
      (hwork : (∃ roleId roleKind, work = .approve guardName roleId roleKind) ∨
        ∃ roleId roleKind content, work = .deferral guardName roleId roleKind content)
      (hr : rememberGuardDecision i (.guardDecision guardName) = some r) :
      ∃ record entry, Makes d i work record entry ∧ AsksEntry i entry r := by
    unfold rememberGuardDecision at hr
    split at hr
    · next entry hentry => exact hmakes (.decision hwork hentry)
    · simp at hr
  cases work with
  | respond agendaItem => exact .inl (hcontribution agendaItem (.inl ⟨_, _, _, rfl⟩) h)
  | collect agendaItem => exact .inl (hcontribution agendaItem (.inr ⟨_, _, _, _, rfl⟩) h)
  | approve guardName => exact .inl (hdecision guardName (.inl ⟨_, _, rfl⟩) h)
  | deferral guardName => exact .inl (hdecision guardName (.inr ⟨_, _, _, rfl⟩) h)
  | move =>
    have hr : rememberEnding i d = some r := h
    unfold rememberEnding at hr
    split at hr
    · next record entry hentry => exact .inl (hmakes (.ending hentry))
    · simp at hr
  | assertReason roleId roleKind fromRecord toRecord kind why confidence =>
    have hr : rememberReason i (i.reasons.length - 1) = some r := h
    simp only [rememberReason, Option.bind_eq_bind, Option.bind_eq_some_iff] at hr
    obtain ⟨reason, hreason, hr⟩ := hr
    split at hr
    · next edge hedge =>
      refine .inr ⟨_, _, _, _, _, _, _, reason, edge, rfl, hreason, hedge, ?_⟩
      rw [writeWithKey_eq_some (trim_led ⟨'r', _, rfl, by decide⟩ (tidy_repr _)) (by simp)] at hr
      obtain ⟨hw, hscope, hkey⟩ := hr
      have hw := Except.ok.inj hw
      exact ⟨hscope, by rw [← hw], by rw [← hw], hkey⟩
    · simp at hr
  | _ => simp [request] at h

end Requests

end Choreographer.MemoryRecorder
