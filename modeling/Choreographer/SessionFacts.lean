import Choreographer.Audit
import Choreographer.Instance

namespace Choreographer.SessionFacts

open Choreographer.Lib.SortedMaps Choreographer.Lib.Updates Choreographer.Lib.Padding
open Choreographer.Texts Choreographer.Values Choreographer.Steps Choreographer.DefinitionParts
open Choreographer.Definition Choreographer.Agenda Choreographer.Instance Choreographer.Audit

def actor (roleId : RoleId) (kind : AuditActorKind) : Except DomainError AuditActor :=
  AuditActor.new roleId.asStr kind (some roleId)

/-- The id of an event says which session, what happened, and to which thing. -/
def eventIdText (id : CeremonyId) (eventType : AuditEventType) (about : String) : String :=
  id.asStr ++ ":" ++ eventType.asStr ++ ":" ++ about

def fact (session : CeremonyInstance) (eventType : AuditEventType) (about : String)
    (actor : AuditActor) (occurredAt : OffsetDateTime) : Except DomainError AuditFact := do
  let eventId : EventId ← Text.new (eventIdText session.id eventType about)
  pure { eventId, eventType
         ceremonyId := session.id
         definitionName := session.definitionName
         definitionVersion := session.definitionVersion
         occurredAt, actor
         correlationId := none
         causationId := none
         trace := none }

def seatFact (session : CeremonyInstance) (eventType : AuditEventType) (about : String)
    (roleId : RoleId) (kind : AuditActorKind) (occurredAt : OffsetDateTime) :
    Except DomainError AuditFact := do
  let actor ← actor roleId kind
  fact session eventType about actor occurredAt

def partyFact (session : CeremonyInstance) (eventType : AuditEventType) (about : String)
    (actorId : String) (kind : AuditActorKind) (occurredAt : OffsetDateTime) :
    Except DomainError AuditFact := do
  let actor ← AuditActor.new actorId kind none
  fact session eventType about actor occurredAt

def aboutGuard (guardName : GuardName) : String := "guard:" ++ guardName.asStr

def aboutTransition (session : CeremonyInstance) : String :=
  "transition:" ++ session.transitions.length.repr

def aboutIntervention (interventionId : CeremonyInterventionId) : String :=
  "intervention:" ++ interventionId.asStr

def aboutResponse (interventionId : CeremonyInterventionId) (roleId : RoleId) : String :=
  "intervention:" ++ interventionId.asStr ++ ":" ++ roleId.asStr

def aboutEvidence (interventionId : CeremonyInterventionId)
    (sourceId : CeremonyEvidenceSourceId) : String :=
  "intervention:" ++ interventionId.asStr ++ ":source:" ++ sourceId.asStr

def aboutReason (session : CeremonyInstance) : String := "reason:" ++ session.reasons.length.repr

def aboutStep (stepId : StepId) (attempt : StepAttempt) : String :=
  "step:" ++ stepId.asStr ++ ":attempt:" ++ attempt.get.val.repr

def aboutSession : String := "session"

def aboutSeating (seating : OrdMap RoleId Specialty) : String :=
  "seating:" ++ ",".intercalate (seating.entries.map fun e => e.1.asStr ++ "=" ++ e.2.asStr)

section Facts

variable (session : CeremonyInstance)

def guardApproved (guardName : GuardName) (approvedBy : RoleId) (approvedByKind : AuditActorKind)
    (occurredAt : OffsetDateTime) : Except DomainError AuditFact :=
  seatFact session .humanApprovalRecorded (aboutGuard guardName) approvedBy approvedByKind occurredAt

def guardDeferred (guardName : GuardName) (deferredBy : RoleId) (deferredByKind : AuditActorKind)
    (occurredAt : OffsetDateTime) : Except DomainError AuditFact :=
  seatFact session .humanDeferralRecorded (aboutGuard guardName) deferredBy deferredByKind occurredAt

/-- A move is one fact, and reaching an end is another. -/
def transitionApplied (definition : CeremonyDefinition) (appliedBy : RoleId)
    (appliedByKind : AuditActorKind) (occurredAt : OffsetDateTime) :
    Except DomainError (List AuditFact) := do
  let actor ← actor appliedBy appliedByKind
  let moved ← fact session .transitionApplied (aboutTransition session) actor occurredAt
  if session.isTerminal definition then
    let ended ← fact session .ceremonyCompleted (aboutTransition session) actor occurredAt
    pure [moved, ended]
  else pure [moved]

def interventionRequested (interventionId : CeremonyInterventionId) (requestedBy : RoleId)
    (requestedByKind : AuditActorKind) (occurredAt : OffsetDateTime) :
    Except DomainError AuditFact :=
  seatFact session .interventionRequested (aboutIntervention interventionId) requestedBy
    requestedByKind occurredAt

def interventionResponded (interventionId : CeremonyInterventionId) (respondedBy : RoleId)
    (respondedByKind : AuditActorKind) (occurredAt : OffsetDateTime) :
    Except DomainError AuditFact :=
  seatFact session .interventionResponded (aboutResponse interventionId respondedBy) respondedBy
    respondedByKind occurredAt

def interventionClosed (interventionId : CeremonyInterventionId) (closedBy : RoleId)
    (closedByKind : AuditActorKind) (occurredAt : OffsetDateTime) : Except DomainError AuditFact :=
  seatFact session .interventionClosed (aboutIntervention interventionId) closedBy closedByKind
    occurredAt

/-- A source was consulted, and the item was answered. -/
def evidenceCollected (interventionId : CeremonyInterventionId)
    (sourceId : CeremonyEvidenceSourceId) (collectedBy : RoleId) (collectedByKind : AuditActorKind)
    (occurredAt : OffsetDateTime) : Except DomainError (List AuditFact) := do
  let consulted ← seatFact session .evidenceCollected (aboutEvidence interventionId sourceId)
    collectedBy collectedByKind occurredAt
  let responded ← interventionResponded session interventionId collectedBy collectedByKind occurredAt
  pure [consulted, responded]

def reasonAsserted (assertedBy : RoleId) (assertedByKind : AuditActorKind)
    (occurredAt : OffsetDateTime) : Except DomainError AuditFact :=
  seatFact session .reasonAsserted (aboutReason session) assertedBy assertedByKind occurredAt

def stepFact (eventType : AuditEventType) (stepId : StepId) (attempt : StepAttempt)
    (actorRole : RoleId) (actorKind : AuditActorKind) (occurredAt : OffsetDateTime) :
    Except DomainError AuditFact :=
  seatFact session eventType (aboutStep stepId attempt) actorRole actorKind occurredAt

def stepStarted (stepId : StepId) (attempt : StepAttempt) (startedBy : RoleId)
    (startedByKind : AuditActorKind) (occurredAt : OffsetDateTime) :
    Except DomainError AuditFact :=
  stepFact session .stepStarted stepId attempt startedBy startedByKind occurredAt

def ending (result : StepResult) : AuditEventType :=
  if result.status.isSuccess then .stepCompleted else .stepFailed

def stepFinished (stepId : StepId) (attempt : StepAttempt) (result : StepResult)
    (finishedBy : RoleId) (finishedByKind : AuditActorKind) (occurredAt : OffsetDateTime) :
    Except DomainError AuditFact :=
  stepFact session (ending result) stepId attempt finishedBy finishedByKind occurredAt

def ceremonyStarted (startedBy : String) (startedByKind : AuditActorKind)
    (occurredAt : OffsetDateTime) : Except DomainError AuditFact :=
  partyFact session .ceremonyInstanceStarted aboutSession startedBy startedByKind occurredAt

def participantsBound (seating : OrdMap RoleId Specialty) (seatedBy : String)
    (seatedByKind : AuditActorKind) (occurredAt : OffsetDateTime) : Except DomainError AuditFact :=
  partyFact session .participantsBound (aboutSeating seating) seatedBy seatedByKind occurredAt

end Facts

/-- What a fact says of a session: what happened to which thing. -/
structure Says (session : CeremonyInstance) (eventType : AuditEventType) (about : String)
    (f : AuditFact) : Prop where
  named : f.eventId.asStr = trim (eventIdText session.id eventType about)
  happened : f.eventType = eventType
  own : f.ceremonyId = session.id

variable {session : CeremonyInstance} {eventType : AuditEventType} {about : String} {f : AuditFact}

theorem fact_tells {actor : AuditActor} {occurredAt : OffsetDateTime}
    (h : fact session eventType about actor occurredAt = .ok f) :
    Says session eventType about f := by
  simp only [fact, except_bind_eq_ok, Text.new_eq_ok, TextRule.check_ok] at h
  obtain ⟨eventId, ⟨hid, -⟩, hf⟩ := h
  obtain rfl := Except.ok.inj hf
  exact ⟨hid, rfl, rfl⟩

theorem seatFact_tells {roleId : RoleId} {kind : AuditActorKind} {occurredAt : OffsetDateTime}
    (h : seatFact session eventType about roleId kind occurredAt = .ok f) :
    Says session eventType about f := by
  simp only [seatFact, except_bind_eq_ok] at h
  obtain ⟨_, -, h⟩ := h
  exact fact_tells h

theorem partyFact_tells {actorId : String} {kind : AuditActorKind} {occurredAt : OffsetDateTime}
    (h : partyFact session eventType about actorId kind occurredAt = .ok f) :
    Says session eventType about f := by
  simp only [partyFact, except_bind_eq_ok] at h
  obtain ⟨_, -, h⟩ := h
  exact fact_tells h

section Wording

/-- A text that ends in something that is not a blank. -/
def Tidy (s : String) : Prop := ∃ l c, s.toList = l ++ [c] ∧ isWhitespace c = false

theorem Tidy.append {s : String} (h : Tidy s) (p : String) : Tidy (p ++ s) := by
  obtain ⟨l, c, hl, hc⟩ := h
  exact ⟨p.toList ++ l, c, by simp [hl], hc⟩

theorem tidy_repr (n : Nat) : Tidy n.repr := by
  have hne : n.repr.toList ≠ [] := by simp [Nat.toList_repr]
  refine ⟨n.repr.toList.dropLast, n.repr.toList.getLast hne,
    (List.dropLast_append_getLast hne).symm, ?_⟩
  obtain ⟨hlow, hhigh⟩ := between_of_mem_repr (List.getLast_mem hne)
  exact isWhitespace_of_between (by omega) (by omega)

/-- A text that begins with something that is not a blank. -/
def Led (s : String) : Prop := ∃ c l, s.toList = c :: l ∧ isWhitespace c = false

theorem trim_led {p s : String} (hp : Led p) (h : Tidy s) : trim (p ++ s) = p ++ s := by
  obtain ⟨c, l, hl, hc⟩ := hp
  obtain ⟨m, x, hm, hx⟩ := h
  have hends : (p ++ s).toList = c :: ((l ++ m) ++ [x]) := by
    simp [hl, hm]
  rw [← String.toList_inj, toList_trim, hends, strip_bounded hc hx]

theorem trimmed_ends {s : String} (h : trim s = s) (hne : s ≠ "") : Led s ∧ Tidy s := by
  have hl : (s.toList.dropWhile isWhitespace).rdropWhile isWhitespace = s.toList := by
    have hlist := congrArg String.toList h
    rwa [trim, String.toList_ofList] at hlist
  have hnil : s.toList ≠ [] := by simpa using hne
  unfold Led Tidy
  generalize s.toList = l at hl hnil
  have hdrop : l.dropWhile isWhitespace = l := by
    refine (List.dropWhile_suffix isWhitespace).eq_of_length_le ?_
    have hle := (List.rdropWhile_prefix isWhitespace (l.dropWhile isWhitespace)).length_le
    rwa [hl] at hle
  rw [hdrop, List.rdropWhile_eq_self_iff] at hl
  refine ⟨?_, l.dropLast, l.getLast hnil, (List.dropLast_append_getLast hnil).symm,
    by simpa using hl hnil⟩
  cases l with
  | nil => exact absurd rfl hnil
  | cons c l =>
    refine ⟨c, l, rfl, ?_⟩
    rw [List.dropWhile_eq_self_iff] at hdrop
    simpa using hdrop

theorem tidy_text {rule : TextRule} (t : Text rule) : Tidy t.asStr :=
  (trimmed_ends t.trim_asStr t.asStr_ne_empty).2

theorem trim_append {rule : TextRule} (t : Text rule) {s : String} (h : Tidy s) :
    trim (t.asStr ++ s) = t.asStr ++ s :=
  trim_led (trimmed_ends t.trim_asStr t.asStr_ne_empty).1 h

theorem tidy_intercalate (sep : String) {l : List String} (hne : l ≠ [])
    (h : ∀ s ∈ l, Tidy s) : Tidy (sep.intercalate l) := by
  induction l with
  | nil => exact absurd rfl hne
  | cons s rest ih =>
    cases rest with
    | nil =>
      rw [String.intercalate_singleton]
      exact h s List.mem_cons_self
    | cons t others =>
      rw [String.intercalate_cons_cons]
      exact (ih (by simp) fun u hu => h u (List.mem_cons_of_mem _ hu)).append _

theorem tidy_aboutSeating {seating : OrdMap RoleId Specialty} (h : seating.entries ≠ []) :
    Tidy (aboutSeating seating) := by
  refine Tidy.append (tidy_intercalate _ (by simpa using h) fun s hs => ?_) _
  obtain ⟨e, -, rfl⟩ := List.mem_map.mp hs
  exact (tidy_text e.2).append _

theorem tidy_aboutSession : Tidy aboutSession := ⟨"sessio".toList, 'n', by decide, by decide⟩

/-- A text without control characters. -/
def Plain (s : String) : Prop := ∀ c ∈ s.toList, noControl c = true

instance (s : String) : Decidable (Plain s) :=
  decidable_of_iff (s.toList.all noControl = true) List.all_eq_true

theorem Plain.append {s t : String} (hs : Plain s) (ht : Plain t) : Plain (s ++ t) := by
  intro c hc
  rw [String.toList_append, List.mem_append] at hc
  exact hc.elim (hs c) (ht c)

theorem noControl_of_between {c : Char} (hlow : 0x20 ≤ c.toNat) (hhigh : c.toNat ≤ 0x7e) :
    noControl c = true := by
  simp only [noControl, isControl, Bool.not_eq_true', Bool.or_eq_false_iff, Bool.and_eq_false_iff,
    decide_eq_false_iff_not]
  omega

theorem noControl_of_isSnakeCase {c : Char} (h : isSnakeCase c = true) : noControl c = true := by
  simp only [isSnakeCase, isAsciiLowercase, isAsciiDigit, Bool.or_eq_true, Bool.and_eq_true,
    decide_eq_true_eq, beq_iff_eq] at h
  rcases h with (⟨hlow, hhigh⟩ | ⟨hlow, hhigh⟩) | rfl
  · have hlow : 97 ≤ c.toNat := hlow
    have hhigh : c.toNat ≤ 122 := hhigh
    exact noControl_of_between (by omega) (by omega)
  · have hlow : 48 ≤ c.toNat := hlow
    have hhigh : c.toNat ≤ 57 := hhigh
    exact noControl_of_between (by omega) (by omega)
  · decide

theorem plain_text {rule : TextRule} (t : Text rule)
    (hrule : ∀ c, rule.allowed c = true → noControl c = true) : Plain t.asStr :=
  fun c hc => hrule c (t.allowed_of_mem hc)

theorem plain_repr (n : Nat) : Plain n.repr := by
  intro c hc
  obtain ⟨hlow, hhigh⟩ := between_of_mem_repr hc
  exact noControl_of_between (by omega) (by omega)

theorem plain_intercalate {sep : String} (hsep : Plain sep) {l : List String}
    (h : ∀ s ∈ l, Plain s) : Plain (sep.intercalate l) := by
  induction l with
  | nil => exact fun c hc => absurd hc (by simp)
  | cons s rest ih =>
    cases rest with
    | nil =>
      rw [String.intercalate_singleton]
      exact h s List.mem_cons_self
    | cons t others =>
      rw [String.intercalate_cons_cons]
      have hrest := ih fun u hu => h u (List.mem_cons_of_mem _ hu)
      exact ((h s List.mem_cons_self).append hsep).append hrest

/-- What a derived id may speak of: nothing of it is trimmed or refused but for its length. -/
structure Worded (about : String) : Prop where
  tidy : Tidy about
  plain : Plain about

theorem Worded.after {s t : String} (ht : Worded t) (hs : Plain s) : Worded (s ++ t) :=
  ⟨ht.tidy.append s, hs.append ht.plain⟩

theorem worded_text {rule : TextRule} (t : Text rule)
    (hrule : ∀ c, rule.allowed c = true → noControl c = true) : Worded t.asStr :=
  ⟨tidy_text t, plain_text t hrule⟩

theorem worded_repr (n : Nat) : Worded n.repr := ⟨tidy_repr n, plain_repr n⟩

theorem colon_split {a b x y : String} (ha : ':' ∉ a.toList) (hb : ':' ∉ b.toList)
    (h : a ++ ":" ++ x = b ++ ":" ++ y) : a = b ∧ x = y := by
  have hl : a.toList ++ ':' :: x.toList = b.toList ++ ':' :: y.toList := by
    have hlist := congrArg String.toList h
    simpa using hlist
  obtain ⟨hab, hxy⟩ := first_sep_split ha hb hl
  exact ⟨String.toList_inj.mp hab, String.toList_inj.mp hxy⟩

theorem decimal_injective {m n : Nat} (h : m.repr = n.repr) : m = n := by
  have hdigits := congrArg String.toList h
  rw [Nat.toList_repr, Nat.toList_repr] at hdigits
  have hvalue := congrArg (fun digits => Nat.ofDigitChars 10 digits 0) hdigits
  simpa using hvalue

theorem colon_notMem_eventType (eventType : AuditEventType) : ':' ∉ eventType.asStr.toList := by
  cases eventType <;> decide

theorem colon_notMem_stepId (stepId : StepId) : ':' ∉ stepId.asStr.toList := by
  intro h
  have hallowed := stepId.allowed_of_mem h
  revert hallowed
  decide

theorem eventIdText_inj {id : CeremonyId} {ty ty' : AuditEventType} {about about' : String}
    (h : eventIdText id ty about = eventIdText id ty' about') : ty = ty' ∧ about = about' := by
  unfold eventIdText at h
  rw [String.append_assoc, String.append_assoc, String.append_assoc, String.append_assoc,
    String.append_assoc, String.append_assoc, String.append_right_inj, String.append_right_inj,
    ← String.append_assoc, ← String.append_assoc] at h
  obtain ⟨hty, habout⟩ := colon_split (colon_notMem_eventType ty) (colon_notMem_eventType ty') h
  exact ⟨eventType_asStr_injective hty, habout⟩

theorem trim_eventIdText (id : CeremonyId) (ty : AuditEventType) {about : String}
    (h : Tidy about) : trim (eventIdText id ty about) = eventIdText id ty about := by
  unfold eventIdText
  rw [String.append_assoc, String.append_assoc, String.append_assoc]
  exact trim_append id (((h.append _).append _).append _)

theorem aboutGuard_inj {g g' : GuardName} (h : aboutGuard g = aboutGuard g') : g = g' :=
  Text.ext ((String.append_right_inj _).mp h)

theorem aboutIntervention_inj {item item' : CeremonyInterventionId}
    (h : aboutIntervention item = aboutIntervention item') : item = item' :=
  Text.ext ((String.append_right_inj _).mp h)

theorem aboutStep_inj {stepId stepId' : StepId} {attempt attempt' : StepAttempt}
    (h : aboutStep stepId attempt = aboutStep stepId' attempt') :
    stepId = stepId' ∧ attempt = attempt' := by
  have hsplit : stepId.asStr ++ ":" ++ ("attempt:" ++ attempt.get.val.repr) =
      stepId'.asStr ++ ":" ++ ("attempt:" ++ attempt'.get.val.repr) := by
    unfold aboutStep at h
    have hcolon : ":attempt:" = ":" ++ "attempt:" := rfl
    rw [hcolon] at h
    simpa only [String.append_assoc, String.append_right_inj] using h
  obtain ⟨hid, hattempt⟩ :=
    colon_split (colon_notMem_stepId stepId) (colon_notMem_stepId stepId') hsplit
  exact ⟨Text.ext hid,
    StepAttempt.ext_val (decimal_injective ((String.append_right_inj _).mp hattempt))⟩

/-- Two facts of a session that go by the same id say that the same happened to
the same thing. -/
theorem Says.same {session : CeremonyInstance} {ty ty' : AuditEventType} {about about' : String}
    {f f' : AuditFact} (h : Says session ty about f) (h' : Says session ty' about' f')
    (ht : Tidy about) (ht' : Tidy about') (hid : f.eventId = f'.eventId) :
    ty = ty' ∧ about = about' := by
  have hnamed := h.named
  rw [hid, h'.named, trim_eventIdText _ _ ht, trim_eventIdText _ _ ht'] at hnamed
  exact eventIdText_inj hnamed.symm

end Wording

end Choreographer.SessionFacts
