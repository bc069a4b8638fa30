import Choreographer.Lib.ByteStrings
import Choreographer.Lib.Padding

namespace Choreographer.Texts

open Choreographer.Lib.ByteStrings Choreographer.Lib.Padding

/-- The errors of the domain. `outOfRange` carries whole numbers: every range
the modelled code reports is one of counts. -/
inductive DomainError
  | emptyField (field : String)
  | fieldTooLong (field : String) (actual max : Nat)
  | invalidCharacters (field : String)
  | outOfRange (field : String) (value min max : Int)
  | mustBeNonZero (field : String)
  | emptyCollection (field : String)
  | invalidTransition (source target : String)
  | invariantViolated (reason : String)
  | notFound (what : String)
  | alreadyExists (what : String)
  | conflict (what : String)
  | noValidProposal (contractId : String)
deriving DecidableEq, Repr

def DomainError.toString : DomainError → String
  | .emptyField field => "field `" ++ field ++ "` must not be empty"
  | .fieldTooLong field actual max =>
    "field `" ++ field ++ "` exceeds maximum length: " ++ actual.repr ++ " > " ++ max.repr
  | .invalidCharacters field => "field `" ++ field ++ "` contains invalid characters"
  | .outOfRange field value min max =>
    "value `" ++ field ++ "` out of range: " ++ value.repr ++ " not in [" ++ min.repr ++ ", " ++
      max.repr ++ "]"
  | .mustBeNonZero field => "value `" ++ field ++ "` must be non-zero"
  | .emptyCollection field => "collection `" ++ field ++ "` must contain at least one element"
  | .invalidTransition source target =>
    "invalid state transition `" ++ source ++ "` -> `" ++ target ++ "`"
  | .invariantViolated reason => "invariant violated: " ++ reason
  | .notFound what => "not found: " ++ what
  | .alreadyExists what => "already exists: " ++ what
  | .conflict what => "conflict: " ++ what ++ " was changed by someone else first"
  | .noValidProposal contractId =>
    "no valid proposal satisfied output contract `" ++ contractId ++ "`"

/-- The Unicode White_Space property. -/
def isWhitespace (c : Char) : Bool :=
  let v := c.toNat
  (0x09 ≤ v && v ≤ 0x0d) || v == 0x20 || v == 0x85 || v == 0xa0 || v == 0x1680 ||
    (0x2000 ≤ v && v ≤ 0x200a) || v == 0x2028 || v == 0x2029 || v == 0x202f || v == 0x205f ||
    v == 0x3000

/-- The Unicode control characters, category Cc. -/
def isControl (c : Char) : Bool :=
  let v := c.toNat
  v ≤ 0x1f || (0x7f ≤ v && v ≤ 0x9f)

def isAsciiLowercase (c : Char) : Bool := 'a' ≤ c && c ≤ 'z'

def isAsciiDigit (c : Char) : Bool := '0' ≤ c && c ≤ '9'

def isAsciiAlphanumeric (c : Char) : Bool :=
  isAsciiLowercase c || ('A' ≤ c && c ≤ 'Z') || isAsciiDigit c

theorem isWhitespace_of_between {c : Char} (hlow : 32 < c.toNat) (hhigh : c.toNat < 127) :
    isWhitespace c = false := by
  simp only [isWhitespace, Bool.or_eq_false_iff, Bool.and_eq_false_iff, decide_eq_false_iff_not,
    beq_eq_false_iff_ne]
  omega

theorem between_of_mem_repr {n : Nat} {c : Char} (h : c ∈ n.repr.toList) :
    48 ≤ c.toNat ∧ c.toNat ≤ 57 := by
  rw [Nat.toList_repr] at h
  have hdigit := Nat.isDigit_of_mem_toDigits (b := 10) (n := n) (by omega) (by omega) h
  simpa [Char.isDigit, UInt32.le_iff_toNat_le] using hdigit

theorem notMem_repr {c : Char} (hc : c.toNat < 48 ∨ 57 < c.toNat) (n : Nat) : c ∉ n.repr.toList := by
  intro h
  have hbetween := between_of_mem_repr h
  omega

theorem repr_injective {n m : Nat} (h : n.repr = m.repr) : n = m := by
  have hdigits := congrArg (fun s => Nat.ofDigitChars 10 s.toList 0) h
  simpa only [Nat.toList_repr, Nat.ofDigitChars_ten_toDigits] using hdigits

def trim (s : String) : String :=
  String.ofList ((s.toList.dropWhile isWhitespace).rdropWhile isWhitespace)

theorem toList_trim (s : String) : (trim s).toList = strip isWhitespace s.toList := by
  simp [trim, strip]

theorem trim_trim (s : String) : trim (trim s) = trim s := by
  rw [← String.toList_inj, toList_trim, toList_trim, strip_strip]

theorem trim_of_unspaced {s : String} (h : ∀ c ∈ s.toList, isWhitespace c = false) : trim s = s := by
  rw [← String.toList_inj, toList_trim, strip_clean h]

/-- What a validating constructor of a textual newtype checks after trimming,
in this order. A type without a length limit of its own has the one every
string has. -/
structure TextRule where
  field : String
  maxLen : Nat
  allowed : Char → Bool
  fits : maxLen < 2 ^ 64 := by decide

def stringLimit : Nat := 2 ^ 64 - 1

def TextRule.check (rule : TextRule) (raw : String) : Except DomainError String :=
  let trimmed := trim raw
  if trimmed = "" then .error (.emptyField rule.field)
  else if trimmed.utf8ByteSize > rule.maxLen then
    .error (.fieldTooLong rule.field trimmed.utf8ByteSize rule.maxLen)
  else if trimmed.toList.any (fun c => !rule.allowed c) then
    .error (.invalidCharacters rule.field)
  else .ok trimmed

theorem TextRule.check_ok {rule : TextRule} {raw s : String} :
    rule.check raw = .ok s ↔ s = trim raw ∧ s ≠ "" ∧ s.utf8ByteSize ≤ rule.maxLen ∧
      ∀ c ∈ s.toList, rule.allowed c = true := by
  unfold TextRule.check
  simp only
  split_ifs with h1 h2 h3
  · simp only [false_iff]
    rintro ⟨rfl, h, -⟩
    exact h h1
  · simp only [false_iff]
    rintro ⟨rfl, -, h, -⟩
    omega
  · simp only [false_iff]
    rintro ⟨rfl, -, -, h⟩
    simp only [List.any_eq_true, Bool.not_eq_true'] at h3
    obtain ⟨c, hc, hf⟩ := h3
    simp [h c hc] at hf
  · simp only [Except.ok.injEq]
    constructor
    · rintro rfl
      refine ⟨rfl, h1, by omega, fun c hc => ?_⟩
      by_contra hn
      exact h3 (List.any_eq_true.mpr ⟨c, hc, by simpa using hn⟩)
    · rintro ⟨rfl, -⟩
      rfl

theorem TextRule.check_idem {rule : TextRule} {raw s : String} (h : rule.check raw = .ok s) :
    rule.check s = .ok s := by
  obtain ⟨rfl, h⟩ := check_ok.mp h
  exact check_ok.mpr ⟨(trim_trim raw).symm, h⟩

/-- A text its rule leaves as it is. Only such a text can be held, so an
identifier is valid wherever one is met. -/
structure Text (rule : TextRule) where
  asStr : String
  valid : rule.check asStr = .ok asStr

namespace Text

variable {rule : TextRule}

@[ext] theorem ext {s t : Text rule} (h : s.asStr = t.asStr) : s = t := by
  obtain ⟨s, hs⟩ := s
  obtain ⟨t, ht⟩ := t
  have h : s = t := h
  subst h
  rfl

/-- Identifiers are ordered by their bytes. -/
instance : LinearOrder (Text rule) :=
  LinearOrder.lift' (fun t : Text rule => utf8 t.asStr)
    (fun _ _ h => Text.ext (utf8_injective h))

theorem lt_iff {s t : Text rule} : s < t ↔ utf8 s.asStr < utf8 t.asStr := Iff.rfl

def new (raw : String) : Except DomainError (Text rule) :=
  match h : rule.check raw with
  | .ok s => .ok ⟨s, TextRule.check_idem h⟩
  | .error e => .error e

theorem trim_asStr (t : Text rule) : trim t.asStr = t.asStr :=
  ((TextRule.check_ok.mp t.valid).1).symm

theorem asStr_ne_empty (t : Text rule) : t.asStr ≠ "" := (TextRule.check_ok.mp t.valid).2.1

theorem size_le (t : Text rule) : t.asStr.utf8ByteSize ≤ rule.maxLen :=
  (TextRule.check_ok.mp t.valid).2.2.1

theorem allowed_of_mem (t : Text rule) {c : Char} (h : c ∈ t.asStr.toList) :
    rule.allowed c = true := (TextRule.check_ok.mp t.valid).2.2.2 c h

theorem new_eq_ok {raw : String} {t : Text rule} :
    new raw = .ok t ↔ rule.check raw = .ok t.asStr := by
  unfold new
  split
  · next s h => simp [h, Text.ext_iff]
  · next e h => simp [h]

end Text

def noControl (c : Char) : Bool := !isControl c

def isSnakeCase (c : Char) : Bool := isAsciiLowercase c || isAsciiDigit c || c == '_'

def isVersionChar (c : Char) : Bool :=
  isAsciiAlphanumeric c || c == '.' || c == '-' || c == '_'

def isHandlerKindChar (c : Char) : Bool :=
  isAsciiLowercase c || isAsciiDigit c || c == '_' || c == '-' || c == '.'

def isProse (c : Char) : Bool := !(isControl c && !(c == '\n' || c == '\r' || c == '\t'))

theorem prose_fits : 4096 < 2 ^ 64 := by decide

abbrev CeremonyId := Text ⟨"ceremony_id", 256, noControl, by decide⟩
abbrev CeremonyInterventionId := Text ⟨"ceremony_intervention_id", 256, noControl, by decide⟩
abbrev CeremonyEvidenceSourceId :=
  Text ⟨"ceremony_evidence_source_id", 128, noControl, by decide⟩
abbrev EventId := Text ⟨"event_id", 256, noControl, by decide⟩
abbrev AgentId := Text ⟨"agent_id", 256, noControl, by decide⟩
abbrev TaskId := Text ⟨"task_id", 256, noControl, by decide⟩
abbrev ProposalId := Text ⟨"proposal_id", 256, noControl, by decide⟩
abbrev CouncilId := Text ⟨"council_id", 256, noControl, by decide⟩
abbrev Specialty := Text ⟨"specialty", 128, noControl, by decide⟩
abbrev AgentKind := Text ⟨"agent.kind", 64, noControl, by decide⟩
abbrev CeremonyName := Text ⟨"ceremony_name", 128, isSnakeCase, by decide⟩
abbrev CeremonyVersion := Text ⟨"ceremony_version", 64, isVersionChar, by decide⟩
abbrev CeremonyDescription := Text ⟨"ceremony_description", 4096, noControl, prose_fits⟩
abbrev InputName := Text ⟨"input_name", stringLimit, noControl, by decide⟩
abbrev OutputName := Text ⟨"output_name", stringLimit, noControl, by decide⟩
abbrev StateId := Text ⟨"state_id", stringLimit, noControl, by decide⟩
abbrev RoleId := Text ⟨"role_id", stringLimit, noControl, by decide⟩
abbrev TransitionTrigger := Text ⟨"transition_trigger", stringLimit, noControl, by decide⟩
abbrev IdempotencyKey := Text ⟨"idempotency_key", stringLimit, noControl, by decide⟩
abbrev LeaseOwnerId := Text ⟨"lease_owner_id", stringLimit, noControl, by decide⟩
abbrev StepId := Text ⟨"step_id", stringLimit, isSnakeCase, by decide⟩
abbrev GuardName := Text ⟨"guard_name", stringLimit, isSnakeCase, by decide⟩
abbrev StepHandlerKind := Text ⟨"step_handler_kind", 128, isHandlerKindChar, by decide⟩
abbrev StepErrorMessage := Text ⟨"step_error_message", 2048, noControl, by decide⟩
abbrev OutboxQuarantineReason := Text ⟨"outbox_quarantine_reason", 512, fun _ => true, by decide⟩
abbrev OutboxSubject :=
  Text ⟨"outbox_subject", 256, fun c => !isWhitespace c, by decide⟩
abbrev AuditActorId := Text ⟨"audit_actor.actor_id", 256, fun _ => true, by decide⟩
abbrev InterventionMessage := Text ⟨"ceremony_intervention.message", 16384, isProse, by decide⟩

def versionOne : CeremonyVersion := ⟨"1", by decide⟩

theorem ceremonyId_zero_notMem (id : CeremonyId) : (0 : Byte) ∉ utf8 id.asStr :=
  zero_notMem_utf8 (fun h => absurd (id.allowed_of_mem h) (by decide))

end Choreographer.Texts
