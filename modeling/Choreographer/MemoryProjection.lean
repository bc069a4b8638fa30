import Choreographer.SessionFacts
import Choreographer.SessionMemory

namespace Choreographer.MemoryProjection

open Choreographer.Lib.SortedMaps Choreographer.Lib.Updates Choreographer.Lib.Padding
open Choreographer.Texts Choreographer.Values Choreographer.Definition Choreographer.Agenda
open Choreographer.Instance Choreographer.SessionFacts Choreographer.MemoryValues

def entryText : CeremonyRecordRef → String
  | .step stepId => "step:" ++ stepId.asStr
  | .agendaItem agendaItem => "agenda:" ++ agendaItem.asStr
  | .contribution agendaItem ordinal =>
    "agenda:" ++ agendaItem.asStr ++ ":contribution:" ++ ordinal.val.repr
  | .guardDecision guardName => "guard:" ++ guardName.asStr
  | .transition ordinal => "transition:" ++ ordinal.val.repr

def entryId (record : CeremonyRecordRef) : Except DomainError MemoryEntryId :=
  Phrase.new (entryText record)

def relationKind : CeremonyReasonKind → MemoryRelationKind
  | .answers => .answers
  | .authorizes => .authorizes
  | .chosenBecause => .chosenBecause
  | .achievedBy => .achievedBy
  | .followsFrom => .followsFrom
  | .satisfiesConstraint => .satisfiesConstraint
  | .violatesConstraint => .violatesConstraint
  | .supersedes => .supersedes
  | .contradicts => .contradicts

variable (self : CeremonyInstance)

def provenance (roleId : Option RoleId) (observedAt : OffsetDateTime) : MemoryProvenance :=
  ⟨self.id, roleId, observedAt⟩

/-- What backed a contribution, as references rather than as content. -/
def evidenceReferences (response : CeremonyInterventionResponse) :
    Except DomainError (List MemoryEvidence) :=
  match response.evidencePack with
  | none => .ok []
  | some pack => pack.items.mapM fun item => do
    let detail ← Attributes.new
      ((OrdMap.empty.insert "item_id" (.string item.itemId)).insert "kind" (.string item.kind))
    MemoryEvidence.new item.title (some pack.sourceId.asStr) detail

def contributionKind : CeremonyInterventionKind → MemoryEntryKind
  | .investigation => .observation
  | .opinion | .action => .decision

def contributionEntry (record : CeremonyRecordRef) : Except DomainError (Option MemoryEntry) :=
  match record with
  | .contribution agendaItem ordinal =>
    match self.intervention agendaItem with
    | none => .ok none
    | some item =>
      match item.responses[ordinal.val]? with
      | none => .ok none
      | some response => do
        let id ← entryId record
        let dimension ← Phrase.new ("agenda:" ++ agendaItem.asStr)
        let entry ← MemoryEntry.new id (contributionKind item.kind) response.content.message.asStr
          (some dimension) (provenance self (some response.roleId) response.respondedAt)
          Attributes.empty
        let evidence ← evidenceReferences response
        pure (some (entry.withEvidence evidence))
  | _ => .ok none

def approvalEntry (record : CeremonyRecordRef) (approval : CeremonyGuardApproval) :
    Except DomainError MemoryEntry := do
  let id ← entryId record
  MemoryEntry.new id .decision ("`" ++ approval.guardName.asStr ++ "` was approved") none
    (provenance self (some approval.approvedBy) approval.approvedAt) Attributes.empty

/-- What would make it worth asking again travels with a deferral. -/
def deferralSummary (deferral : CeremonyGuardDeferral) : String :=
  "`" ++ deferral.guardName.asStr ++ "` was not decided: " ++ deferral.content.reason.asStr ++
    " — worth revisiting when " ++
    "; ".intercalate (deferral.content.reconsiderWhen.map Text.asStr)

def deferralEntry (record : CeremonyRecordRef) (deferral : CeremonyGuardDeferral) :
    Except DomainError MemoryEntry := do
  let id ← entryId record
  MemoryEntry.new id .constraint (deferralSummary deferral) none
    (provenance self (some deferral.deferredBy) deferral.deferredAt) Attributes.empty

/-- The entry for a human decision on a guard: its first approval or, where there is none,
its first deferral. -/
def guardEntry (record : CeremonyRecordRef) : Except DomainError (Option MemoryEntry) :=
  match record with
  | .guardDecision guardName =>
    match self.guardApprovals.find? fun approval => approval.guardName = guardName with
    | some approval => some <$> approvalEntry self record approval
    | none =>
      match self.guardDeferrals.find? fun deferral => deferral.guardName = guardName with
      | some deferral => some <$> deferralEntry self record deferral
      | none => .ok none
  | _ => .ok none

def endingEntry (definition : CeremonyDefinition) :
    Except DomainError (Option (CeremonyRecordRef × MemoryEntry)) :=
  if self.isTerminal definition then
    match self.transitions.getLast? with
    | none => .ok none
    | some ending =>
      if h : self.transitions.length < 2 ^ 32 then do
        let record := CeremonyRecordRef.transition ⟨self.transitions.length, h⟩
        let id ← entryId record
        let entry ← MemoryEntry.new id .outcome
          ("the session finished in `" ++ ending.toState.asStr ++ "`") none
          (provenance self ending.appliedBy ending.appliedAt) Attributes.empty
        pure (some (record, entry))
      else .ok none
  else .ok none

def relation (reason : CeremonyReason) (remembered : CeremonyRecordRef → Bool) :
    Except DomainError (Option MemoryRelation) :=
  if remembered reason.fromRecord && remembered reason.toRecord then do
    let fromEntry ← entryId reason.fromRecord
    let toEntry ← entryId reason.toRecord
    some <$> MemoryRelation.new fromEntry toEntry (relationKind reason.kind) reason.why
      reason.confidence
  else .ok none

section Names

theorem ofCeremony_asStr {id : CeremonyId} {scope : MemoryScope}
    (h : MemoryScope.ofCeremony id = .ok scope) : scope.asStr = "ceremony:" ++ id.asStr := by
  rw [MemoryScope.ofCeremony, Phrase.new_eq_ok, PhraseRule.check_ok,
    trim_led ⟨'c', _, rfl, by decide⟩ (tidy_text id)] at h
  exact h.1

theorem trim_entryText (record : CeremonyRecordRef) : trim (entryText record) = entryText record := by
  cases record with
  | step stepId => exact trim_led ⟨'s', _, rfl, by decide⟩ (tidy_text stepId)
  | agendaItem agendaItem => exact trim_led ⟨'a', _, rfl, by decide⟩ (tidy_text agendaItem)
  | contribution agendaItem ordinal =>
    rw [entryText, String.append_assoc, String.append_assoc]
    exact trim_led ⟨'a', _, rfl, by decide⟩ (((tidy_repr _).append _).append _)
  | guardDecision guardName => exact trim_led ⟨'g', _, rfl, by decide⟩ (tidy_text guardName)
  | transition ordinal => exact trim_led ⟨'t', _, rfl, by decide⟩ (tidy_repr _)

theorem entryId_asStr {record : CeremonyRecordRef} {id : MemoryEntryId}
    (h : entryId record = .ok id) : id.asStr = entryText record := by
  rw [entryId, Phrase.new_eq_ok, PhraseRule.check_ok, trim_entryText] at h
  exact h.1

theorem plain_entryText (record : CeremonyRecordRef) : Plain (entryText record) := by
  cases record with
  | step stepId =>
    exact Plain.append (by decide) (plain_text stepId fun _ => noControl_of_isSnakeCase)
  | agendaItem agendaItem => exact Plain.append (by decide) (plain_text agendaItem fun _ hc => hc)
  | contribution agendaItem ordinal =>
    refine Plain.append (Plain.append (Plain.append (by decide) ?_) (by decide)) (plain_repr _)
    exact plain_text agendaItem fun _ hc => hc
  | guardDecision guardName =>
    exact Plain.append (by decide) (plain_text guardName fun _ => noControl_of_isSnakeCase)
  | transition ordinal => exact Plain.append (by decide) (plain_repr _)

theorem entryText_ne_empty (record : CeremonyRecordRef) : entryText record ≠ "" := by
  cases record <;> simp [entryText]

theorem entryId_isOk {record : CeremonyRecordRef} :
    (∃ id, entryId record = .ok id) ↔ (entryText record).toList.length ≤ 256 :=
  Phrase.new_isOk (trim_entryText record) (entryText_ne_empty record) (plain_entryText record)

theorem entryId_transition (ordinal : U32) : ∃ id, entryId (.transition ordinal) = .ok id := by
  rw [entryId_isOk, entryText, String.toList_append, List.length_append]
  have hdigits : ordinal.val.repr.toList.length ≤ 10 := by
    rw [String.length_toList, Nat.length_repr_le_iff (by omega)]
    exact ordinal.isLt.trans (by decide)
  have hword : "transition:".toList.length = 11 := rfl
  omega

theorem colon_split_last {a b x y : String} (hx : ':' ∉ x.toList) (hy : ':' ∉ y.toList)
    (h : a ++ ":" ++ x = b ++ ":" ++ y) : a = b ∧ x = y := by
  have hl : a.toList ++ ':' :: x.toList = b.toList ++ ':' :: y.toList := by
    have hlist := congrArg String.toList h
    simpa using hlist
  obtain ⟨hab, hxy⟩ := last_sep_split hx hy hl
  exact ⟨String.toList_inj.mp hab, String.toList_inj.mp hxy⟩

theorem colon_notMem_repr (n : Nat) : ':' ∉ n.repr.toList := notMem_repr (by decide) n

def nameWord : CeremonyRecordRef → String
  | .step _ => "step"
  | .agendaItem _ | .contribution .. => "agenda"
  | .guardDecision _ => "guard"
  | .transition _ => "transition"

def nameRest : CeremonyRecordRef → String
  | .step stepId => stepId.asStr
  | .agendaItem agendaItem => agendaItem.asStr
  | .contribution agendaItem ordinal => agendaItem.asStr ++ ":contribution:" ++ ordinal.val.repr
  | .guardDecision guardName => guardName.asStr
  | .transition ordinal => ordinal.val.repr

theorem entryText_eq (record : CeremonyRecordRef) :
    entryText record = nameWord record ++ ":" ++ nameRest record := by
  cases record with
  | contribution agendaItem ordinal =>
    simp only [entryText, nameRest, String.append_assoc]
    rfl
  | _ => rfl

theorem colon_notMem_nameWord (record : CeremonyRecordRef) : ':' ∉ (nameWord record).toList := by
  cases record <;> simp [nameWord]

theorem contribution_name_inj {item item' : CeremonyInterventionId} {ordinal ordinal' : U32}
    (h : nameRest (.contribution item ordinal) = nameRest (.contribution item' ordinal')) :
    item = item' ∧ ordinal = ordinal' := by
  have hsplit (item : CeremonyInterventionId) (ordinal : U32) :
      nameRest (.contribution item ordinal) =
        item.asStr ++ ":contribution" ++ ":" ++ ordinal.val.repr := by
    have hword : ":contribution:" = ":contribution" ++ ":" := rfl
    rw [nameRest, hword, ← String.append_assoc]
  rw [hsplit, hsplit] at h
  obtain ⟨hitem, hordinal⟩ := colon_split_last (colon_notMem_repr _) (colon_notMem_repr _) h
  exact ⟨Text.ext ((String.append_left_inj _).mp hitem), Fin.ext (decimal_injective hordinal)⟩

/-- An agenda item whose own id reads as that of a contribution to another. -/
def ReadsAs (record contribution : CeremonyRecordRef) : Prop :=
  ∃ item item' ordinal, record = .agendaItem item ∧ contribution = .contribution item' ordinal ∧
    item.asStr = nameRest (.contribution item' ordinal)

theorem eq_of_entryText_eq {record record' : CeremonyRecordRef}
    (h : entryText record = entryText record') :
    record = record' ∨ ReadsAs record record' ∨ ReadsAs record' record := by
  rw [entryText_eq, entryText_eq] at h
  obtain ⟨hword, hrest⟩ :=
    colon_split (colon_notMem_nameWord record) (colon_notMem_nameWord record') h
  match record, record' with
  | .step _, .step _ => exact .inl (by rw [Text.ext hrest])
  | .agendaItem _, .agendaItem _ => exact .inl (by rw [Text.ext hrest])
  | .guardDecision _, .guardDecision _ => exact .inl (by rw [Text.ext hrest])
  | .transition _, .transition _ => exact .inl (by rw [Fin.ext (decimal_injective hrest)])
  | .contribution item ordinal, .contribution item' ordinal' =>
    obtain ⟨rfl, rfl⟩ := contribution_name_inj hrest
    exact .inl rfl
  | .agendaItem item, .contribution item' ordinal => exact .inr (.inl ⟨_, _, _, rfl, rfl, hrest⟩)
  | .contribution item ordinal, .agendaItem item' =>
    exact .inr (.inr ⟨_, _, _, rfl, rfl, hrest.symm⟩)
  | .step _, .agendaItem _ | .step _, .contribution .. | .step _, .guardDecision _
  | .step _, .transition _ | .agendaItem _, .step _ | .agendaItem _, .guardDecision _
  | .agendaItem _, .transition _ | .contribution .., .step _ | .contribution .., .guardDecision _
  | .contribution .., .transition _ | .guardDecision _, .step _ | .guardDecision _, .agendaItem _
  | .guardDecision _, .contribution .. | .guardDecision _, .transition _ | .transition _, .step _
  | .transition _, .agendaItem _ | .transition _, .contribution ..
  | .transition _, .guardDecision _ => simp [nameWord] at hword

/-- What memory can have an entry for. -/
def Memorable : CeremonyRecordRef → Prop
  | .contribution .. | .guardDecision _ | .transition _ => True
  | .step _ | .agendaItem _ => False

theorem entryText_inj {record record' : CeremonyRecordRef} (hm : Memorable record)
    (hm' : Memorable record') (h : entryText record = entryText record') : record = record' := by
  rcases eq_of_entryText_eq h with heq | hreads | hreads
  · exact heq
  · obtain ⟨item, _, _, rfl, -⟩ := hreads
    exact hm.elim
  · obtain ⟨item, _, _, rfl, -⟩ := hreads
    exact hm'.elim

theorem entryId_inj {record record' : CeremonyRecordRef} {id : MemoryEntryId}
    (hm : Memorable record) (hm' : Memorable record') (h : entryId record = .ok id)
    (h' : entryId record' = .ok id) : record = record' :=
  entryText_inj hm hm' ((entryId_asStr h).symm.trans (entryId_asStr h'))

end Names

end Choreographer.MemoryProjection
