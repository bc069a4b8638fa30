import Choreographer.MemoryShelves
import Choreographer.Testimony

namespace Choreographer.GuardMemory

open Choreographer.Lib.SortedMaps Choreographer.Lib.Updates Choreographer.Lib.Runs
open Choreographer.Texts Choreographer.Values Choreographer.DefinitionParts Choreographer.Definition
open Choreographer.Agenda Choreographer.Instance Choreographer.Operations
open Choreographer.SessionFacts Choreographer.Works Choreographer.MemoryValues
open Choreographer.SessionMemory Choreographer.MemoryProjection Choreographer.MemoryRecorder
open Choreographer.MemoryRuns Choreographer.MemoryShelves Choreographer.SessionRecords

/-- A decision on a guard: which sort, by the kind of entry it makes, and whose. -/
structure Decision where
  guardName : GuardName
  kind : MemoryEntryKind
  roleId : RoleId
deriving DecidableEq

def decisionOf : Work → Option Decision
  | .approve guardName roleId _ => some ⟨guardName, .decision, roleId⟩
  | .deferral guardName roleId _ _ => some ⟨guardName, .constraint, roleId⟩
  | _ => none

def decisions (i : CeremonyInstance) : List Decision :=
  (i.guardApprovals.map fun approval => ⟨approval.guardName, .decision, approval.approvedBy⟩) ++
    i.guardDeferrals.map fun deferral => ⟨deferral.guardName, .constraint, deferral.deferredBy⟩

/-- The entry says what was decided on which guard, and by whom. -/
structure States (entry : MemoryEntry) (x : Decision) : Prop where
  named : entryId (.guardDecision x.guardName) = .ok entry.id
  kind : entry.kind = x.kind
  roleId : entry.provenance.roleId = some x.roleId

/-- Every decision on record is stated. -/
def Stated (i : CeremonyInstance) (shelf : Remembered) : Prop :=
  ∀ x ∈ decisions i, ∃ entry ∈ shelf.entries, States entry x

/-- A decision memory can state: its texts are short enough, and it says of its guard what was
said before. -/
structure Stateable (i : CeremonyInstance) (v : Visit) (x : Decision) : Prop where
  scope : i.id.asStr.toList.length ≤ 247
  name : x.guardName.asStr.toList.length ≤ 250
  same : ∀ earlier ∈ decisions i, earlier.guardName = x.guardName → earlier = x
  summary : (∀ earlier ∈ decisions i, earlier.guardName ≠ x.guardName) → ∀ roleKind content,
    v.work = .deferral x.guardName x.roleId roleKind content →
      (deferralSummary ⟨x.guardName, x.roleId, roleKind, content, v.now⟩).toList.length ≤ 2048

variable {i i' : CeremonyInstance} {shelf : Remembered} {v : Visit} {x : Decision}

theorem ofCeremony_isOk {id : CeremonyId} :
    (∃ scope, MemoryScope.ofCeremony id = .ok scope) ↔ id.asStr.toList.length ≤ 247 := by
  have htrim : trim ("ceremony:" ++ id.asStr) = "ceremony:" ++ id.asStr :=
    trim_led ⟨'c', _, rfl, by decide⟩ (tidy_text id)
  have hplain : Plain ("ceremony:" ++ id.asStr) :=
    Plain.append (by decide) (plain_text id fun _ hc => hc)
  have hlen : ("ceremony:" ++ id.asStr).toList.length = 9 + id.asStr.toList.length := by
    rw [String.toList_append, List.length_append]
    rfl
  have hok := @Phrase.new_isOk ⟨"memory_scope", 256, noControl⟩ _ htrim (by simp) hplain
  rw [MemoryScope.ofCeremony, hok, hlen]
  change 9 + _ ≤ 256 ↔ _
  omega

theorem guardName_isOk {guardName : GuardName} :
    (∃ id, entryId (.guardDecision guardName) = .ok id) ↔ guardName.asStr.toList.length ≤ 250 := by
  have hlen : (entryText (.guardDecision guardName)).toList.length =
      6 + guardName.asStr.toList.length := by
    rw [entryText, String.toList_append, List.length_append]
    rfl
  rw [entryId_isOk, hlen]
  omega

theorem approved_commit {guardName : GuardName} {roleId : RoleId} {roleKind : AuditActorKind}
    (h : v.commits i = some i') (hwork : v.work = .approve guardName roleId roleKind) :
    i'.guardApprovals = i.guardApprovals ++ [⟨guardName, roleId, roleKind, v.now⟩] ∧
      i'.guardDeferrals = i.guardDeferrals := by
  have hop : operation v.now v.work = some (.approveGuard guardName roleId roleKind v.now) := by
    rw [hwork]
    rfl
  cases commits_effect h hop with
  | approveGuard => exact ⟨rfl, rfl⟩

theorem deferred_commit {guardName : GuardName} {roleId : RoleId} {roleKind : AuditActorKind}
    {content : CeremonyGuardDeferralContent} (h : v.commits i = some i')
    (hwork : v.work = .deferral guardName roleId roleKind content) :
    i'.guardApprovals = i.guardApprovals ∧
      i'.guardDeferrals = i.guardDeferrals ++ [⟨guardName, roleId, roleKind, content, v.now⟩] := by
  have hop : operation v.now v.work =
      some (.deferGuard guardName content roleId roleKind v.now) := by
    rw [hwork]
    rfl
  cases commits_effect h hop with
  | deferGuard => exact ⟨rfl, rfl⟩

theorem undecided_commit (h : v.commits i = some i') (hnone : decisionOf v.work = none) :
    i'.guardApprovals = i.guardApprovals ∧ i'.guardDeferrals = i.guardDeferrals := by
  rcases commits_cases h with ⟨op, hop, heffect⟩ | ⟨-, bindings, rfl⟩
  · cases hwork : v.work with
    | approve | deferral => simp [hwork, decisionOf] at hnone
    | seat => simp [hwork, operation] at hop
    | _ =>
      rw [hwork] at hop
      obtain rfl := Option.some.inj hop
      cases heffect
      exact ⟨rfl, rfl⟩
  · exact ⟨rfl, rfl⟩

theorem mem_decisions_commit (h : v.commits i = some i') :
    x ∈ decisions i' ↔ x ∈ decisions i ∨ decisionOf v.work = some x := by
  cases hwork : v.work with
  | approve guardName roleId roleKind =>
    obtain ⟨happrovals, hdeferrals⟩ := approved_commit h hwork
    simp only [decisions, happrovals, hdeferrals, List.map_append, List.map_singleton,
      List.mem_append, List.mem_singleton, decisionOf, Option.some.injEq, eq_comm]
    tauto
  | deferral guardName roleId roleKind content =>
    obtain ⟨happrovals, hdeferrals⟩ := deferred_commit h hwork
    simp only [decisions, happrovals, hdeferrals, List.map_append, List.map_singleton,
      List.mem_append, List.mem_singleton, decisionOf, Option.some.injEq, eq_comm]
    tauto
  | _ =>
    obtain ⟨happrovals, hdeferrals⟩ := undecided_commit h (by rw [hwork]; rfl)
    simp [decisions, happrovals, hdeferrals, decisionOf]

theorem decisionOf_cases (h : decisionOf v.work = some x) :
    (∃ roleKind, v.work = .approve x.guardName x.roleId roleKind ∧ x.kind = .decision) ∨
      ∃ roleKind content, v.work = .deferral x.guardName x.roleId roleKind content ∧
        x.kind = .constraint := by
  cases hwork : v.work with
  | approve guardName roleId roleKind =>
    rw [hwork] at h
    obtain rfl := Option.some.inj h
    exact .inl ⟨roleKind, rfl, rfl⟩
  | deferral guardName roleId roleKind content =>
    rw [hwork] at h
    obtain rfl := Option.some.inj h
    exact .inr ⟨roleKind, content, rfl, rfl⟩
  | _ => simp [hwork, decisionOf] at h

theorem makes_decision {d : CeremonyDefinition} {record : CeremonyRecordRef} {entry : MemoryEntry}
    (hx : decisionOf v.work = some x) (h : Makes d i v.work record entry) :
    record = .guardDecision x.guardName ∧
      guardEntry i (.guardDecision x.guardName) = .ok (some entry) := by
  have hwork := decisionOf_cases hx
  generalize v.work = work at h hwork
  cases h with
  | contribution hc =>
    obtain ⟨_, _, _, rfl⟩ | ⟨_, _, _, _, rfl⟩ := hc
    · simp at hwork
    · simp at hwork
  | decision hd hentry =>
    obtain ⟨_, _, rfl⟩ | ⟨_, _, _, rfl⟩ := hd
    · obtain ⟨_, hw, -⟩ | ⟨_, _, hw, -⟩ := hwork
      · obtain ⟨rfl, -⟩ := Work.approve.inj hw
        exact ⟨rfl, hentry⟩
      · simp at hw
    · obtain ⟨_, hw, -⟩ | ⟨_, _, hw, -⟩ := hwork
      · simp at hw
      · obtain ⟨rfl, -⟩ := Work.deferral.inj hw
        exact ⟨rfl, hentry⟩
  | ending => simp at hwork

theorem not_relates_of_decision (hx : decisionOf v.work = some x) {f t : CeremonyRecordRef} :
    ¬ Relates i v f t := by
  rintro ⟨⟨_, _, _, _, _, hwork⟩, -⟩
  simp [hwork, decisionOf] at hx

theorem memoryEntry_new_isOk {id : MemoryEntryId} {kind : MemoryEntryKind} {summary : String}
    {dimension : Option MemoryDimension} {provenance : MemoryProvenance} {detail : Attributes} :
    (∃ entry, MemoryEntry.new id kind summary dimension provenance detail = .ok entry) ↔
      ∃ text : MemorySummary, Phrase.new summary = .ok text := by
  simp only [MemoryEntry.new, except_bind_eq_ok]
  constructor
  · rintro ⟨_, text, htext, -⟩
    exact ⟨text, htext⟩
  · rintro ⟨text, htext⟩
    exact ⟨_, text, htext, rfl⟩

theorem summary_isOk {s : String} (htrim : trim s = s) (hne : s ≠ "") :
    (∃ text : MemorySummary, Phrase.new s = .ok text) ↔ s.toList.length ≤ 2048 :=
  Phrase.new_isOk htrim hne fun _ _ => rfl

theorem approvalEntry_isOk {approval : CeremonyGuardApproval} :
    (∃ entry, approvalEntry i (.guardDecision approval.guardName) approval = .ok entry) ↔
      approval.guardName.asStr.toList.length ≤ 250 := by
  have htidy : Tidy (approval.guardName.asStr ++ "` was approved") :=
    Tidy.append ⟨"` was approve".toList, 'd', by decide, by decide⟩ _
  have htrim := trim_led ⟨'`', _, rfl, by decide⟩ htidy (p := "`")
  rw [← String.append_assoc] at htrim
  have hlen : ("`" ++ approval.guardName.asStr ++ "` was approved").toList.length =
      1 + approval.guardName.asStr.toList.length + 14 := by
    rw [String.toList_append, List.length_append, String.toList_append, List.length_append]
    rfl
  rw [← guardName_isOk]
  simp only [approvalEntry, except_bind_eq_ok]
  constructor
  · rintro ⟨_, id, hid, -⟩
    exact ⟨id, hid⟩
  · rintro ⟨id, hid⟩
    have hname := guardName_isOk.mp ⟨id, hid⟩
    obtain ⟨entry, hentry⟩ := memoryEntry_new_isOk.mpr
      ((summary_isOk htrim (by simp)).mpr (by rw [hlen]; omega))
    exact ⟨entry, id, hid, hentry⟩

theorem deferralEntry_isOk {deferral : CeremonyGuardDeferral} :
    (∃ entry, deferralEntry i (.guardDecision deferral.guardName) deferral = .ok entry) ↔
      deferral.guardName.asStr.toList.length ≤ 250 ∧
        (deferralSummary deferral).toList.length ≤ 2048 := by
  have htidy : Tidy ("; ".intercalate (deferral.content.reconsiderWhen.map Text.asStr)) := by
    apply tidy_intercalate
    · simpa using deferral.content.nonempty
    · intro s hs
      obtain ⟨condition, -, rfl⟩ := List.mem_map.mp hs
      exact tidy_text condition
  have htrim : trim (deferralSummary deferral) = deferralSummary deferral := by
    simp only [deferralSummary, String.append_assoc]
    exact trim_led ⟨'`', _, rfl, by decide⟩ ((((htidy.append _).append _).append _).append _)
  have hne : deferralSummary deferral ≠ "" := by
    simp [deferralSummary]
  rw [← guardName_isOk, ← summary_isOk htrim hne]
  simp only [deferralEntry, except_bind_eq_ok]
  constructor
  · rintro ⟨entry, id, hid, hentry⟩
    exact ⟨⟨id, hid⟩, memoryEntry_new_isOk.mp ⟨entry, hentry⟩⟩
  · rintro ⟨⟨id, hid⟩, htext⟩
    obtain ⟨entry, hentry⟩ := memoryEntry_new_isOk.mpr htext
    exact ⟨entry, id, hid, hentry⟩

section First

variable (hfirst : ∀ earlier ∈ decisions i, earlier.guardName ≠ x.guardName)
include hfirst

theorem unapproved_of_first :
    (i.guardApprovals.find? fun approval => approval.guardName = x.guardName) = none := by
  apply Testimony.find?_unapproved
  intro approval happroval
  exact hfirst ⟨approval.guardName, .decision, approval.approvedBy⟩
    (List.mem_append_left _ (List.mem_map.mpr ⟨approval, happroval, rfl⟩))

theorem undeferred_of_first :
    (i.guardDeferrals.find? fun deferral => deferral.guardName = x.guardName) = none := by
  apply List.find?_eq_none.mpr
  intro deferral hdeferral
  have hother := hfirst ⟨deferral.guardName, .constraint, deferral.deferredBy⟩
    (List.mem_append_right _ (List.mem_map.mpr ⟨deferral, hdeferral, rfl⟩))
  simpa using hother

variable (hcommit : v.commits i = some i') (hx : decisionOf v.work = some x)
include hcommit hx

theorem states_first {entry : MemoryEntry}
    (h : guardEntry i' (.guardDecision x.guardName) = .ok (some entry)) : States entry x := by
  have happrovals := unapproved_of_first hfirst
  have hdeferrals := undeferred_of_first hfirst
  obtain ⟨hname, hcase⟩ := guardEntry_ok h
  obtain ⟨roleKind, hwork, hkind⟩ | ⟨roleKind, content, hwork, hkind⟩ := decisionOf_cases hx
  · obtain ⟨happrovals', hdeferrals'⟩ := approved_commit hcommit hwork
    rw [happrovals', List.find?_append, happrovals] at hcase
    simp only [List.find?_cons, decide_true, Option.none_or, Option.some.injEq,
      exists_eq_left', reduceCtorEq, false_and, or_false] at hcase
    exact ⟨hname, hcase.1.trans hkind.symm, by rw [hcase.2]⟩
  · obtain ⟨happrovals', hdeferrals'⟩ := deferred_commit hcommit hwork
    rw [happrovals', happrovals, hdeferrals', List.find?_append, hdeferrals] at hcase
    simp only [List.find?_cons, decide_true, Option.none_or, Option.some.injEq,
      exists_eq_left', reduceCtorEq, false_and, exists_false, true_and, false_or] at hcase
    exact ⟨hname, hcase.1.trans hkind.symm, by rw [hcase.2]⟩

theorem guardEntry_first :
    (∃ entry, guardEntry i' (.guardDecision x.guardName) = .ok (some entry)) ↔
      x.guardName.asStr.toList.length ≤ 250 ∧ ∀ roleKind content,
        v.work = .deferral x.guardName x.roleId roleKind content →
          (deferralSummary ⟨x.guardName, x.roleId, roleKind, content, v.now⟩).toList.length ≤ 2048 := by
  have happrovals := unapproved_of_first hfirst
  have hdeferrals := undeferred_of_first hfirst
  have hsome {y : Except DomainError MemoryEntry} :
      (∃ entry, some <$> y = .ok (some entry)) ↔ ∃ entry, y = .ok entry := by
    simp [except_map_eq_ok]
  obtain ⟨roleKind, hwork, -⟩ | ⟨roleKind, content, hwork, -⟩ := decisionOf_cases hx
  · obtain ⟨happrovals', -⟩ := approved_commit hcommit hwork
    have hfind : (i'.guardApprovals.find? fun approval => approval.guardName = x.guardName) =
        some ⟨x.guardName, x.roleId, roleKind, v.now⟩ := by
      simp [happrovals', List.find?_append, happrovals]
    simp only [guardEntry, hfind, hsome]
    rw [@approvalEntry_isOk i' ⟨x.guardName, x.roleId, roleKind, v.now⟩]
    simp [hwork]
  · obtain ⟨happrovals', hdeferrals'⟩ := deferred_commit hcommit hwork
    have hfind : (i'.guardDeferrals.find? fun deferral => deferral.guardName = x.guardName) =
        some ⟨x.guardName, x.roleId, roleKind, content, v.now⟩ := by
      simp [hdeferrals', List.find?_append, hdeferrals]
    simp only [guardEntry, happrovals', happrovals, hfind, hsome]
    rw [@deferralEntry_isOk i' ⟨x.guardName, x.roleId, roleKind, content, v.now⟩]
    apply and_congr_right
    intro _
    constructor
    · intro hshort roleKind' content' hwork'
      rw [hwork] at hwork'
      obtain ⟨-, -, rfl, rfl⟩ := Work.deferral.inj hwork'
      exact hshort
    · exact fun hall => hall roleKind content hwork

end First

/-- In order, and only where there is room for the scope. -/
structure Shelved (i : CeremonyInstance) (shelf : Remembered) : Prop where
  filed : Filed i shelf
  room : shelf.entries ≠ [] → i.id.asStr.toList.length ≤ 247

theorem shelved_leaves (hcommit : v.commits i = some i') (h : Shelved i shelf) :
    Shelved i' (v.leaves i' shelf) := by
  refine ⟨filed_leaves hcommit h.filed, ?_⟩
  rw [commits_id hcommit]
  rcases leaves_cases hcommit shelf with hsame | ⟨_, _, r, -, hasks, -, -, -⟩ |
    ⟨-, f, t, hrelates⟩
  · rw [hsame]
    exact h.room
  · intro _
    rw [← ofCeremony_isOk, ← commits_id hcommit]
    exact ⟨r.scope, hasks.scope⟩
  · intro _
    exact ofCeremony_isOk.mp hrelates.2.1

theorem decided_of_onRecord {guardName : GuardName} (h : OnRecord i (.guardDecision guardName)) :
    ∃ earlier ∈ decisions i, earlier.guardName = guardName := by
  simp only [OnRecord, CeremonyInstance.requireRecord, require_eq_ok, Bool.or_eq_true,
    List.any_eq_true, decide_eq_true_eq] at h
  rcases h with ⟨approval, happroval, hname⟩ | ⟨deferral, hdeferral, hname⟩
  · exact ⟨_, List.mem_append_left _ (List.mem_map.mpr ⟨approval, happroval, rfl⟩), hname⟩
  · exact ⟨_, List.mem_append_right _ (List.mem_map.mpr ⟨deferral, hdeferral, rfl⟩), hname⟩

theorem memorable_guard (guardName : GuardName) : Memorable (.guardDecision guardName) := trivial

theorem states_inj {entry : MemoryEntry} {y : Decision} (hx : States entry x) (hy : States entry y) :
    x = y := by
  have hname := entryId_inj (memorable_guard _) (memorable_guard _) hx.named hy.named
  have hguard : x.guardName = y.guardName := by simpa using hname
  have hkind : x.kind = y.kind := hx.kind.symm.trans hy.kind
  have hrole : x.roleId = y.roleId := by
    have h := hx.roleId.symm.trans hy.roleId
    exact Option.some.inj h
  obtain ⟨_, _, _⟩ := x
  obtain ⟨_, _, _⟩ := y
  simp_all

theorem states_unique (h : Filed i shelf) {entry other : MemoryEntry} {y : Decision}
    (hentry : entry ∈ shelf.entries) (hother : other ∈ shelf.entries) (hx : States entry x)
    (hy : States other y) (hguard : x.guardName = y.guardName) : x = y := by
  have hid : entry.id = other.id := by
    have hname := hx.named
    rw [hguard, hy.named] at hname
    exact (Except.ok.inj hname).symm
  have hsame := List.inj_on_of_nodup_map h.nodup hentry hother hid
  subst hsame
  exact states_inj hx hy

section Step

variable (hkept : v.kept = true) (hcommit : v.commits i = some i') (h : Shelved i shelf)
  (hx : decisionOf v.work = some x)
include hcommit h hx

theorem leaves_again {y : Decision} {entry : MemoryEntry} (hentry : entry ∈ shelf.entries)
    (hy : States entry y) (hguard : y.guardName = x.guardName) : v.leaves i' shelf = shelf := by
  rcases leaves_cases hcommit shelf with hsame | ⟨_, made, r, hmakes, hasks, -, hkey, -⟩ |
    ⟨-, f, t, hrelates⟩
  · exact hsame
  · obtain ⟨rfl, hguardEntry⟩ := makes_decision hx hmakes
    have hname := (guardEntry_ok hguardEntry).1
    have hheld : shelf.Holds made.id := by
      refine ⟨entry, hentry, ?_⟩
      have hnamed := hy.named
      rw [hguard, hname] at hnamed
      exact (Except.ok.inj hnamed).symm
    rw [← h.filed.keyed _ _ (memorable_guard _) hname, ← commits_id hcommit, ← hasks.key, hkey] at hheld
    simp at hheld
  · exact absurd hrelates (not_relates_of_decision hx)

include hkept

theorem stated_first (hfirst : ∀ earlier ∈ decisions i, earlier.guardName ≠ x.guardName) :
    (∃ entry ∈ (v.leaves i' shelf).entries, States entry x) ↔ Stateable i v x := by
  have habsent : ∀ entry ∈ shelf.entries, ¬ States entry x := by
    intro entry hentry hstates
    obtain ⟨record, hm, hname, hrecord⟩ := h.filed.backed entry hentry
    obtain rfl := entryId_inj hm (memorable_guard _) hname hstates.named
    obtain ⟨earlier, hearlier, hguard⟩ := decided_of_onRecord hrecord
    exact hfirst earlier hearlier hguard
  constructor
  · rintro ⟨entry, hentry, hstates⟩
    rcases leaves_cases hcommit shelf with hsame | ⟨_, made, r, hmakes, hasks, -, -, -⟩ |
      ⟨-, f, t, hrelates⟩
    · rw [hsame] at hentry
      exact absurd hstates (habsent entry hentry)
    · obtain ⟨rfl, hguardEntry⟩ := makes_decision hx hmakes
      obtain ⟨hname, hsummary⟩ := (guardEntry_first hfirst hcommit hx).mp ⟨made, hguardEntry⟩
      refine ⟨?_, hname, fun earlier hearlier hguard => absurd hguard (hfirst earlier hearlier),
        fun _ => hsummary⟩
      rw [← ofCeremony_isOk, ← commits_id hcommit]
      exact ⟨r.scope, hasks.scope⟩
    · exact absurd hrelates (not_relates_of_decision hx)
  · rintro ⟨hscope, hname, -, hsummary⟩
    obtain ⟨scope, hscope⟩ := ofCeremony_isOk.mpr hscope
    obtain ⟨entry, hentry⟩ :=
      (guardEntry_first hfirst hcommit hx).mpr ⟨hname, hsummary hfirst⟩
    have hstates := states_first hfirst hcommit hx hentry
    have hmakes : Makes v.definition i' v.work (.guardDecision x.guardName) entry := by
      refine .decision ?_ hentry
      obtain ⟨_, hwork, -⟩ | ⟨_, _, hwork, -⟩ := decisionOf_cases hx
      · exact .inl ⟨_, _, hwork⟩
      · exact .inr ⟨_, _, _, hwork⟩
    obtain ⟨r, hasks, hleaves⟩ := leaves_makes hcommit hkept hscope hmakes shelf
    have hfresh : shelf.keys.contains r.key = false := by
      rw [← Bool.not_eq_true, hasks.key, commits_id hcommit,
        h.filed.keyed _ _ (memorable_guard _) hstates.named]
      rintro ⟨other, hother, hid⟩
      obtain ⟨record, hm, hrecordName, hrecord⟩ := h.filed.backed other hother
      rw [hid] at hrecordName
      obtain rfl := entryId_inj hm (memorable_guard _) hrecordName hstates.named
      obtain ⟨earlier, hearlier, hguard⟩ := decided_of_onRecord hrecord
      exact hfirst earlier hearlier hguard
    refine ⟨entry, ?_, hstates⟩
    rw [hleaves, Remembered.extend_fresh hfresh]
    exact List.mem_append_right _ (by simp [hasks.entries])

theorem stated_step (hstated : Stated i shelf) :
    (∃ entry ∈ (v.leaves i' shelf).entries, States entry x) ↔ Stateable i v x := by
  by_cases hfirst : ∀ earlier ∈ decisions i, earlier.guardName ≠ x.guardName
  · exact stated_first hkept hcommit h hx hfirst
  · simp only [not_forall, not_not] at hfirst
    obtain ⟨y, hy, hguard⟩ := hfirst
    obtain ⟨entry, hentry, hstates⟩ := hstated y hy
    rw [leaves_again hcommit h hx hentry hstates hguard]
    constructor
    · rintro ⟨other, hother, hstates'⟩
      have hsame : ∀ earlier ∈ decisions i, earlier.guardName = x.guardName → earlier = x := by
        intro earlier hearlier hguard'
        obtain ⟨e, he, hse⟩ := hstated earlier hearlier
        exact states_unique h.filed he hother hse hstates' hguard'
      refine ⟨h.room (List.ne_nil_of_mem hentry), ?_, hsame, ?_⟩
      · exact guardName_isOk.mp ⟨_, hstates'.named⟩
      · exact fun hnone => absurd hguard (hnone y hy)
    · intro hfits
      obtain rfl := hfits.same y hy hguard
      exact ⟨entry, hentry, hstates⟩

end Step

/-- What was just decided is stated afterwards. -/
def Tells (i : CeremonyInstance) (shelf : Remembered) (v : Visit) : Prop :=
  ∀ x i', decisionOf v.work = some x → v.commits i = some i' →
    ∃ entry ∈ (v.leaves i' shelf).entries, States entry x

def Fits (i : CeremonyInstance) (_ : Remembered) (v : Visit) : Prop :=
  ∀ x, decisionOf v.work = some x → Stateable i v x

theorem stated_leaves_tells (hcommit : v.commits i = some i') (h : Stated i shelf) :
    Stated i' (v.leaves i' shelf) ↔ Tells i shelf v := by
  constructor
  · intro hall x j hx hj
    rw [hcommit] at hj
    obtain rfl := Option.some.inj hj
    exact hall x ((mem_decisions_commit hcommit).mpr (.inr hx))
  · intro htells x hx
    rcases (mem_decisions_commit hcommit).mp hx with hold | hnew
    · obtain ⟨entry, hentry, hstates⟩ := h x hold
      exact ⟨entry, (entries_leaves v i' shelf).subset hentry, hstates⟩
    · exact htells x i' hnew hcommit

theorem stated_leaves_fits (hkept : v.kept = true) (hcommit : v.commits i = some i')
    (hshelved : Shelved i shelf) (h : Stated i shelf) :
    Stated i' (v.leaves i' shelf) ↔ Fits i shelf v := by
  rw [stated_leaves_tells hcommit h]
  constructor
  · intro htells x hx
    exact (stated_step hkept hcommit hshelved hx h).mp (htells x i' hx hcommit)
  · intro hfits x j hx hj
    rw [hcommit] at hj
    obtain rfl := Option.some.inj hj
    exact (stated_step hkept hcommit hshelved hx h).mpr (hfits x hx)

/-- Recalling the session after a decision shows what was decided. -/
def Recalled (w : World) (v : Visit) : Prop :=
  ∀ i x, w.sessions v.id = some i → (v.commits i).isSome = true → decisionOf v.work = some x →
    ∃ scope, MemoryScope.ofCeremony v.id = .ok scope ∧
      ∃ entry ∈ (((Event.calls v).after w).memory.recallAll scope).entries, States entry x

theorem recalled_iff {w : World} (hw : Lawful w) : Recalled w v ↔ AtCommit Tells w (.calls v) := by
  have hstep {i i' : CeremonyInstance} (hi : w.sessions v.id = some i)
      (hcommit : v.commits i = some i') (x : Decision) :
      (∃ scope, MemoryScope.ofCeremony v.id = .ok scope ∧
        ∃ entry ∈ (((Event.calls v).after w).memory.recallAll scope).entries, States entry x) ↔
      ∃ entry ∈ (v.leaves i' (w.held v.id)).entries, States entry x := by
    have hheld := held_after_commit hi hcommit hw v.id
    rw [if_pos rfl] at hheld
    rw [← hheld, World.held, heldOf]
    cases hscope : MemoryScope.ofCeremony v.id with
    | error e => simp [Remembered.empty]
    | ok scope => simp [InProcessSessionMemory.recallAll_eq, MemoryRecollection.entries]
  constructor
  · intro h i hi hsome x i' hx hcommit
    exact (hstep hi hcommit x).mp (h i x hi hsome hx)
  · intro h i x hi hsome hx
    obtain ⟨i', hcommit⟩ := Option.isSome_iff_exists.mp hsome
    exact (hstep hi hcommit x).mpr (h i hi hsome x i' hx hcommit)

/-- With a memory that takes every write, every decision can be recalled once it is made, if and
only if no guard is decided on in two ways and the texts fit. -/
theorem decisions_recalled_iff (events : List Event) (hkept : ∀ e ∈ events, e.Kept) :
    (∀ before v later, events = before ++ .calls v :: later →
      Recalled (run Event.after before World.new) v) ↔
    ∀ before v later, events = before ++ .calls v :: later → ∀ i x,
      (run Event.after before World.new).sessions v.id = some i → (v.commits i).isSome = true →
        decisionOf v.work = some x → Stateable i v x := by
  have hopened : ∀ id d context now bound,
      Shelved (CeremonyInstance.opened id d context now bound) Remembered.empty :=
    fun id d context now bound => ⟨filed_opened id d context now bound, fun h => absurd rfl h⟩
  have hkeeps : ∀ i i' shelf v, Event.Kept (.calls v) → v.commits i = some i' → Shelved i shelf →
      Shelved i' (v.leaves i' shelf) := fun _ _ _ _ _ hcommit h => shelved_leaves hcommit h
  have hfirst : ∀ id d context now bound,
      Stated (CeremonyInstance.opened id d context now bound) Remembered.empty :=
    fun _ _ _ _ _ x hx => absurd hx List.not_mem_nil
  have htells := @allSessions_always_iff Shelved Stated Tells Event.Kept hopened hkeeps hfirst
    (fun _ _ _ _ _ hcommit _ h => stated_leaves_tells hcommit h) events hkept
  have hfits := @allSessions_always_iff Shelved Stated Fits Event.Kept hopened hkeeps hfirst
    (fun _ _ _ _ hkept hcommit hshelved h => stated_leaves_fits hkept hcommit hshelved h) events hkept
  constructor
  · intro h before v later hsplit i x hi hsome hx
    refine hfits.mp (htells.mpr ?_) before (.calls v) later hsplit i hi hsome x hx
    intro before e later hsplit
    cases e with
    | opens => trivial
    | calls v => exact (recalled_iff (lawful_run before)).mp (h before v later hsplit)
  · intro h before v later hsplit
    rw [recalled_iff (lawful_run before)]
    refine htells.mp (hfits.mpr ?_) before (.calls v) later hsplit
    intro before e later hsplit
    cases e with
    | opens => trivial
    | calls v => exact fun i hi hsome x hx => h before v later hsplit i x hi hsome hx

section Clearance

def site : CeremonyId := ⟨"site-9", by decide⟩

def siteScope : MemoryScope := ⟨"ceremony:site-9", by decide⟩

theorem ofCeremony_site : MemoryScope.ofCeremony site = .ok siteScope :=
  Phrase.new_eq_ok.mpr (by decide)

def visitAt (now : Int) (work : Work) : Visit :=
  ⟨site, work, Testimony.clearance, ⟨now, 0⟩, true, true⟩

def started : Event := .opens site Testimony.clearance CeremonyContext.empty ⟨0, 0⟩ none

def putOff : Visit := visitAt 1 (.deferral Testimony.safe Testimony.warden .human
  ⟨⟨"not now", by decide⟩, ⟨"the roof leaks", by decide⟩, [⟨"the roof is mended", by decide⟩],
    by simp⟩)

def overruling : Visit := visitAt 2 (.approve Testimony.safe Testimony.owner .human)

theorem putOff_kept : ∀ e ∈ [started, .calls putOff], e.Kept := by
  simp [started, putOff, visitAt, Event.Kept]

theorem decisions_recalled_putOff : (∀ e ∈ [started, .calls putOff], e.Kept) ∧
    Recalled (run Event.after [started] World.new) putOff := by
  refine ⟨putOff_kept, ?_⟩
  apply (decisions_recalled_iff [started, .calls putOff] putOff_kept).mpr _ [started] putOff [] rfl
  intro before v later hsplit i x hi hsome hx
  rcases before with _ | ⟨e, _ | ⟨e', before⟩⟩
  · simp [started] at hsplit
  · simp only [List.singleton_append, List.cons.injEq, Event.calls.injEq] at hsplit
    obtain ⟨rfl, rfl, -⟩ := hsplit
    have hopened : (run Event.after [started] World.new).sessions putOff.id =
        some (CeremonyInstance.opened site Testimony.clearance CeremonyContext.empty ⟨0, 0⟩ none) :=
      rfl
    rw [hopened] at hi
    obtain rfl := Option.some.inj hi
    have hnone : decisions (CeremonyInstance.opened site Testimony.clearance CeremonyContext.empty
        ⟨0, 0⟩ none) = [] := rfl
    obtain rfl := Option.some.inj hx
    refine ⟨by decide, by decide, by simp [hnone], ?_⟩
    intro _ roleKind content hwork
    obtain ⟨-, -, rfl, rfl⟩ := Work.deferral.inj hwork
    decide
  · simp at hsplit

theorem overruling_entries :
    ((run Event.after [started, .calls putOff, .calls overruling] World.new).memory.recallAll
      siteScope).entries.map MemoryEntry.kind = [.constraint] := by decide +kernel

theorem overruling_commits :
    (((run Event.after [started, .calls putOff] World.new).sessions site).bind
      overruling.commits).isSome = true := by decide +kernel

/-- Memory goes on saying that nothing was decided. -/
theorem overruling_not_recalled :
    ¬ ∀ events : List Event, (∀ e ∈ events, e.Kept) →
      ∀ before v later, events = before ++ .calls v :: later →
        Recalled (run Event.after before World.new) v := by
  intro h
  obtain ⟨i', hi'⟩ := Option.isSome_iff_exists.mp overruling_commits
  obtain ⟨i, hi, hcommit⟩ := Option.bind_eq_some_iff.mp hi'
  have hkept : ∀ e ∈ [started, .calls putOff, .calls overruling], e.Kept := by
    simp [started, putOff, overruling, visitAt, Event.Kept]
  obtain ⟨scope, hscope, entry, hentry, hstates⟩ := h _ hkept [started, .calls putOff] overruling []
    rfl i ⟨Testimony.safe, .decision, Testimony.owner⟩ hi (by rw [hcommit]; rfl) rfl
  have hid : overruling.id = site := rfl
  rw [hid, ofCeremony_site] at hscope
  obtain rfl := Except.ok.inj hscope
  have hkind := List.mem_map_of_mem (f := MemoryEntry.kind) hentry
  rw [hstates.kind] at hkind
  change _ ∈ ((run Event.after [started, .calls putOff, .calls overruling] World.new).memory.recallAll
    siteScope).entries.map MemoryEntry.kind at hkind
  rw [overruling_entries] at hkind
  simp at hkind

end Clearance

end Choreographer.GuardMemory
