import Choreographer.ReasonGraph

namespace Choreographer.Testimony

open Choreographer.Lib.SortedMaps Choreographer.Lib.Updates Choreographer.Lib.Runs
open Choreographer.Texts Choreographer.Values Choreographer.Steps Choreographer.DefinitionParts
open Choreographer.Definition Choreographer.Agenda Choreographer.Instance Choreographer.Operations
open Choreographer.SessionRecords Choreographer.ReasonGraph

variable {d : CeremonyDefinition} {i i' : CeremonyInstance} {op : Operation}

/-- A reason only an author may give was given by the author of what it starts from. -/
def Testified (i : CeremonyInstance) : Prop :=
  ∀ reason ∈ i.reasons, reason.kind.asserter = .itsAuthor →
    ∃ roleId, reason.assertedBy = some roleId ∧ i.authorOf reason.fromRecord = some roleId

/-- Nobody has approved this guard. -/
def Unapproved (i : CeremonyInstance) (guardName : GuardName) : Prop :=
  ∀ approval ∈ i.guardApprovals, approval.guardName ≠ guardName

/-- Whoever is the first to approve a guard gave every testimony about its decision there is. -/
def KeepsAuthors (d : CeremonyDefinition) (i : CeremonyInstance) : Operation → Prop
  | .approveGuard guardName approvedBy approvedByKind now =>
    (Operation.approveGuard guardName approvedBy approvedByKind now).answer d i = .ok () →
      Unapproved i guardName → ∀ reason ∈ i.reasons, reason.kind.asserter = .itsAuthor →
        reason.fromRecord = .guardDecision guardName → reason.assertedBy = some approvedBy
  | _ => True

theorem keepsAuthors_of_refused {e : DomainError} (h : op.answer d i = .error e) :
    KeepsAuthors d i op := by
  cases op with
  | approveGuard =>
    intro haccepted
    rw [h] at haccepted
    simp at haccepted
  | _ => trivial

theorem find?_unapproved {guardName : GuardName} (h : Unapproved i guardName) :
    (i.guardApprovals.find? fun approval => approval.guardName = guardName) = none := by
  apply List.find?_eq_none.mpr
  intro approval happroval
  simpa using h approval happroval

theorem getElem?_of_prefix {α : Type} {l l' : List α} (h : l <+: l') {n : Nat} {a : α}
    (hn : l[n]? = some a) : l'[n]? = some a := by
  obtain ⟨later, rfl⟩ := h
  obtain ⟨hlt, -⟩ := List.getElem?_eq_some_iff.mp hn
  rw [List.getElem?_append_left hlt, hn]

theorem authorOf_onward (h : Onward i i') (hi' : Distinct i') {record : CeremonyRecordRef}
    (hguard : ∀ guardName, record = .guardDecision guardName → Unapproved i guardName →
      Unapproved i' guardName)
    {roleId : RoleId} (hauthor : i.authorOf record = some roleId) :
    i'.authorOf record = some roleId := by
  cases record with
  | step stepId => simp [CeremonyInstance.authorOf] at hauthor
  | agendaItem agendaItem =>
    simp only [CeremonyInstance.authorOf, Option.map_eq_some_iff] at hauthor ⊢
    obtain ⟨item, hitem, hby⟩ := hauthor
    obtain ⟨item', hitem', hf⟩ := intervention_onward h hi' hitem
    exact ⟨item', hitem', hf.requestedBy.trans hby⟩
  | contribution agendaItem ordinal =>
    simp only [CeremonyInstance.authorOf, Option.bind_eq_bind, Option.bind_eq_some_iff] at hauthor ⊢
    obtain ⟨item, hitem, response, hresponse, hby⟩ := hauthor
    obtain ⟨item', hitem', hf⟩ := intervention_onward h hi' hitem
    exact ⟨item', hitem', response, getElem?_of_prefix hf.responses hresponse, hby⟩
  | guardDecision guardName =>
    by_cases hnone : Unapproved i guardName
    · have hnone' := hguard guardName rfl hnone
      rw [CeremonyInstance.authorOf, find?_unapproved hnone, Option.map_none, Option.none_or,
        Option.map_eq_some_iff] at hauthor
      obtain ⟨deferral, hdeferral, hby⟩ := hauthor
      rw [CeremonyInstance.authorOf, find?_unapproved hnone', Option.map_none, Option.none_or,
        h.deferrals.find?_eq_some hdeferral, Option.map_some, hby]
    · obtain ⟨approval, hfound⟩ : ∃ approval,
          (i.guardApprovals.find? fun approval => approval.guardName = guardName) = some approval := by
        apply Option.isSome_iff_exists.mp
        simpa [Unapproved] using hnone
      rw [CeremonyInstance.authorOf, hfound, Option.map_some, Option.some_or] at hauthor
      rw [CeremonyInstance.authorOf, h.approvals.find?_eq_some hfound, Option.map_some,
        Option.some_or, hauthor]
  | transition ordinal =>
    simp only [CeremonyInstance.authorOf, Option.bind_eq_bind, Option.bind_eq_some_iff] at hauthor ⊢
    obtain ⟨record, hrecord, hby⟩ := hauthor
    exact ⟨record, getElem?_of_prefix h.transitions hrecord, hby⟩

theorem authorOf_first {guardName : GuardName} {approvedBy : RoleId}
    {approvedByKind : AuditActorKind} {now : OffsetDateTime}
    (h : Effect d i (.approveGuard guardName approvedBy approvedByKind now) i')
    (hnone : Unapproved i guardName) :
    i'.authorOf (.guardDecision guardName) = some approvedBy := by
  cases h with
  | approveGuard =>
    rw [CeremonyInstance.authorOf, List.find?_append, find?_unapproved hnone]
    simp

theorem approvals_effect (h : Effect d i op i')
    (hop : ∀ guardName approvedBy approvedByKind now,
      op ≠ .approveGuard guardName approvedBy approvedByKind now) :
    i'.guardApprovals = i.guardApprovals := by
  cases h with
  | approveGuard => exact absurd rfl (hop _ _ _ _)
  | _ => rfl

theorem testified_kept (honward : Onward i i') (hi' : Distinct i')
    (hsame : i'.guardApprovals = i.guardApprovals) (h : ReasonStep d i op i') (hi : Testified i) :
    Testified i' := by
  have hkept : ∀ record roleId, i.authorOf record = some roleId →
      i'.authorOf record = some roleId := by
    intro record roleId hauthor
    refine authorOf_onward honward hi' ?_ hauthor
    intro guardName _ hnone
    rwa [Unapproved, hsame]
  have hold : ∀ reason ∈ i.reasons, reason.kind.asserter = .itsAuthor →
      ∃ roleId, reason.assertedBy = some roleId ∧ i'.authorOf reason.fromRecord = some roleId := by
    intro reason hreason htestimony
    obtain ⟨roleId, hby, hauthor⟩ := hi reason hreason htestimony
    exact ⟨roleId, hby, hkept _ _ hauthor⟩
  cases h with
  | kept hreasons =>
    rw [Testified, hreasons]
    exact hold
  | answered hitem firstSuch hid hone =>
    intro reason hreason htestimony
    rcases mem_reasons_answered firstSuch hid hone hreason with hbefore | ⟨ordinal, -, hnew⟩
    · exact hold reason hbefore htestimony
    · simp [hnew.kind, CeremonyReasonKind.asserter] at htestimony
  | @asserted roleId fromRecord _ kind _ _ _ reason declared hfrom hto entitled hreason =>
    obtain ⟨hf, -, hk, hby, -⟩ := CeremonyReason.new_ok hreason
    intro other hother htestimony
    rcases List.mem_append.mp hother with hbefore | hnew
    · exact hold other hbefore htestimony
    · rw [List.mem_singleton.mp hnew] at htestimony ⊢
      rw [hk] at htestimony
      rw [CeremonyInstance.requireAsserter, htestimony, require_eq_ok, decide_eq_true_eq] at entitled
      exact ⟨roleId, hby, hf ▸ hkept _ _ entitled⟩

theorem testified_effect (h : Effect d i op i') (haccepted : op.answer d i = .ok ())
    (hdistinct : Distinct i) (hi : Testified i) : Testified i' ↔ KeepsAuthors d i op := by
  have honward := effect_onward h
  have hi' := distinct_effect h hdistinct
  cases op with
  | approveGuard guardName approvedBy approvedByKind now =>
    have hfirst := @authorOf_first _ _ _ _ _ _ _ h
    cases h with
    | approveGuard active hguard human declared hcontext =>
      constructor
      · intro hall _ hnone reason hreason htestimony hfrom
        obtain ⟨roleId, hby, hauthor⟩ := hall reason hreason htestimony
        rw [hfrom, hfirst hnone] at hauthor
        rw [hby, hauthor]
      · intro hkeeps reason hreason htestimony
        obtain ⟨roleId, hby, hauthor⟩ := hi reason hreason htestimony
        by_cases hgets : reason.fromRecord = .guardDecision guardName ∧ Unapproved i guardName
        · refine ⟨approvedBy, hkeeps haccepted hgets.2 reason hreason htestimony hgets.1, ?_⟩
          rw [hgets.1]
          exact hfirst hgets.2
        · refine ⟨roleId, hby, authorOf_onward honward hi' ?_ hauthor⟩
          intro other hother hnone approval happroval
          rcases List.mem_append.mp happroval with hold | hnew
          · exact hnone approval hold
          · rw [List.mem_singleton.mp hnew]
            rintro rfl
            exact hgets ⟨hother, hnone⟩
  | _ =>
    refine iff_of_true (testified_kept honward hi' ?_ (reasonStep_of_effect h) hi) trivial
    exact approvals_effect h (by simp)

/-- However many calls, testimony stays with its author if and only if no guard gets its first
approval from another role than the one that testified about its deferral. -/
theorem testimony_stays_iff (d : CeremonyDefinition) (id : CeremonyId) (context : CeremonyContext)
    (now : OffsetDateTime) (bound : Option CeremonyDefinitionDigest) (ops : List Operation) :
    (∀ before later, ops = before ++ later →
      Testified (runAll d before (CeremonyInstance.opened id d context now bound))) ↔
    ∀ before op later, ops = before ++ op :: later →
      KeepsAuthors d (runAll d before (CeremonyInstance.opened id d context now bound)) op := by
  apply runAll_always_iff Distinct
  · exact fun i op i' heffect hi => distinct_effect heffect hi
  · exact fun i op i' haccepted heffect hd hi => testified_effect heffect haccepted hd hi
  · exact fun i op e hrefused => keepsAuthors_of_refused hrefused
  · exact List.nodup_nil
  · exact fun reason hreason => absurd hreason List.not_mem_nil

section Clearance

def fenced : StateId := ⟨"fenced", by decide⟩
def cleared : StateId := ⟨"cleared", by decide⟩
def enter : TransitionTrigger := ⟨"enter", by decide⟩
def safe : GuardName := ⟨"safe", by decide⟩
def warden : RoleId := ⟨"warden", by decide⟩
def owner : RoleId := ⟨"owner", by decide⟩
def hazard : CeremonyInterventionId := ⟨"hazard", by decide⟩

def clearance : CeremonyDefinition :=
  (CeremonyDefinition.new ⟨"clearance", by decide⟩ versionOne none [] []
    [⟨fenced, .initial⟩, ⟨cleared, .terminal⟩] [⟨fenced, cleared, enter, OrdSet.ofList [safe]⟩]
    [] [⟨safe, .humanApproval⟩]
    [⟨warden, OrdSet.ofList [.transition enter, .requestIntervention], by decide⟩,
      ⟨owner, OrdSet.ofList [.transition enter], by decide⟩]).toOption.get (by decide +kernel)

/-- The warden puts the decision off and says why; then the owner approves. -/
def overruled : List Operation :=
  [.requestIntervention hazard warden .opinion .table ⟨⟨"a loose beam", by decide⟩, Attributes.empty⟩
      none ⟨1, 0⟩,
    .deferGuard safe ⟨⟨"not today", by decide⟩, ⟨"the beam is loose", by decide⟩,
      [⟨"the beam is fixed", by decide⟩], by simp⟩ warden .human ⟨2, 0⟩,
    .assertReason warden (.guardDecision safe) (.agendaItem hazard) .chosenBecause "it may fall" .high
      ⟨3, 0⟩,
    .approveGuard safe owner .human ⟨4, 0⟩]

theorem overruled_loses_author :
    ¬ ∀ (d : CeremonyDefinition) (id : CeremonyId) (context : CeremonyContext)
      (now : OffsetDateTime) (bound : Option CeremonyDefinitionDigest) (ops : List Operation),
      Testified (runAll d ops (CeremonyInstance.opened id d context now bound)) := by
  intro h
  have ht := h clearance ⟨"site-7", by decide⟩ CeremonyContext.empty ⟨0, 0⟩ none overruled
  generalize hi : runAll clearance overruled (CeremonyInstance.opened ⟨"site-7", by decide⟩ clearance
    CeremonyContext.empty ⟨0, 0⟩ none) = i at ht
  have hreasons : i.reasons.map (fun reason => (reason.fromRecord, reason.kind, reason.assertedBy)) =
      [(.guardDecision safe, .chosenBecause, some warden)] := by
    rw [← hi]
    rfl
  have hauthor : i.authorOf (.guardDecision safe) = some owner := by
    rw [← hi]
    rfl
  obtain ⟨reason, hreason, hgiven⟩ := List.mem_map.mp (hreasons ▸ List.mem_singleton_self _)
  obtain ⟨hfrom, hkind, hby⟩ : reason.fromRecord = .guardDecision safe ∧
      reason.kind = .chosenBecause ∧ reason.assertedBy = some warden := by
    simpa using hgiven
  obtain ⟨roleId, hrole, hrole'⟩ := ht reason hreason (by rw [hkind]; rfl)
  rw [hfrom, hauthor] at hrole'
  rw [hby, ← hrole'] at hrole
  exact absurd (Option.some.inj hrole) (by decide)

end Clearance

end Choreographer.Testimony
