import Choreographer.TransitionLog

namespace Choreographer.HumanGuards

open Choreographer.Lib.SortedMaps Choreographer.Lib.Updates
open Choreographer.Texts Choreographer.Values Choreographer.Steps Choreographer.DefinitionParts
open Choreographer.Definition Choreographer.Agenda Choreographer.Instance Choreographer.Operations
open Choreographer.TransitionLog

variable {d : CeremonyDefinition} {i i' start : CeremonyInstance} {op : Operation}

def IsHumanGuard (d : CeremonyDefinition) (guardName : GuardName) : Prop :=
  ∃ guard, d.guards.get? guardName = some guard ∧ guard.condition = .humanApproval

/-- The session holds an approval of the guard by a role the definition declares. -/
def ApprovalRecorded (d : CeremonyDefinition) (i : CeremonyInstance) (guardName : GuardName) :
    Prop :=
  ∃ approval ∈ i.guardApprovals, approval.guardName = guardName ∧
    (d.role approval.approvedBy).isSome = true

/-- Every human guard the context lets through was let through by somebody. -/
def Accounted (d : CeremonyDefinition) (i : CeremonyInstance) : Prop :=
  ∀ guardName, IsHumanGuard d guardName → i.context.isGuardApproved guardName = true →
    ApprovalRecorded d i guardName

theorem accounted_step (hi : Accounted d i) (h : Effect d i op i') : Accounted d i' := by
  cases h with
  | approveGuard active hguard human declared hcontext =>
    intro guardName hh happ
    rw [CeremonyContext.isGuardApproved_withGuardApproval hcontext, Bool.or_eq_true,
      decide_eq_true_eq] at happ
    rcases happ with rfl | happ
    · exact ⟨_, List.mem_append_right _ (List.mem_singleton_self _), rfl, declared⟩
    · obtain ⟨approval, hm, hrest⟩ := hi guardName hh happ
      exact ⟨approval, List.mem_append_left _ hm, hrest⟩
  | _ => exact hi

theorem satisfied_iff_approved {guardName : GuardName} {guard : CeremonyGuard}
    (hg : d.guards.get? guardName = some guard) (human : guard.condition = .humanApproval) :
    guard.isSatisfied i.stepRecords i.context = i.context.isGuardApproved guardName := by
  rw [CeremonyGuard.isSatisfied, human, d.guardsKeyed guardName guard hg]

/-- Human guards open only by a recorded decision: the one a satisfied guard
shows, and the one each logged move through such a guard came after. -/
structure OpenedByDecision (d : CeremonyDefinition) (start : CeremonyInstance)
    (ops : List Operation) : Prop where
  satisfied : ∀ guardName guard, d.guards.get? guardName = some guard →
    guard.condition = .humanApproval →
    guard.isSatisfied (runAll d ops start).stepRecords (runAll d ops start).context = true →
      ApprovalRecorded d (runAll d ops start) guardName
  logged : ∀ k entry transition guardName, (runAll d ops start).transitions[k]? = some entry →
    Declares d entry transition → transition.requiredGuards.contains guardName = true →
    IsHumanGuard d guardName →
      ∃ earlier later, ops = earlier ++ later ∧
        (runAll d earlier start).transitions = (runAll d ops start).transitions.take k ∧
        ApprovalRecorded d (runAll d earlier start) guardName

theorem openedByDecision_of_accounted (hs : start.currentState = d.initialStateId)
    (ht : start.transitions = []) (hacc : Accounted d start) (ops : List Operation) :
    OpenedByDecision d start ops := by
  have hrun (ops : List Operation) : Accounted d (runAll d ops start) :=
    runAll_keeps (fun _ _ _ => accounted_step) ops hacc
  refine ⟨fun guardName guard hg human hsat => ?_, ?_⟩
  · rw [satisfied_iff_approved hg human] at hsat
    exact hrun ops guardName ⟨guard, hg, human⟩ hsat
  · intro k entry transition guardName hk hdecl hreq hhuman
    obtain ⟨⟨t, hdecl', earlier, op, later, hops, hbefore, -, hstand⟩, -, -⟩ :=
      (guardedWalk_run hs ht ops).entries k entry hk
    have htt : transition = t := hdecl'.only transition hdecl.declared hdecl.leaves hdecl.fired
    subst htt
    obtain ⟨guard, hg, hsat⟩ := hstand guardName hreq
    obtain ⟨guard', hg', human⟩ := hhuman
    obtain rfl := Option.some.inj (hg.symm.trans hg')
    rw [satisfied_iff_approved hg human] at hsat
    exact ⟨earlier, op :: later, hops, hbefore, hrun earlier guardName ⟨guard, hg, human⟩ hsat⟩

/-- A session opens its human guards by recorded decisions only, whatever is
done with it, exactly when the context it was opened with approves none of them. -/
theorem decisions_recorded_iff (d : CeremonyDefinition) (id : CeremonyId)
    (context : CeremonyContext) (now : OffsetDateTime) (bound : Option CeremonyDefinitionDigest) :
    (∀ ops, OpenedByDecision d (CeremonyInstance.opened id d context now bound) ops) ↔
      ∀ guardName, IsHumanGuard d guardName → context.isGuardApproved guardName = false := by
  constructor
  · rintro h guardName ⟨guard, hg, human⟩
    by_contra happ
    rw [Bool.not_eq_false] at happ
    have hsat := (satisfied_iff_approved (i := CeremonyInstance.opened id d context now bound) hg
      human).trans happ
    obtain ⟨approval, hm, -⟩ := (h []).satisfied guardName guard hg human hsat
    exact absurd hm (by simp [runAll, CeremonyInstance.opened])
  · intro h
    refine openedByDecision_of_accounted rfl rfl fun guardName hh happ => ?_
    have : context.isGuardApproved guardName = true := happ
    rw [h guardName hh] at this
    simp at this

section Release

def draft : StateId := ⟨"draft", by decide⟩
def released : StateId := ⟨"released", by decide⟩
def publish : TransitionTrigger := ⟨"publish", by decide⟩
def signOff : GuardName := ⟨"sign_off", by decide⟩
def lead : RoleId := ⟨"lead", by decide⟩

def release : CeremonyDefinition :=
  (CeremonyDefinition.new ⟨"releasing", by decide⟩ versionOne none [] []
    [⟨draft, .initial⟩, ⟨released, .terminal⟩] [⟨draft, released, publish, OrdSet.ofList [signOff]⟩]
    [] [⟨signOff, .humanApproval⟩]
    [⟨lead, OrdSet.ofList [.transition publish], by decide⟩]).toOption.get rfl

def presigned : CeremonyContext := ⟨⟨OrdMap.empty.insert "sign_off" (.bool true), rfl⟩⟩

/-- The draft is released with nobody on record for the sign-off. -/
theorem release_without_decision :
    ¬ OpenedByDecision release
      (CeremonyInstance.opened ⟨"r1", by decide⟩ release presigned ⟨0, 0⟩ none)
      [.applyTransition (some lead) publish ⟨1, 0⟩] := by
  intro h
  obtain ⟨earlier, later, hops, -, approval, hm, -⟩ :=
    h.logged 0 ⟨publish, draft, released, some lead, ⟨1, 0⟩⟩
      ⟨draft, released, publish, OrdSet.ofList [signOff]⟩ signOff rfl
      ⟨List.mem_singleton_self _, rfl, rfl, rfl, fun other ho _ _ => List.mem_singleton.mp ho⟩ rfl
      ⟨⟨signOff, .humanApproval⟩, rfl, rfl⟩
  rcases List.singleton_eq_append_iff.mp hops with ⟨rfl, -⟩ | ⟨rfl, -⟩
  · exact List.not_mem_nil hm
  · exact List.not_mem_nil hm

end Release

end Choreographer.HumanGuards
