import Choreographer.Fencing
import Choreographer.SoleRuns

namespace Choreographer.DriverVerbs

open Choreographer.Lib.SortedMaps Choreographer.Lib.Updates Choreographer.Lib.Programs
open Choreographer.Texts Choreographer.Values Choreographer.Steps Choreographer.DefinitionParts
open Choreographer.Definition Choreographer.Agenda Choreographer.Instance Choreographer.Audit
open Choreographer.Operations Choreographer.InMemory Choreographer.SessionJournal
open Choreographer.SessionFacts Choreographer.SessionLog Choreographer.UseCases
open Choreographer.SoleRuns

section Verbs

variable (definition : CeremonyDefinition) (leaseOwnerId : LeaseOwnerId) (leaseTtl : DurationMs)
  (actorKind : AuditActorKind) (id : CeremonyId)

/-- Call for each step that has not succeeded yet, one after the other, up to the first that
does not succeed. -/
def callSteps : List StepId → CeremonyInstance → Nat → UseCaseM (CeremonyInstance × Nat)
  | [], session, called => pure (session, called)
  | stepId :: rest, session, called =>
    if (session.stepRecord stepId).any fun record => record.status.isSuccess then
      callSteps rest session called
    else do
      let roleId ← checked (definition.roleIdForStep stepId)
      let key ← checked (Text.new (id.asStr ++ ":" ++ stepId.asStr ++ ":" ++ (called + 1).repr))
      let (session, _, result) ← runCeremonyStep id roleId actorKind stepId leaseOwnerId key leaseTtl
      checked (require result.status.isSuccess
        (.invariantViolated "ceremony step did not complete successfully"))
      callSteps rest session (called + 1)

def callTransition (stateId : StateId) (session : CeremonyInstance) : UseCaseM CeremonyInstance := do
  let transition ← checked (okOr
    (definition.nextSatisfiedTransition stateId session.stepRecords session.context)
    (.invariantViolated "no satisfied ceremony transition is available"))
  let roleId ← checked (definition.roleIdForTransition transition.trigger)
  applyCeremonyTransition id roleId actorKind transition.trigger

def callTurn (session : CeremonyInstance) (called : Nat) : UseCaseM (CeremonyInstance × Nat) := do
  let (moved, called) ← callSteps definition leaseOwnerId leaseTtl actorKind id
    ((definition.stepsForState session.currentState).map CeremonyStep.id) session called
  let moved ← callTransition definition actorKind id session.currentState moved
  pure (moved, called)

def callTurns : Nat → CeremonyInstance → Nat → UseCaseM CeremonyInstance
  | 0, _, _ => throw (.invariantViolated "ceremony execution exceeded transition safety limit")
  | n + 1, session, called =>
    if session.isCompleted definition then pure session
    else do
      let (session, called) ← callTurn definition leaseOwnerId leaseTtl actorKind id session called
      callTurns n session called

def callStart (context : CeremonyContext) (actorId : String) : UseCaseM CeremonyInstance := do
  let _ ← ask (.saveDefinition definition)
  startCeremony id definition.name definition.version context actorId actorKind

def callAll (context : CeremonyContext) (actorId : String) : UseCaseM CeremonyInstance := do
  let session ← callStart definition actorKind id context actorId
  callTurns definition leaseOwnerId leaseTtl actorKind id
    (definition.states.size + definition.transitions.length + 1) session 0

end Verbs

section Effects

variable {m : Setting} {s s' : Scene} {definition : CeremonyDefinition} {id : CeremonyId}
  {loaded l : LoadedSession} {stepId : StepId} {attempt : StepAttempt} {key : IdempotencyKey}
  {result : StepResult} {roleId : RoleId} {roleKind : AuditActorKind}

/-- What the calls for a step leave of a session. -/
structure Stays (i i' : CeremonyInstance) : Prop where
  ident : ident i' = ident i
  state : i'.currentState = i.currentState
  completed : i'.completedAt = i.completedAt
  transitions : i'.transitions = i.transitions
  interventions : i'.interventions = i.interventions

theorem Stays.trans {i j k : CeremonyInstance} (h : Stays i j) (h' : Stays j k) : Stays i k :=
  ⟨h'.ident.trans h.ident, h'.state.trans h.state, h'.completed.trans h.completed,
    h'.transitions.trans h.transitions, h'.interventions.trans h.interventions⟩

theorem stays_startStepAs {i i' : CeremonyInstance} {lease : StepLease} {now : OffsetDateTime}
    (h : Succeeds (CeremonyInstance.startStepAs definition roleId stepId lease now) i attempt i') :
    Stays i i' := by
  obtain ⟨heffect, -⟩ := startStepAs_effect h
  cases heffect
  exact ⟨rfl, rfl, rfl, rfl, rfl⟩

theorem stays_applyStepResult {i i' : CeremonyInstance} {now : OffsetDateTime} {u : Unit}
    (h : Succeeds (CeremonyInstance.applyStepResult definition stepId result now) i u i') :
    Stays i i' := by
  cases applyStepResult_effect h
  exact ⟨rfl, rfl, rfl, rfl, rfl⟩

theorem current_stays {session base : CeremonyInstance} {facts : List AuditFact} {note : Deed}
    (h : Current definition id loaded s) (hstays : Stays loaded.session session)
    (hcommit : perform m (commit ⟨session, loaded.expected⟩ facts base note) s = (.ok l, s')) :
    Current definition id l s' ∧ Stays loaded.session l.session ∧
      s'.transcripts = s.transcripts := by
  obtain ⟨rfl, hcurrent, htranscripts⟩ := current_commit h hstays.ident
    (hstays.interventions.trans h.quiet) hcommit
  exact ⟨hcurrent, hstays, htranscripts⟩

theorem current_finishStep (h : Current definition id loaded s)
    (hfinish : perform m (finishStep definition id stepId attempt key result roleId roleKind) s =
      (.ok l, s')) :
    Current definition id l s' ∧ Stays loaded.session l.session := by
  rw [finishStep, perform_bind_ok (perform_load h), perform_bind_ok perform_now] at hfinish
  replace h := h.tell (m.clock s)
  obtain ⟨⟨_, session⟩, v, hoperate, hfinish⟩ := perform_bind_eq_ok.mp hfinish
  obtain ⟨hsucceeds, rfl⟩ := perform_operate hoperate
  obtain ⟨finished, v', hchecked, hcommit⟩ := perform_bind_eq_ok.mp hfinish
  obtain ⟨-, rfl⟩ := perform_checked_eq_ok hchecked
  obtain ⟨hcurrent, hstays, -⟩ := current_stays h (stays_applyStepResult hsucceeds) hcommit
  exact ⟨hcurrent, hstays⟩

end Effects

section Lockstep

variable {m : Setting} {s s' : Scene} {definition : CeremonyDefinition} {id : CeremonyId}
  {leaseOwnerId : LeaseOwnerId} {leaseTtl : DurationMs} {actorKind : AuditActorKind}
  {loaded l : LoadedSession} {stepId : StepId} {roleId : RoleId}

theorem transcript_answer (id : CeremonyId) :
    (Call.transcript id : Call Deed).Answer = Except DomainError CeremonyTranscript := rfl

def driveStep (definition : CeremonyDefinition) (leaseOwnerId : LeaseOwnerId) (leaseTtl : DurationMs)
    (actorKind : AuditActorKind) (id : CeremonyId) (loaded : LoadedSession) (roleId : RoleId)
    (stepId : StepId) (traceIndex : Nat) : UseCaseM (LoadedSession × StepAttempt × StepResult) := do
  let transcript ← perhaps (.transcript id) (transcript_answer id)
  let _ ← ask .lap
  let r ← runStep definition leaseOwnerId leaseTtl actorKind loaded roleId stepId traceIndex
    transcript
  let _ ← ask .lap
  if r.2.2.status.isSuccess then
    perhaps (.contribute id ⟨stepId, roleId, r.2.2.output⟩) rfl
  pure r

theorem current_runStep {transcript : CeremonyTranscript} {traceIndex : Nat}
    {attempt : StepAttempt} {result : StepResult} (h : Current definition id loaded s)
    (hrun : perform m (runStep definition leaseOwnerId leaseTtl actorKind loaded roleId stepId
      traceIndex transcript) s = (.ok (l, attempt, result), s')) :
    Current definition id l s' ∧ Stays loaded.session l.session := by
  rw [runStep] at hrun
  obtain ⟨step, v, hstep, hnow⟩ := perform_bind_eq_ok.mp hrun
  obtain ⟨-, rfl⟩ := perform_checked_eq_ok hstep
  rw [perform_bind_ok perform_now] at hnow
  replace h := h.tell (m.clock v)
  obtain ⟨key, v, hkey, hacquire⟩ := perform_bind_eq_ok.mp hnow
  obtain ⟨-, rfl⟩ := perform_checked_eq_ok hkey
  obtain ⟨lease, v, hlease, hstart⟩ := perform_bind_eq_ok.mp hacquire
  obtain ⟨-, rfl⟩ := perform_checked_eq_ok hlease
  obtain ⟨⟨granted, session⟩, v, hoperate, hclaim⟩ := perform_bind_eq_ok.mp hstart
  obtain ⟨hsucceeds, rfl⟩ := perform_operate hoperate
  obtain ⟨claim, v, hfact, hstore⟩ := perform_bind_eq_ok.mp hclaim
  obtain ⟨-, rfl⟩ := perform_checked_eq_ok hfact
  obtain ⟨claimed, v, hcommit, hhandle⟩ := perform_bind_eq_ok.mp hstore
  obtain ⟨hclaimed, hstays, -⟩ := current_stays h (stays_startStepAs hsucceeds) hcommit
  obtain ⟨outcome, v', hexecute, hrest⟩ := perform_bind_eq_ok.mp hhandle
  have hsame := perform_executeHandler (m := m) (s := v)
    (handlerRequest claimed.session step granted transcript [] roleId)
  rw [hexecute] at hsame
  subst hsame
  obtain ⟨finished, v', hfinish, hdone⟩ := perform_bind_eq_ok.mp hrest
  rw [hclaimed.own] at hfinish
  obtain ⟨hcurrent, hstays'⟩ := current_finishStep hclaimed hfinish
  obtain ⟨hl, rfl⟩ := Prod.mk.inj hdone
  obtain ⟨rfl, -⟩ := Prod.mk.inj (Except.ok.inj hl)
  exact ⟨hcurrent, hstays.trans hstays'⟩

/-- The verb for a step does what the driver does for it. The driver reads what was said
before it claims the step, and the verb afterwards; claiming says nothing. -/
theorem perform_runCeremonyStep {step : CeremonyStep} {key : IdempotencyKey} {traceIndex : Nat}
    (h : Current definition id loaded s) (hstep : definition.step stepId = some step)
    (hkey : Text.new (id.asStr ++ ":" ++ stepId.asStr ++ ":" ++ (traceIndex + 1).repr) = .ok key) :
    perform m (runCeremonyStep id roleId actorKind stepId leaseOwnerId key leaseTtl) s =
      perform m (driveStep definition leaseOwnerId leaseTtl actorKind id loaded roleId stepId
        traceIndex >>= fun r => pure (r.1.session, r.2)) s := by
  have hfound : perform m (checked (okOr (definition.step stepId) (.notFound "ceremony_step"))) s =
      (.ok step, s) := by
    rw [perform_checked, hstep]
    rfl
  have hnamed (s : Scene) : perform m (checked (Text.new (loaded.session.id.asStr ++ ":" ++
      stepId.asStr ++ ":" ++ (traceIndex + 1).repr))) s = (.ok key, s) := by
    rw [perform_checked, h.own, hkey]
  rw [runCeremonyStep, perform_bind_ok (perform_load h), perform_bind_ok (perform_resolve h),
    perform_bind_ok hfound, perform_bind_ok perform_now]
  rw [driveStep, perform_assoc, perform_bind_ok (perform_transcript id), perform_assoc,
    perform_bind_ok perform_lap, perform_assoc, runStep, perform_assoc, perform_bind_ok hfound,
    perform_assoc, perform_bind_ok perform_now, perform_assoc, perform_bind_ok (hnamed _),
    perform_assoc]
  have htranscript : s.transcripts id = (s.tell (m.clock s)).transcripts id := rfl
  replace h := h.tell (m.clock s)
  rw [htranscript]
  apply perform_congr
  intro lease v hlease
  obtain ⟨-, rfl⟩ := perform_checked_eq_ok hlease
  rw [perform_assoc]
  apply perform_congr
  rintro ⟨attempt, session⟩ v hoperate
  obtain ⟨hsucceeds, rfl⟩ := perform_operate hoperate
  dsimp only
  rw [perform_assoc]
  apply perform_congr
  intro claim v hclaim
  obtain ⟨-, rfl⟩ := perform_checked_eq_ok hclaim
  rw [perform_assoc]
  apply perform_congr
  intro claimed v' hcommit
  obtain ⟨hclaimed, -, htranscripts⟩ := current_stays h (stays_startStepAs hsucceeds) hcommit
  rw [perform_bind_ok (perform_transcript claimed.session.id), hclaimed.own, hclaimed.quiet,
    htranscripts, perform_assoc]
  apply perform_congr
  intro result v'' hexecute
  have hsame := perform_executeHandler (m := m) (s := v')
    (handlerRequest claimed.session step attempt ((s.tell (m.clock s)).transcripts id) [] roleId)
  rw [hexecute] at hsame
  subst hsame
  rw [perform_assoc]
  apply perform_congr
  intro finished v' hfinish
  obtain ⟨hcurrent, -⟩ := current_finishStep hclaimed hfinish
  rw [perform_bind_ok (perform_pure _), perform_assoc, perform_bind_ok perform_lap]
  dsimp only
  rw [hcurrent.own]
  cases result.status.isSuccess with
  | true => rfl
  | false => rfl

theorem perform_driveStep_unnamed {step : CeremonyStep} {traceIndex : Nat} {e : DomainError}
    (h : Current definition id loaded s) (hstep : definition.step stepId = some step)
    (hkey : (Text.new (id.asStr ++ ":" ++ stepId.asStr ++ ":" ++ (traceIndex + 1).repr) :
      Except DomainError IdempotencyKey) = .error e) :
    perform m (driveStep definition leaseOwnerId leaseTtl actorKind id loaded roleId stepId
      traceIndex) s = (.error e, s.tell (m.clock s)) := by
  have hfound : perform m (checked (okOr (definition.step stepId) (.notFound "ceremony_step"))) s =
      (.ok step, s) := by
    rw [perform_checked, hstep]
    rfl
  have hunnamed (s : Scene) : perform m (checked (Text.new (loaded.session.id.asStr ++ ":" ++
      stepId.asStr ++ ":" ++ (traceIndex + 1).repr) : Except DomainError IdempotencyKey)) s =
        (.error e, s) := by
    rw [perform_checked, h.own, hkey]
  rw [driveStep, perform_bind_ok (perform_transcript id), perform_bind_ok perform_lap, runStep,
    perform_assoc, perform_bind_ok hfound, perform_assoc, perform_bind_ok perform_now,
    perform_assoc, perform_bind_error (hunnamed _)]

theorem current_driveStep {traceIndex : Nat} {attempt : StepAttempt} {result : StepResult}
    (h : Current definition id loaded s)
    (hdrive : perform m (driveStep definition leaseOwnerId leaseTtl actorKind id loaded roleId stepId
      traceIndex) s = (.ok (l, attempt, result), s')) :
    Current definition id l s' ∧ Stays loaded.session l.session := by
  rw [driveStep, perform_bind_ok (perform_transcript id), perform_bind_ok perform_lap] at hdrive
  obtain ⟨⟨finished, granted, outcome⟩, v, hrun, hrest⟩ := perform_bind_eq_ok.mp hdrive
  obtain ⟨hcurrent, hstays⟩ := current_runStep h hrun
  rw [perform_bind_ok perform_lap] at hrest
  dsimp only at hrest
  cases hsuccess : outcome.status.isSuccess with
  | true =>
    rw [hsuccess] at hrest
    obtain ⟨hl, rfl⟩ := Prod.mk.inj hrest
    obtain ⟨rfl, -⟩ := Prod.mk.inj (Except.ok.inj hl)
    exact ⟨⟨hcurrent.session, hcurrent.expected, hcurrent.own, hcurrent.unbound, hcurrent.resolves,
      hcurrent.quiet⟩, hstays⟩
  | false =>
    rw [hsuccess] at hrest
    obtain ⟨hl, rfl⟩ := Prod.mk.inj hrest
    obtain ⟨rfl, -⟩ := Prod.mk.inj (Except.ok.inj hl)
    exact ⟨hcurrent, hstays⟩

theorem perform_runSteps_cons {stateId : StateId} {rest : List StepId}
    {traces : List CeremonyStepTrace}
    (hnot : ((loaded.session.stepRecord stepId).any fun record => record.status.isSuccess) = false) :
    perform m (runSteps definition leaseOwnerId leaseTtl actorKind id stateId (stepId :: rest) loaded
      traces) s =
    perform m (checked (definition.roleIdForStep stepId) >>= fun roleId =>
      driveStep definition leaseOwnerId leaseTtl actorKind id loaded roleId stepId traces.length >>=
        fun r => checked (require r.2.2.status.isSuccess
          (.invariantViolated "ceremony step did not complete successfully")) >>= fun _ =>
          runSteps definition leaseOwnerId leaseTtl actorKind id stateId rest r.1
            (traces ++ [⟨stateId, stepId, roleId, r.2.1, r.2.2.status, r.2.2.output⟩])) s := by
  rw [runSteps, hnot]
  simp only [Bool.false_eq_true, if_false]
  apply perform_congr
  intro roleId v hrole
  rw [driveStep, perform_assoc]
  apply perform_congr
  intro transcript v htranscript
  rw [perform_assoc]
  apply perform_congr
  intro _ v _
  rw [perform_assoc]
  apply perform_congr
  rintro ⟨finished, attempt, result⟩ v hrun
  rw [perform_assoc]
  apply perform_congr
  intro _ v _
  dsimp only
  by_cases hsuccess : result.status.isSuccess = true
  · rw [if_pos hsuccess, if_pos hsuccess, perform_assoc]
    apply perform_congr
    intro _ v _
    rw [perform_bind_ok (perform_pure _)]
  · rw [if_neg hsuccess, if_neg hsuccess, perform_bind_ok (perform_pure _)]

theorem current_runSteps {stateId : StateId} {steps : List StepId}
    {traces traces' : List CeremonyStepTrace} (h : Current definition id loaded s)
    (hrun : perform m (runSteps definition leaseOwnerId leaseTtl actorKind id stateId steps loaded
      traces) s = (.ok (l, traces'), s')) :
    Current definition id l s' ∧ Stays loaded.session l.session := by
  induction steps generalizing loaded s traces with
  | nil =>
    obtain ⟨hl, rfl⟩ := Prod.mk.inj hrun
    obtain ⟨rfl, -⟩ := Prod.mk.inj (Except.ok.inj hl)
    exact ⟨h, rfl, rfl, rfl, rfl, rfl⟩
  | cons stepId rest ih =>
    cases hdone : (loaded.session.stepRecord stepId).any fun record => record.status.isSuccess with
    | true =>
      rw [runSteps, hdone, if_pos rfl] at hrun
      exact ih h hrun
    | false =>
      rw [perform_runSteps_cons hdone] at hrun
      obtain ⟨roleId, v, hrole, hdrive⟩ := perform_bind_eq_ok.mp hrun
      obtain ⟨-, rfl⟩ := perform_checked_eq_ok hrole
      obtain ⟨⟨finished, attempt, result⟩, v, hstep, hcheck⟩ := perform_bind_eq_ok.mp hdrive
      obtain ⟨hcurrent, hstays⟩ := current_driveStep h hstep
      obtain ⟨_, v, hsuccess, hrest⟩ := perform_bind_eq_ok.mp hcheck
      obtain ⟨-, rfl⟩ := perform_checked_eq_ok hsuccess
      obtain ⟨hlast, hstays'⟩ := ih hcurrent hrest
      exact ⟨hlast, hstays.trans hstays'⟩

/-- Calling for the steps does what the driver's loop over them does. Where a step cannot be
given a key the driver has looked at the clock already. -/
theorem alike_callSteps (stateId : StateId) {steps : List StepId}
    {traces : List CeremonyStepTrace}
    (hsteps : ∀ stepId ∈ steps, ∃ step, definition.step stepId = some step)
    (h : Current definition id loaded s) :
    Alike (perform m (callSteps definition leaseOwnerId leaseTtl actorKind id steps loaded.session
      traces.length) s)
    (perform m (runSteps definition leaseOwnerId leaseTtl actorKind id stateId steps loaded traces >>=
      fun r => pure (r.1.session, r.2.length)) s) := by
  induction steps generalizing loaded s traces with
  | nil => exact .inl rfl
  | cons stepId rest ih =>
    obtain ⟨step, hstep⟩ := hsteps stepId List.mem_cons_self
    have hrest : ∀ other ∈ rest, ∃ step, definition.step other = some step :=
      fun other hother => hsteps other (List.mem_cons_of_mem _ hother)
    cases hdone : (loaded.session.stepRecord stepId).any fun record => record.status.isSuccess with
    | true =>
      rw [callSteps, runSteps, hdone, if_pos rfl, if_pos rfl]
      exact ih hrest h
    | false =>
      rw [callSteps, hdone, perform_bind (runSteps _ _ _ _ _ _ _ _ _), perform_runSteps_cons hdone,
        ← perform_bind, perform_assoc]
      simp only [Bool.false_eq_true, if_false]
      apply alike_congr
      intro roleId v hrole
      obtain ⟨-, rfl⟩ := perform_checked_eq_ok hrole
      cases hkey : (Text.new (id.asStr ++ ":" ++ stepId.asStr ++ ":" ++ (traces.length + 1).repr) :
          Except DomainError IdempotencyKey) with
      | error e =>
        rw [perform_bind_error (perform_checked _), perform_assoc,
          perform_bind_error (perform_driveStep_unnamed h hstep hkey)]
        exact .inr ⟨e, rfl, rfl, rfl, rfl⟩
      | ok key =>
        rw [perform_bind_ok (perform_checked _), perform_bind, perform_runCeremonyStep h hstep hkey,
          ← perform_bind, perform_assoc, perform_assoc]
        apply alike_congr
        rintro ⟨finished, attempt, result⟩ v hdrive
        obtain ⟨hcurrent, -⟩ := current_driveStep h hdrive
        rw [perform_bind_ok (perform_pure _), perform_assoc]
        apply alike_congr
        intro _ v hsuccess
        obtain ⟨-, rfl⟩ := perform_checked_eq_ok hsuccess
        have hlength (trace : CeremonyStepTrace) : traces.length + 1 = (traces ++ [trace]).length := by
          simp
        dsimp only
        rw [hlength ⟨stateId, stepId, roleId, attempt, result.status, result.output⟩]
        exact ih hrest hcurrent

theorem current_moveAlong {stateId : StateId} (h : Current definition id loaded s)
    (hmove : perform m (moveAlong definition actorKind stateId loaded) s = (.ok l, s')) :
    Current definition id l s' ∧ ∃ roleId trigger now,
      Effect definition loaded.session (.applyTransition (some roleId) trigger now) l.session := by
  rw [moveAlong] at hmove
  obtain ⟨transition, v, htransition, hrole⟩ := perform_bind_eq_ok.mp hmove
  obtain ⟨-, rfl⟩ := perform_checked_eq_ok htransition
  obtain ⟨roleId, v, hrole, hnow⟩ := perform_bind_eq_ok.mp hrole
  obtain ⟨-, rfl⟩ := perform_checked_eq_ok hrole
  rw [perform_bind_ok perform_now] at hnow
  replace h := h.tell (m.clock v)
  obtain ⟨⟨state, session⟩, v, hoperate, hfacts⟩ := perform_bind_eq_ok.mp hnow
  obtain ⟨hsucceeds, rfl⟩ := perform_operate hoperate
  obtain ⟨moved, v, hmoved, hcommit⟩ := perform_bind_eq_ok.mp hfacts
  obtain ⟨-, rfl⟩ := perform_checked_eq_ok hmoved
  obtain ⟨heffect, -⟩ := applyTransitionAs_effect hsucceeds
  have hquiet : session.interventions = [] := by
    cases heffect
    exact h.quiet
  obtain ⟨rfl, hcurrent, -⟩ := current_commit h heffect.ident hquiet hcommit
  exact ⟨hcurrent, roleId, transition.trigger, _, heffect⟩

theorem perform_callTransition {stateId : StateId} (h : Current definition id loaded s) :
    perform m (callTransition definition actorKind id stateId loaded.session) s =
      perform m (moveAlong definition actorKind stateId loaded >>= fun l => pure l.session) s := by
  rw [callTransition, moveAlong, perform_assoc]
  apply perform_congr
  intro transition v htransition
  obtain ⟨-, rfl⟩ := perform_checked_eq_ok htransition
  rw [perform_assoc]
  apply perform_congr
  intro roleId v hrole
  obtain ⟨-, rfl⟩ := perform_checked_eq_ok hrole
  rw [applyCeremonyTransition, perform_bind_ok (perform_load h),
    perform_bind_ok (perform_resolve h), perform_bind_ok perform_now, perform_assoc,
    perform_bind_ok perform_now, perform_assoc]
  apply perform_congr
  rintro ⟨state, session⟩ v hoperate
  dsimp only
  rw [perform_assoc]

theorem step_of_stepsForState {stateId : StateId} :
    ∀ stepId ∈ (definition.stepsForState stateId).map CeremonyStep.id,
      ∃ step, definition.step stepId = some step := by
  intro stepId hmem
  obtain ⟨step, hstep, rfl⟩ := List.mem_map.mp hmem
  obtain ⟨key, -, hkey⟩ := List.mem_filterMap.mp (List.mem_filter.mp hstep).1
  refine ⟨step, ?_⟩
  rw [definition.stepsKeyed key step hkey]
  exact hkey

theorem callSteps_ok {stateId : StateId} {traces : List CeremonyStepTrace}
    {session : CeremonyInstance} {called : Nat} (h : Current definition id loaded s)
    (hcalls : perform m (callSteps definition leaseOwnerId leaseTtl actorKind id
      ((definition.stepsForState stateId).map CeremonyStep.id) loaded.session traces.length) s =
        (.ok (session, called), s')) :
    ∃ stepped traces', stepped.session = session ∧ traces'.length = called ∧
      perform m (runSteps definition leaseOwnerId leaseTtl actorKind id stateId
        ((definition.stepsForState stateId).map CeremonyStep.id) loaded traces) s =
          (.ok (stepped, traces'), s') := by
  have hran := (alike_callSteps stateId step_of_stepsForState h).of_ok hcalls
  obtain ⟨⟨stepped, traces'⟩, v, hsteps, hdone⟩ := perform_bind_eq_ok.mp hran
  obtain ⟨hpair, rfl⟩ := Prod.mk.inj hdone
  obtain ⟨rfl, rfl⟩ := Prod.mk.inj (Except.ok.inj hpair)
  exact ⟨stepped, traces', rfl, rfl, hsteps⟩

theorem callTurn_ok {traces : List CeremonyStepTrace} {moved : CeremonyInstance} {called : Nat}
    (h : Current definition id loaded s)
    (hturn : perform m (callTurn definition leaseOwnerId leaseTtl actorKind id loaded.session
      traces.length) s = (.ok (moved, called), s')) :
    ∃ stepped traces' v l, l.session = moved ∧ traces'.length = called ∧
      perform m (runSteps definition leaseOwnerId leaseTtl actorKind id loaded.session.currentState
        ((definition.stepsForState loaded.session.currentState).map CeremonyStep.id) loaded traces) s =
          (.ok (stepped, traces'), v) ∧
      Current definition id stepped v ∧
      perform m (moveAlong definition actorKind loaded.session.currentState stepped) v =
        (.ok l, s') := by
  rw [callTurn] at hturn
  obtain ⟨_, v, hcalls, hmoves⟩ := perform_bind_eq_ok.mp hturn
  obtain ⟨stepped, traces', hstepped, hlength, hsteps⟩ := callSteps_ok h hcalls
  have hcurrent := (current_runSteps h hsteps).1
  dsimp only at hmoves
  rw [← hstepped, perform_bind, perform_callTransition hcurrent, ← perform_bind,
    perform_assoc] at hmoves
  obtain ⟨l, v', hmove, hdone⟩ := perform_bind_eq_ok.mp hmoves
  obtain ⟨hresult, rfl⟩ := Prod.mk.inj hdone
  obtain ⟨rfl, rfl⟩ := Prod.mk.inj (Except.ok.inj hresult)
  exact ⟨stepped, traces', v, l, rfl, hlength, hsteps, hcurrent, hmove⟩

theorem Stays.isCompleted {i i' : CeremonyInstance} (h : Stays i i')
    (definition : CeremonyDefinition) : i'.isCompleted definition = i.isCompleted definition := by
  have hident := h.ident
  simp only [Operations.ident, Prod.mk.injEq] at hident
  simp only [CeremonyInstance.isCompleted, CeremonyInstance.isTerminal,
    CeremonyInstance.matchesDefinition, h.state, h.completed, hident]

theorem alike_callTurns (n : Nat) (traces : List CeremonyStepTrace)
    (h : Current definition id loaded s) :
    Alike (perform m (callTurns definition leaseOwnerId leaseTtl actorKind id n loaded.session
      traces.length) s)
    (perform m (drive definition leaseOwnerId leaseTtl actorKind id n loaded traces >>=
      fun out => pure out.session) s) := by
  induction n generalizing loaded s traces with
  | zero => exact .inl rfl
  | succ n ih =>
    by_cases hcompleted : loaded.session.isCompleted definition = true
    · rw [callTurns, drive, if_pos hcompleted, if_pos hcompleted]
      exact .inl rfl
    · rw [callTurns, drive, if_neg hcompleted, if_neg hcompleted, callTurn, perform_assoc,
        perform_assoc]
      apply (Alike.bind (alike_callSteps loaded.session.currentState step_of_stepsForState h)
        fun _ _ _ => .inl rfl).trans
      rw [perform_assoc]
      apply alike_congr
      rintro ⟨finished, traces'⟩ v hsteps
      obtain ⟨hcurrent, hstays⟩ := current_runSteps h hsteps
      dsimp only
      rw [hstays.isCompleted definition, if_neg hcompleted, perform_bind_ok (perform_pure _),
        perform_assoc, perform_bind, perform_callTransition hcurrent, ← perform_bind, perform_assoc,
        perform_assoc]
      apply alike_congr
      intro moved v' hmove
      rw [perform_bind_ok (perform_pure _), perform_bind_ok (perform_pure _)]
      exact ih traces' (current_moveAlong hcurrent hmove).1

end Lockstep

section Start

variable {m : Setting} {s : Scene} {definition : CeremonyDefinition} {id : CeremonyId}
  {leaseOwnerId : LeaseOwnerId} {leaseTtl : DurationMs} {actorKind : AuditActorKind}
  {context : CeremonyContext} {actorId : String}

def mounted (definition : CeremonyDefinition) (s : Scene) : Scene :=
  { s with world := { s.world with definitions := definition :: s.world.definitions } }

theorem definition_mounted : (mounted definition s).world.definition definition.name
    definition.version = .ok definition := by
  simp [mounted, World.definition, okOr]

def openFresh (definition : CeremonyDefinition) (actorKind : AuditActorKind) (id : CeremonyId)
    (context : CeremonyContext) (actorId : String) : UseCaseM LoadedSession := do
  let startedAt ← ask .now
  let opening := CeremonyInstance.start id definition context startedAt
  let started ← checked (ceremonyStarted opening actorId actorKind startedAt)
  openSession opening [started] ⟨definition, .opened⟩

theorem current_openFresh {l : LoadedSession} {s' : Scene}
    (hopen : perform m (openFresh definition actorKind id context actorId) (mounted definition s) =
      (.ok l, s')) : Current definition id l s' ∧ ∃ now,
        l.session = CeremonyInstance.start id definition context now := by
  rw [openFresh, perform_bind_ok perform_now] at hopen
  obtain ⟨fact, v, hfact, hopened⟩ := perform_bind_eq_ok.mp hopen
  obtain ⟨-, rfl⟩ := perform_checked_eq_ok hfact
  obtain ⟨hsession, hcurrent⟩ := current_open hopened definition_mounted
  exact ⟨hcurrent, _, hsession⟩

theorem perform_probe (hfresh : s.world.store.get id = .error (.notFound "ceremony_instance")) :
    perform m (ExceptT.lift (load id).run) s =
      (.ok (.error (.notFound "ceremony_instance")), s) := by
  have hlift : perform m (ExceptT.lift (load id).run) s =
      (.ok (perform m (load id) s).1, (perform m (load id) s).2) := interpret_bind _ _ _
  rw [hlift, perform_load_missing hfresh]

theorem perform_runCeremony
    (hfresh : s.world.store.get id = .error (.notFound "ceremony_instance")) :
    perform m (runCeremony definition leaseOwnerId leaseTtl actorKind id context actorId) s =
      perform m (openFresh definition actorKind id context actorId >>= fun loaded =>
        drive definition leaseOwnerId leaseTtl actorKind id
          (definition.states.size + definition.transitions.length + 1) loaded [])
        (mounted definition s) := by
  rw [runCeremony, perform_bind_ok (perform_probe hfresh)]
  dsimp only
  rw [perform_bind_ok (perform_ask _), openFresh, perform_assoc]
  apply perform_congr
  intro startedAt v _
  rw [perform_assoc]

theorem perform_callStart :
    perform m (callStart definition actorKind id context actorId) s =
      perform m (openFresh definition actorKind id context actorId >>= fun loaded =>
        pure loaded.session) (mounted definition s) := by
  have hdefinition : perform m (perhaps (.definition definition.name definition.version) rfl)
      (mounted definition s) = (.ok definition, mounted definition s) := by
    have hask : perform m (perhaps (.definition definition.name definition.version) rfl)
        (mounted definition s) = ((mounted definition s).world.definition definition.name
          definition.version, mounted definition s) := rfl
    rw [hask, definition_mounted]
  rw [callStart, perform_bind_ok (perform_ask _), startCeremony]
  refine (perform_bind_ok hdefinition).trans ?_
  rw [openFresh, perform_assoc]
  apply perform_congr
  intro startedAt v _
  rw [perform_assoc]

end Start

/-- Alone, the driver does what the verbs do that a client calls in its place: it comes to the
same session or the same error, and what is stored of it, journal and all, is the same. -/
theorem alike_callAll (m : Setting) (definition : CeremonyDefinition)
    (leaseOwnerId : LeaseOwnerId) (leaseTtl : DurationMs) (actorKind : AuditActorKind)
    (id : CeremonyId) (context : CeremonyContext) (actorId : String) (s : Scene)
    (hfresh : s.world.store.get id = .error (.notFound "ceremony_instance")) :
    Alike (perform m (callAll definition leaseOwnerId leaseTtl actorKind id context actorId) s)
      (perform m (runCeremony definition leaseOwnerId leaseTtl actorKind id context actorId >>=
        fun out => pure out.session) s) := by
  rw [callAll, perform_bind, perform_callStart, ← perform_bind, perform_assoc,
    perform_bind (runCeremony _ _ _ _ _ _ _), perform_runCeremony hfresh, ← perform_bind,
    perform_assoc]
  apply alike_congr
  intro loaded v hopen
  rw [perform_bind_ok (perform_pure _)]
  exact alike_callTurns _ [] (current_openFresh hopen).1

section Reviewed

open Choreographer.Fencing

def blank : Scene := ⟨World.empty, fun _ => [], []⟩

def agreeable : Setting where
  env := TamperEvidence.table
  clock _ := epoch
  handler _ _ := .ok agreed
  source _ := .error (.notFound "evidence_source")

end Reviewed

end Choreographer.DriverVerbs
