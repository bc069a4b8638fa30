import Choreographer.DriverVerbs

namespace Choreographer.SafetyLimit

open Choreographer.Lib.SortedMaps Choreographer.Lib.Updates Choreographer.Lib.Programs
open Choreographer.Texts Choreographer.Values Choreographer.Steps Choreographer.DefinitionParts
open Choreographer.Definition Choreographer.Instance Choreographer.Audit
open Choreographer.Operations Choreographer.InMemory Choreographer.SessionJournal
open Choreographer.UseCases Choreographer.SoleRuns Choreographer.DriverVerbs

def limitError : DomainError :=
  .invariantViolated "ceremony execution exceeded transition safety limit"

section Walking

variable (m : Setting) (definition : CeremonyDefinition) (leaseOwnerId : LeaseOwnerId)
  (leaseTtl : DurationMs) (actorKind : AuditActorKind) (id : CeremonyId)

/-- Turn after turn, without a limit, to a terminal state: so many moves. -/
inductive Walks : Nat → CeremonyInstance → Nat → Scene → CeremonyInstance → Scene → Prop
  | done {session : CeremonyInstance} {called : Nat} {s : Scene}
      (terminal : definition.isTerminalState session.currentState = true) :
      Walks 0 session called s session s
  | turn {k : Nat} {session moved last : CeremonyInstance} {called called' : Nat} {s s' s'' : Scene}
      (underway : definition.isTerminalState session.currentState = false)
      (turned : perform m (callTurn definition leaseOwnerId leaseTtl actorKind id session called) s =
        (.ok (moved, called'), s'))
      (rest : Walks k moved called' s' last s'') : Walks (k + 1) session called s last s''

end Walking

section Driving

variable {m : Setting} {definition : CeremonyDefinition} {leaseOwnerId : LeaseOwnerId}
  {leaseTtl : DurationMs} {actorKind : AuditActorKind} {id : CeremonyId} {s s' : Scene}
  {loaded : LoadedSession} {traces : List CeremonyStepTrace}

/-- A session in a terminal state has been completed. -/
def Ended (definition : CeremonyDefinition) (i : CeremonyInstance) : Prop :=
  definition.isTerminalState i.currentState = true → i.completedAt.isSome = true

theorem isCompleted_iff (h : Current definition id loaded s)
    (hended : Ended definition loaded.session) :
    loaded.session.isCompleted definition =
      definition.isTerminalState loaded.session.currentState := by
  have hfound := List.find?_some (okOr_eq_ok.mp h.resolves)
  have hmatches : loaded.session.matchesDefinition definition = true := by
    simp only [Bool.and_eq_true, decide_eq_true_eq] at hfound
    simp [CeremonyInstance.matchesDefinition, hfound]
  unfold CeremonyInstance.isCompleted CeremonyInstance.isTerminal
  rw [hmatches, Bool.true_and]
  cases hterminal : definition.isTerminalState loaded.session.currentState with
  | false => rfl
  | true => rw [hended hterminal, Bool.true_and]

theorem ended_of_effect {i i' : CeremonyInstance} {roleId : Option RoleId}
    {trigger : TransitionTrigger} {now : OffsetDateTime}
    (h : Effect definition i (.applyTransition roleId trigger now) i') :
    Ended definition i' ∧ i'.transitions.length = i.transitions.length + 1 := by
  cases h
  refine ⟨fun hterminal => ?_, List.length_append⟩
  simp only at hterminal ⊢
  rw [if_pos hterminal]
  rfl

theorem drive_turn {moved : CeremonyInstance} {called : Nat} (h : Current definition id loaded s)
    (hunderway : loaded.session.isCompleted definition = false)
    (hturn : perform m (callTurn definition leaseOwnerId leaseTtl actorKind id loaded.session
      traces.length) s = (.ok (moved, called), s')) :
    ∃ l traces', l.session = moved ∧ traces'.length = called ∧ Current definition id l s' ∧
      Ended definition l.session ∧
      l.session.transitions.length = loaded.session.transitions.length + 1 ∧ ∀ n,
        perform m (drive definition leaseOwnerId leaseTtl actorKind id (n + 1) loaded traces) s =
          perform m (drive definition leaseOwnerId leaseTtl actorKind id n l traces') s' := by
  obtain ⟨stepped, traces', v, l, hmoved, hlength, hsteps, hcurrent, hmove⟩ := callTurn_ok h hturn
  obtain ⟨-, hstays⟩ := current_runSteps h hsteps
  obtain ⟨hl, roleId, trigger, now, heffect⟩ := current_moveAlong hcurrent hmove
  obtain ⟨hended, hcount⟩ := ended_of_effect heffect
  rw [hstays.transitions] at hcount
  refine ⟨l, traces', hmoved, hlength, hl, hended, hcount, fun n => ?_⟩
  have hstill : stepped.session.isCompleted definition = false := by
    rw [hstays.isCompleted definition, hunderway]
  rw [drive, hunderway]
  simp only [Bool.false_eq_true, if_false]
  rw [perform_bind_ok hsteps]
  dsimp only
  rw [hstill]
  simp only [Bool.false_eq_true, if_false]
  rw [perform_bind_ok hmove]

/-- A driver with more rounds than the walk has moves completes the session, and one with no
more than that runs into its limit. -/
theorem drive_of_walks {k called : Nat} {session last : CeremonyInstance} {s'' : Scene}
    (hwalk : Walks m definition leaseOwnerId leaseTtl actorKind id k session called s last s'')
    (h : Current definition id loaded s) (hended : Ended definition loaded.session)
    (hsession : loaded.session = session) (hcalled : traces.length = called) (n : Nat) :
    (k < n → ∃ out,
      perform m (drive definition leaseOwnerId leaseTtl actorKind id n loaded traces) s =
        (.ok out, s'') ∧ out.session = last ∧ last.isCompleted definition = true) ∧
    (n ≤ k → ∃ v,
      perform m (drive definition leaseOwnerId leaseTtl actorKind id n loaded traces) s =
        (.error limitError, v)) := by
  induction hwalk generalizing loaded traces n with
  | done terminal =>
    subst hsession
    have hcompleted := (isCompleted_iff h hended).trans terminal
    cases n with
    | zero => exact ⟨fun hlt => absurd hlt (Nat.not_lt_zero 0), fun _ => ⟨_, rfl⟩⟩
    | succ n =>
      refine ⟨fun _ => ⟨⟨definition, loaded.session, traces⟩, ?_, rfl, hcompleted⟩, fun hle => ?_⟩
      · rw [drive, if_pos hcompleted, perform_bind_ok perform_lap, perform_pure]
      · omega
  | turn underway turned _ ih =>
    subst hsession hcalled
    have hunderway := (isCompleted_iff h hended).trans underway
    obtain ⟨l, traces', hmoved, hlength, hcurrent, hended', -, hdrive⟩ :=
      drive_turn h hunderway turned
    cases n with
    | zero => exact ⟨fun hlt => absurd hlt (Nat.not_lt_zero _), fun _ => ⟨_, rfl⟩⟩
    | succ n =>
      rw [hdrive n]
      obtain ⟨henough, hshort⟩ := ih hcurrent hended' hmoved hlength n
      exact ⟨fun hlt => henough (by omega), fun hle => hshort (by omega)⟩

theorem ended_start (context : CeremonyContext) (now : OffsetDateTime) :
    Ended definition (CeremonyInstance.start id definition context now) := by
  intro hterminal
  have hinitial := definition.initialStateId_not_terminal
  rw [show definition.isTerminalState definition.initialStateId = true from hterminal] at hinitial
  simp at hinitial

theorem started {context : CeremonyContext} {actorId : String} {session : CeremonyInstance}
    (hstart : perform m (callStart definition actorKind id context actorId) s =
      (.ok session, s')) :
    ∃ l, perform m (openFresh definition actorKind id context actorId) (mounted definition s) =
        (.ok l, s') ∧
      l.session = session ∧ Current definition id l s' ∧ Ended definition l.session := by
  rw [perform_callStart] at hstart
  obtain ⟨l, v, hopen, hdone⟩ := perform_bind_eq_ok.mp hstart
  obtain ⟨hsession, rfl⟩ := Prod.mk.inj hdone
  obtain ⟨hcurrent, now, hl⟩ := current_openFresh hopen
  refine ⟨l, hopen, Except.ok.inj hsession, hcurrent, ?_⟩
  rw [hl]
  exact ended_start context now

/-- Where the client gets to in so many turns, it gets to by a walk, and each of its moves is on
record. -/
theorem walks_of_callTurns {last : CeremonyInstance} {s'' : Scene} (n : Nat)
    (h : Current definition id loaded s) (hended : Ended definition loaded.session)
    (hturns : perform m (callTurns definition leaseOwnerId leaseTtl actorKind id n loaded.session
      traces.length) s = (.ok last, s'')) :
    ∃ k, Walks m definition leaseOwnerId leaseTtl actorKind id k loaded.session traces.length s last
        s'' ∧ last.transitions.length = loaded.session.transitions.length + k := by
  induction n generalizing loaded traces s with
  | zero => simp [callTurns] at hturns
  | succ n ih =>
    have hcompleted := isCompleted_iff h hended
    rw [callTurns, hcompleted] at hturns
    cases hterminal : definition.isTerminalState loaded.session.currentState with
    | true =>
      rw [hterminal, if_pos rfl, perform_pure] at hturns
      obtain ⟨hlast, rfl⟩ := Prod.mk.inj hturns
      rw [← Except.ok.inj hlast]
      exact ⟨0, .done hterminal, rfl⟩
    | false =>
      rw [hterminal] at hturns
      simp only [Bool.false_eq_true, if_false] at hturns
      obtain ⟨⟨moved, called⟩, v, hturn, hrest⟩ := perform_bind_eq_ok.mp hturns
      obtain ⟨l, traces', rfl, rfl, hcurrent, hended', hcount, -⟩ :=
        drive_turn h (hcompleted.trans hterminal) hturn
      obtain ⟨k, hwalk, hlength⟩ := ih hcurrent hended' hrest
      exact ⟨k + 1, .turn hterminal hturn hwalk, by omega⟩

theorem walks_of_transitions {context : CeremonyContext} {actorId : String} {n k : Nat}
    (hall : ((perform m (callStart definition actorKind id context actorId >>= fun session =>
      callTurns definition leaseOwnerId leaseTtl actorKind id n session 0) s).1.toOption.map
        fun session => session.transitions.length) = some k) :
    ∃ session s₁ last s₂,
      perform m (callStart definition actorKind id context actorId) s = (.ok session, s₁) ∧
      Walks m definition leaseOwnerId leaseTtl actorKind id k session 0 s₁ last s₂ := by
  rcases hresult : perform m (callStart definition actorKind id context actorId >>= fun session =>
    callTurns definition leaseOwnerId leaseTtl actorKind id n session 0) s with ⟨e | last, s₂⟩
  · rw [hresult] at hall
    simp [Except.toOption] at hall
  · rw [hresult] at hall
    obtain ⟨session, s₁, hstart, hturns⟩ := perform_bind_eq_ok.mp hresult
    obtain ⟨l, hopen, rfl, hcurrent, hended⟩ := started hstart
    obtain ⟨j, hwalk, hlength⟩ := @walks_of_callTurns m definition leaseOwnerId leaseTtl actorKind id
      s₁ l [] last s₂ n hcurrent hended hturns
    obtain ⟨-, now, hl⟩ := current_openFresh hopen
    have hnone : l.session.transitions.length = 0 := by
      rw [hl]
      rfl
    have hsome : last.transitions.length = k := Option.some.inj hall
    obtain rfl : j = k := by omega
    exact ⟨l.session, s₁, last, s₂, hstart, hwalk⟩

end Driving

/-- The driver completes a ceremony that finishes in as many moves as the definition has states
and transitions or fewer, and cuts off one that takes more. -/
theorem safety_limit_exact (m : Setting) (definition : CeremonyDefinition)
    (leaseOwnerId : LeaseOwnerId) (leaseTtl : DurationMs) (actorKind : AuditActorKind)
    (id : CeremonyId) (context : CeremonyContext) (actorId : String) (s : Scene)
    (hfresh : s.world.store.get id = .error (.notFound "ceremony_instance"))
    (session : CeremonyInstance) (s₁ : Scene)
    (hstart : perform m (callStart definition actorKind id context actorId) s = (.ok session, s₁))
    (k : Nat) (last : CeremonyInstance) (s₂ : Scene)
    (hwalk : Walks m definition leaseOwnerId leaseTtl actorKind id k session 0 s₁ last s₂) :
    (k ≤ definition.states.size + definition.transitions.length → ∃ out,
      perform m (runCeremony definition leaseOwnerId leaseTtl actorKind id context actorId) s =
        (.ok out, s₂) ∧ out.session = last ∧ last.isCompleted definition = true) ∧
    (definition.states.size + definition.transitions.length < k → ∃ s',
      perform m (runCeremony definition leaseOwnerId leaseTtl actorKind id context actorId) s =
        (.error limitError, s')) := by
  obtain ⟨loaded, hopen, hsession, hcurrent, hended⟩ := started hstart
  rw [perform_runCeremony hfresh, perform_bind_ok hopen]
  obtain ⟨henough, hshort⟩ := drive_of_walks hwalk hcurrent hended hsession List.length_nil
    (definition.states.size + definition.transitions.length + 1)
  exact ⟨fun hle => henough (by omega), fun hlt => hshort (by omega)⟩

section Errands

open Choreographer.Fencing

theorem reviewing_walked :
    ((perform agreeable (callStart reviewing .service sessionId CeremonyContext.empty "op" >>=
      fun session => callTurns reviewing clerk millisecond .service sessionId 2 session 0)
      blank).1.toOption.map fun session => session.transitions.length) = some 1 := by
  decide +kernel

/-- One move, and the driver completes it. -/
theorem safety_limit_exact_reviewing : ∃ out s₂,
    perform agreeable (runCeremony reviewing clerk millisecond .service sessionId
      CeremonyContext.empty "op") blank = (.ok out, s₂) ∧
    out.session.isCompleted reviewing = true := by
  obtain ⟨session, s₁, last, s₂, hstart, hwalk⟩ := walks_of_transitions reviewing_walked
  obtain ⟨out, hrun, rfl, hcompleted⟩ := (safety_limit_exact agreeable reviewing clerk millisecond
    .service sessionId CeremonyContext.empty "op" blank rfl session s₁ hstart 1 last s₂ hwalk).1
    (by decide)
  exact ⟨out, s₂, hrun, hcompleted⟩

def desk : StateId := ⟨"desk", by decide⟩
def attic : StateId := ⟨"attic", by decide⟩
def barn : StateId := ⟨"barn", by decide⟩
def cellar : StateId := ⟨"cellar", by decide⟩
def hall : StateId := ⟨"hall", by decide⟩
def stairs : StateId := ⟨"stairs", by decide⟩
def yard : StateId := ⟨"yard", by decide⟩
def home : StateId := ⟨"home", by decide⟩

def sweepAttic : StepId := ⟨"sweep_attic", by decide⟩
def sweepBarn : StepId := ⟨"sweep_barn", by decide⟩
def sweepCellar : StepId := ⟨"sweep_cellar", by decide⟩

def atticSwept : GuardName := ⟨"attic_swept", by decide⟩
def barnSwept : GuardName := ⟨"barn_swept", by decide⟩
def cellarSwept : GuardName := ⟨"cellar_swept", by decide⟩

def toAttic : TransitionTrigger := ⟨"to_attic", by decide⟩
def toBarn : TransitionTrigger := ⟨"to_barn", by decide⟩
def toCellar : TransitionTrigger := ⟨"to_cellar", by decide⟩
def goHome : TransitionTrigger := ⟨"go_home", by decide⟩
def goOn : TransitionTrigger := ⟨"go_on", by decide⟩

def sweeper : RoleId := ⟨"sweeper", by decide⟩

def sweep (stepId : StepId) (stateId : StateId) : CeremonyStep :=
  ⟨stepId, stateId, ⟨"broom", by decide⟩, Attributes.empty, ⟨⟨4, by decide⟩, DurationMs.zero⟩, none⟩

/-- Three rooms to sweep, one after the other. After each the way back to the desk, to hear where
to go next, leads through the rooms before it and then by the hall, the stairs and the yard. -/
def errands? : Except DomainError CeremonyDefinition :=
  CeremonyDefinition.new ⟨"errands", by decide⟩ versionOne none [] []
    [⟨desk, .initial⟩, ⟨attic, .intermediate⟩, ⟨barn, .intermediate⟩, ⟨cellar, .intermediate⟩,
      ⟨hall, .intermediate⟩, ⟨stairs, .intermediate⟩, ⟨yard, .intermediate⟩, ⟨home, .terminal⟩]
    [⟨desk, home, goHome, OrdSet.ofList [cellarSwept]⟩,
      ⟨desk, cellar, toCellar, OrdSet.ofList [barnSwept]⟩,
      ⟨desk, barn, toBarn, OrdSet.ofList [atticSwept]⟩, ⟨desk, attic, toAttic, OrdMap.empty⟩,
      ⟨cellar, barn, goOn, OrdMap.empty⟩, ⟨barn, attic, goOn, OrdMap.empty⟩,
      ⟨attic, hall, goOn, OrdMap.empty⟩, ⟨hall, stairs, goOn, OrdMap.empty⟩,
      ⟨stairs, yard, goOn, OrdMap.empty⟩, ⟨yard, desk, goOn, OrdMap.empty⟩]
    [sweep sweepAttic attic, sweep sweepBarn barn, sweep sweepCellar cellar]
    [⟨atticSwept, .stepStatus sweepAttic .completed⟩, ⟨barnSwept, .stepStatus sweepBarn .completed⟩,
      ⟨cellarSwept, .stepStatus sweepCellar .completed⟩]
    [⟨sweeper, OrdSet.ofList [.step sweepAttic, .step sweepBarn, .step sweepCellar,
      .transition toAttic, .transition toBarn, .transition toCellar, .transition goHome,
      .transition goOn], by decide⟩]

theorem errands_accepted : errands?.toOption.isSome = true := by decide +kernel

def errands : CeremonyDefinition := errands?.toOption.get errands_accepted

theorem errands_size : errands.states.size = 8 ∧ errands.transitions.length = 10 := by
  decide +kernel

theorem errands_walked :
    ((perform agreeable (callStart errands .service sessionId CeremonyContext.empty "op" >>=
      fun session => callTurns errands clerk millisecond .service sessionId 20 session 0)
      blank).1.toOption.map fun session => session.transitions.length) = some 19 := by
  decide +kernel

/-- The errands finish, and the driver does not. -/
theorem limit_cuts_off : ¬ ∀ (m : Setting) (definition : CeremonyDefinition)
    (leaseOwnerId : LeaseOwnerId) (leaseTtl : DurationMs) (actorKind : AuditActorKind)
    (id : CeremonyId) (context : CeremonyContext) (actorId : String) (s : Scene),
    (∀ s request, ∃ result, m.handler s request = .ok result ∧ result.status.isSuccess = true) →
    s.world.store.get id = .error (.notFound "ceremony_instance") →
    ∀ session s₁,
      perform m (callStart definition actorKind id context actorId) s = (.ok session, s₁) →
      ∀ k last s₂,
        Walks m definition leaseOwnerId leaseTtl actorKind id k session 0 s₁ last s₂ →
        ∃ out s', perform m (runCeremony definition leaseOwnerId leaseTtl actorKind id context
          actorId) s = (.ok out, s') ∧ out.session.isCompleted definition = true := by
  intro h
  obtain ⟨session, s₁, last, s₂, hstart, hwalk⟩ := walks_of_transitions errands_walked
  have hfresh : blank.world.store.get sessionId = .error (.notFound "ceremony_instance") := rfl
  obtain ⟨out, s', hrun, -⟩ := h agreeable errands clerk millisecond .service sessionId
    CeremonyContext.empty "op" blank (fun _ _ => ⟨agreed, rfl, rfl⟩) hfresh session s₁ hstart 19 last
    s₂ hwalk
  obtain ⟨loaded, hopen, hsession, hcurrent, hended⟩ := started hstart
  obtain ⟨-, hshort⟩ := drive_of_walks hwalk hcurrent hended hsession List.length_nil
    (errands.states.size + errands.transitions.length + 1)
  obtain ⟨hstates, htransitions⟩ := errands_size
  obtain ⟨v, hlimit⟩ := hshort (by omega)
  rw [perform_runCeremony hfresh, perform_bind_ok hopen, hlimit] at hrun
  simp at hrun

end Errands

end Choreographer.SafetyLimit
