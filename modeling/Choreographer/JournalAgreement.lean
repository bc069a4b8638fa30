import Choreographer.ReasonGraph
import Choreographer.TamperEvidence
import Choreographer.UseCaseRuns

namespace Choreographer.JournalAgreement

open Choreographer.Lib.SortedMaps Choreographer.Lib.Updates Choreographer.Lib.Programs
open Choreographer.Texts Choreographer.Values Choreographer.Steps Choreographer.DefinitionParts
open Choreographer.Definition Choreographer.Agenda Choreographer.Instance Choreographer.Operations
open Choreographer.Audit Choreographer.InMemory Choreographer.SessionJournal
open Choreographer.SessionFacts Choreographer.SessionLog Choreographer.UseCases
open Choreographer.Histories Choreographer.UseCaseRuns

variable {env : Rendering} {d : CeremonyDefinition} {i i' : CeremonyInstance} {act : Act}
  {facts : List AuditFact}

/-- What both the journal and the session keep count of. -/
inductive Counter
  | moves
  | approvals
  | deferrals
  | requests
  | responses
  | closures
  | assertions
  | starts
  | completions

namespace Counter

def eventType : Counter → AuditEventType
  | .moves => .transitionApplied
  | .approvals => .humanApprovalRecorded
  | .deferrals => .humanDeferralRecorded
  | .requests => .interventionRequested
  | .responses => .interventionResponded
  | .closures => .interventionClosed
  | .assertions => .reasonAsserted
  | .starts => .stepStarted
  | .completions => .stepCompleted

def amount : Counter → CeremonyInstance → Nat
  | .moves, i => i.transitions.length
  | .approvals, i => i.guardApprovals.length
  | .deferrals, i => i.guardDeferrals.length
  | .requests, i => i.interventions.length
  | .responses, i => (i.interventions.map fun item => item.responses.length).sum
  | .closures, i => i.interventions.countP fun item => item.status = .closed
  | .assertions, i => i.reasons.countP fun reason => reason.assertedBy.isSome
  | .starts, i => i.idempotencyKeys.size
  | .completions, i => i.stepRecords.values.countP fun record => record.status = .completed

end Counter

def tally (eventType : AuditEventType) (facts : List AuditFact) : Nat :=
  (facts.map AuditFact.eventType).count eventType

theorem tally_append (eventType : AuditEventType) (facts more : List AuditFact) :
    tally eventType (facts ++ more) = tally eventType facts + tally eventType more := by
  simp [tally]

theorem amount_item {before after : List CeremonyIntervention} {item item' : CeremonyIntervention}
    (hitem : i.interventions = before ++ item :: after) (h : item'.status = item.status) :
    (before ++ item' :: after).length = i.interventions.length ∧
      ((before ++ item' :: after).map fun item => item.responses.length).sum +
          item.responses.length =
        (i.interventions.map fun item => item.responses.length).sum + item'.responses.length ∧
      (before ++ item' :: after).countP (fun item => item.status = .closed) =
        i.interventions.countP fun item => item.status = .closed := by
  rw [hitem]
  refine ⟨by simp, ?_, by simp [List.countP_cons, h]⟩
  simp only [List.map_append, List.map_cons, List.sum_append, List.sum_cons]
  omega

theorem answersReason_unasserted (interventionId : CeremonyInterventionId) (now : OffsetDateTime) :
    (i.answersReason interventionId now).toList.countP (fun reason => reason.assertedBy.isSome) =
      0 := by
  rw [List.countP_eq_zero]
  intro reason hr
  obtain ⟨_, _, _, _, hanswering⟩ := ReasonGraph.answersReason_spec (Option.mem_toList.mp hr)
  simp [hanswering.nobody]

theorem counts_answered {interventionId : CeremonyInterventionId} {now : OffsetDateTime}
    {before after : List CeremonyIntervention} {item item' : CeremonyIntervention}
    (hitem : i.interventions = before ++ item :: after) (hstatus : item'.status = item.status)
    (hone : item'.responses.length = item.responses.length + 1) (k : Counter) :
    k.amount (answered interventionId now i before after item') =
      k.amount i + [AuditEventType.interventionResponded].count k.eventType := by
  obtain ⟨hlength, hsum, hclosed⟩ := amount_item hitem hstatus
  cases k with
  | requests => exact hlength
  | responses =>
    change ((before ++ item' :: after).map fun item => item.responses.length).sum =
      (i.interventions.map fun item => item.responses.length).sum + 1
    omega
  | closures => exact hclosed
  | assertions =>
    change (i.reasons ++ _).countP _ = _
    rw [List.countP_append, answersReason_unasserted]
    rfl
  | _ => rfl

theorem counts_startStep {roleId : Option RoleId} {stepId : StepId} {lease : StepLease}
    {now : OffsetDateTime} (effect : Effect d i (.startStep roleId stepId lease now) i')
    (k : Counter) : k.amount i' = k.amount i + [AuditEventType.stepStarted].count k.eventType := by
  cases effect with
  | @startStep _ _ _ _ _ record attempt _ _ _ _ hrecord startable _ _ fresh =>
    cases k with
    | starts => exact OrdMap.size_insert_of_not_contains fresh ()
    | completions =>
      have hcount := OrdMap.countP_values_insert hrecord (record.withStarted lease attempt)
        fun record => decide (record.status = .completed)
      have hrunning : record.status ≠ .completed := by
        intro hs
        simp [StepExecutionRecord.canBeStartedAt, hs, StepStatus.isExecutable] at startable
      simpa [StepExecutionRecord.withStarted, hrunning, Counter.amount, Counter.eventType] using hcount
    | _ => rfl

theorem counts_applyStepResult {stepId : StepId} {result : StepResult} {now : OffsetDateTime}
    (effect : Effect d i (.applyStepResult stepId result now) i') (k : Counter) :
    k.amount i' = k.amount i + [ending result].count k.eventType := by
  cases effect with
  | @applyStepResult _ _ _ _ record _ _ _ hrecord executing =>
    cases k with
    | completions =>
      have hcount := OrdMap.countP_values_insert hrecord (record.withResult result)
        fun record => decide (record.status = .completed)
      have hrunning : record.status ≠ .completed := by simp [executing]
      by_cases hs : result.status = .completed
      · simpa [StepExecutionRecord.withResult, hrunning, hs, Counter.amount, Counter.eventType,
          ending, StepStatus.isSuccess] using hcount
      · simpa [StepExecutionRecord.withResult, hrunning, hs, Counter.amount, Counter.eventType,
          ending, StepStatus.isSuccess] using hcount
    | _ =>
      unfold ending
      split <;> rfl

theorem counts_did (h : Did d (some i) act i' facts) (k : Counter) :
    k.amount i' = k.amount i + tally k.eventType facts := by
  cases h with
  | startedStep effect hrecord numbered told =>
    rw [tally, List.map_singleton, told.happened]
    exact counts_startStep effect k
  | finishedStep effect readBack told =>
    rw [tally, List.map_singleton, told.happened]
    exact counts_applyStepResult effect k
  | movedOn effect goesOn told =>
    rw [tally, List.map_singleton, told.happened]
    cases effect
    cases k with
    | moves => exact List.length_append
    | _ => rfl
  | movedToEnd effect ends told toldEnd =>
    rw [tally, List.map_cons, List.map_singleton, told.happened, toldEnd.happened]
    cases effect
    cases k with
    | moves => exact List.length_append
    | _ => rfl
  | approvedGuard effect told =>
    rw [tally, List.map_singleton, told.happened]
    cases effect
    cases k with
    | approvals => exact List.length_append
    | _ => rfl
  | deferredGuard effect told =>
    rw [tally, List.map_singleton, told.happened]
    cases effect
    cases k with
    | deferrals => exact List.length_append
    | _ => rfl
  | seated seats matching told =>
    rw [tally, List.map_singleton, told.happened]
    cases k <;> rfl
  | requested effect told =>
    rw [tally, List.map_singleton, told.happened]
    cases effect
    cases k with
    | requests => exact List.length_append
    | responses => simp [Counter.amount, CeremonyIntervention.openWithProvenance, Counter.eventType]
    | closures => simp [Counter.amount, CeremonyIntervention.openWithProvenance, Counter.eventType]
    | _ => rfl
  | responded effect told =>
    rw [tally, List.map_singleton, told.happened]
    cases effect with
    | respond _ _ hitem =>
      refine counts_answered hitem ?_ ?_ k
      · rfl
      · exact List.length_append
  | collected effect sourced told toldAnswer =>
    rw [tally, List.map_cons, List.map_singleton, told.happened, toldAnswer.happened]
    cases effect with
    | respondWithEvidence _ _ hitem =>
      refine (counts_answered hitem ?_ ?_ k).trans ?_
      · rfl
      · exact List.length_append
      · cases k <;> rfl
  | closed effect told =>
    rw [tally, List.map_singleton, told.happened]
    cases effect with
    | closeIntervention _ _ hitem _ _ isOpen =>
      cases k with
      | requests | responses => simp [Counter.amount, hitem, Counter.eventType]
      | closures => simp [Counter.amount, hitem, isOpen, Counter.eventType, Nat.add_assoc]
      | _ => rfl
  | asserted effect told =>
    rw [tally, List.map_singleton, told.happened]
    cases effect with
    | assertReason _ _ _ _ _ hreason =>
      cases k with
      | assertions => simp [Counter.amount, CeremonyReason.new_ok hreason, Counter.eventType]
      | _ => rfl

theorem unstarted_did (h : Did d (some i) act i' facts) :
    ∀ f ∈ facts, f.eventType ≠ .ceremonyInstanceStarted := by
  intro f hf
  cases h with
  | movedToEnd effect ends told toldEnd =>
    rcases List.mem_pair.mp hf with rfl | rfl
    · simp [told.happened]
    · simp [toldEnd.happened]
  | collected effect sourced told toldAnswer =>
    rcases List.mem_pair.mp hf with rfl | rfl
    · simp [told.happened]
    · simp [toldAnswer.happened]
  | finishedStep effect readBack told =>
    rw [List.mem_singleton.mp hf, told.happened, ending]
    split <;> simp
  | startedStep effect hrecord numbered told => simp [List.mem_singleton.mp hf, told.happened]
  | movedOn effect goesOn told => simp [List.mem_singleton.mp hf, told.happened]
  | seated seats matching told => simp [List.mem_singleton.mp hf, told.happened]
  | approvedGuard effect told | deferredGuard effect told | requested effect told
  | responded effect told | closed effect told | asserted effect told =>
    simp [List.mem_singleton.mp hf, told.happened]

theorem completed_did (h : Did d (some i) act i' facts) :
    (i'.completedAt = i.completedAt ∧ tally .ceremonyCompleted facts = 0 ∧
        (i'.currentState = i.currentState ∨ d.isTerminalState i.currentState = false)) ∨
      (d.isTerminalState i.currentState = false ∧ d.isTerminalState i'.currentState = true ∧
        i'.completedAt.isSome = true ∧ tally .ceremonyCompleted facts = 1) := by
  cases h with
  | movedToEnd effect ends told toldEnd =>
    rw [tally, List.map_cons, List.map_singleton, told.happened, toldEnd.happened]
    cases effect with
    | applyTransition active =>
      have ends : d.isTerminalState _ = true := ends
      exact .inr ⟨active.running, ends, by simp [ends], rfl⟩
  | movedOn effect goesOn told =>
    rw [tally, List.map_singleton, told.happened]
    cases effect with
    | applyTransition active =>
      have goesOn : d.isTerminalState _ = false := goesOn
      exact .inl ⟨by simp [goesOn], rfl, .inr active.running⟩
  | collected effect sourced told toldAnswer =>
    rw [tally, List.map_cons, List.map_singleton, told.happened, toldAnswer.happened]
    cases effect
    exact .inl ⟨rfl, rfl, .inl rfl⟩
  | finishedStep effect readBack told =>
    rw [tally, List.map_singleton, told.happened, ending]
    cases effect
    refine .inl ⟨rfl, ?_, .inl rfl⟩
    split <;> rfl
  | startedStep effect hrecord numbered told =>
    rw [tally, List.map_singleton, told.happened]
    cases effect
    exact .inl ⟨rfl, rfl, .inl rfl⟩
  | seated seats matching told =>
    rw [tally, List.map_singleton, told.happened]
    exact .inl ⟨rfl, rfl, .inl rfl⟩
  | approvedGuard effect told | deferredGuard effect told | requested effect told
  | responded effect told | closed effect told | asserted effect told =>
    rw [tally, List.map_singleton, told.happened]
    cases effect
    exact .inl ⟨rfl, rfl, .inl rfl⟩

section Story

variable {hist : List (Entry Deed)} {session : Option CeremonyInstance}
  {journal : List AuditRecord}

theorem opened_did (h : Did d none act i facts) :
    (∃ f, facts = [f] ∧ f.eventType = .ceremonyInstanceStarted) ∧ i.completedAt = none ∧
      ∀ k : Counter, k.amount i = 0 := by
  cases h with
  | @opened id context now bound f told =>
    refine ⟨⟨f, rfl, told.happened⟩, rfl, fun k => ?_⟩
    cases k with
    | completions =>
      refine List.countP_eq_zero.mpr fun record hr => ?_
      obtain ⟨stepId, hget⟩ := OrdMap.mem_values.mp hr
      rw [CeremonyInstance.opened, OrdMap.get?_ofList_const] at hget
      split at hget
      · obtain rfl := Option.some.inj hget
        simp [StepExecutionRecord.pending]
      · simp at hget
    | _ => rfl

theorem story_counts (h : Story env hist (some i) journal) (k : Counter) :
    tally k.eventType (told hist) = k.amount i := by
  induction h using story_induction with
  | opened did =>
    obtain ⟨⟨f, hfacts, hf⟩, -, hamount⟩ := opened_did did
    rw [hamount k, told_singleton, hfacts, tally, List.map_singleton, hf]
    cases k <;> rfl
  | next prior did granted based hsealed ih => rw [told_concat, tally_append, ih, counts_did did k]

theorem story_opening (h : Story env hist (some i) journal) :
    ∃ f rest, told hist = f :: rest ∧ f.eventType = .ceremonyInstanceStarted ∧
      ∀ g ∈ rest, g.eventType ≠ .ceremonyInstanceStarted := by
  induction h using story_induction with
  | opened did =>
    obtain ⟨⟨f, hfacts, hf⟩, -, -⟩ := opened_did did
    exact ⟨f, [], by rw [told_singleton, hfacts], hf, by simp⟩
  | @next hist i journal sealed e prior did granted based hsealed ih =>
    obtain ⟨f, rest, htold, hf, hrest⟩ := ih
    refine ⟨f, rest ++ e.facts, by rw [told_concat, htold]; rfl, hf, fun g hg => ?_⟩
    rcases List.mem_append.mp hg with hg | hg
    · exact hrest g hg
    · exact unstarted_did did g hg

theorem story_completed (h : Story env hist (some i) journal) :
    0 < tally .ceremonyCompleted (told hist) ↔ i.completedAt.isSome = true := by
  induction h using story_induction with
  | opened did =>
    obtain ⟨⟨f, hfacts, hf⟩, hnone, -⟩ := opened_did did
    simp [tally, told_singleton, hfacts, hf, hnone]
  | next prior did granted based hsealed ih =>
    rw [told_concat, tally_append]
    rcases completed_did did with ⟨hsame, hnone, -⟩ | ⟨-, -, hset, hone⟩
    · rw [hnone, hsame]
      exact ih
    · simp [hone, hset]

theorem story_completed_once (h : Story env hist (some i) journal)
    (hd : ∀ e ∈ hist, e.note.definition = d) :
    tally .ceremonyCompleted (told hist) ≤ 1 ∧
      (0 < tally .ceremonyCompleted (told hist) → d.isTerminalState i.currentState = true) := by
  induction h using story_induction with
  | opened did =>
    obtain ⟨⟨f, hfacts, hf⟩, -, -⟩ := opened_did did
    simp [tally, told_singleton, hfacts, hf]
  | @next hist i journal sealed e prior did granted based hsealed ih =>
    rw [told_concat, tally_append]
    obtain ⟨hle, hterminal⟩ := ih fun e he => hd e (List.mem_append_left _ he)
    rw [hd e (by simp)] at did
    rcases completed_did did with ⟨-, hnone, hstays | hrunning⟩ | ⟨hrunning, hends, -, hone⟩
    · rw [hnone, hstays]
      exact ⟨hle, hterminal⟩
    · rw [hnone]
      refine ⟨hle, fun hpos => ?_⟩
      simp [hterminal hpos] at hrunning
    · have hzero : tally .ceremonyCompleted (told hist) = 0 := by
        by_contra hne
        simp [hterminal (Nat.pos_of_ne_zero hne)] at hrunning
      rw [hzero, hone]
      exact ⟨le_rfl, fun _ => hends⟩

end Story

/-- There is one definition behind a session: the published one it is bound to,
or the only one that was ever saved under its name and version. -/
def Settled (w : World Deed) (i : CeremonyInstance) : Prop :=
  i.boundDefinition ≠ none ∨ ∀ d ∈ w.definitions, ∀ d' ∈ w.definitions,
    i.matchesDefinition d = true → i.matchesDefinition d' = true → d = d'

theorem resolved_unique {w : World Deed} {s s' : CeremonyInstance} {d' : CeremonyDefinition}
    (hw : Settled w i) (hs : ident s = ident i) (hs' : ident s' = ident i)
    (hd : Resolved s d w) (hd' : Resolved s' d' w) (hm : s.matchesDefinition d = true)
    (hm' : s'.matchesDefinition d' = true) : d = d' := by
  replace hd := resolved_of_ident hs.symm hd
  replace hd' := resolved_of_ident hs'.symm hd'
  rw [matches_of_ident hs] at hm
  rw [matches_of_ident hs'] at hm'
  cases hbound : i.boundDefinition with
  | none =>
    rw [Resolved, hbound] at hd hd'
    exact (hw.resolve_left (by simp [hbound])) d hd d' hd' hm hm'
  | some digest =>
    rw [Resolved, hbound] at hd hd'
    obtain ⟨p, hp, -, rfl⟩ := hd
    obtain ⟨q, hq, -, rfl⟩ := hd'
    rw [hp] at hq
    rw [Option.some.inj hq]

def occurrences (eventType : AuditEventType) (journal : List AuditRecord) : Nat :=
  (journal.map AuditRecord.eventType).count eventType

/-- The journal and the session tell the same story. -/
structure SameStory (env : Rendering) (w : World Deed) (i : CeremonyInstance)
    (journal : List AuditRecord) : Prop where
  intact : AuditChain.verify env journal = .intact
  opening : ∃ first rest, journal = first :: rest ∧
    first.eventType = .ceremonyInstanceStarted ∧
    ∀ r ∈ rest, r.eventType ≠ .ceremonyInstanceStarted
  counted : ∀ k : Counter, occurrences k.eventType journal = k.amount i
  completed : 0 < occurrences .ceremonyCompleted journal ↔ i.completedAt.isSome = true
  once : Settled w i → occurrences .ceremonyCompleted journal ≤ 1

theorem journal_tells_session (env : Rendering) (c : Config (calls Deed) (World Deed))
    (h : Runs env c) (id : CeremonyId)
    (hfew : (landings c.world.log id).length < 2 ^ 64 - 1) :
    ((c.world.store.stored id).session = none ∧ (c.world.store.stored id).journal = []) ∨
      ∃ i, (c.world.store.stored id).session = some i ∧
        SameStory env c.world i (c.world.store.stored id).journal := by
  have hinv := inv_of_runs h
  have hstory := story_of_inv hinv (List.append_nil c.world.log).symm hfew.le
  obtain ⟨hstored, -, hlawful⟩ := hinv
  rw [← hstored id] at hstory
  generalize (c.world.store.stored id).journal = journal at hstory
  cases hsession : (c.world.store.stored id).session with
  | none =>
    rw [hsession] at hstory
    exact .inl ⟨rfl, (story_blank hstory).2⟩
  | some i =>
    rw [hsession] at hstory
    have htypes := story_eventTypes hstory
    have htally (ty : AuditEventType) : occurrences ty journal =
        tally ty (told (landings c.world.log id)) := by
      rw [occurrences, htypes, tally]
    refine .inr ⟨i, rfl, story_intact hstory, ?_, fun k => ?_, ?_, fun hsettled => ?_⟩
    · obtain ⟨f, rest, htold, hf, hrest⟩ := story_opening hstory
      rw [htold, List.map_cons, List.map_eq_cons_iff] at htypes
      obtain ⟨first, others, rfl, hfirst, hothers⟩ := htypes
      refine ⟨first, others, rfl, hfirst.trans hf, fun r hr he => ?_⟩
      have hmem : AuditEventType.ceremonyInstanceStarted ∈ rest.map AuditFact.eventType := by
        rw [← hothers, ← he]
        exact List.mem_map_of_mem hr
      obtain ⟨g, hg, hge⟩ := List.mem_map.mp hmem
      exact hrest g hg hge
    · rw [htally, story_counts hstory]
    · rw [htally, story_completed hstory]
    · have hrule (e : Entry Deed) (he : e ∈ landings c.world.log id) :
          Resolved e.loaded.session e.note.definition c.world ∧
            e.loaded.session.matchesDefinition e.note.definition = true := by
        obtain ⟨hmem, hl, -⟩ := mem_landings.mp he
        obtain ⟨earlier, later, hlog⟩ := List.append_of_mem hmem
        obtain ⟨did, hresolved, -⟩ := hlawful earlier e later hlog hl
        exact ⟨hresolved, did.matching⟩
      have hident := story_ident hstory
      rw [htally]
      cases hlandings : landings c.world.log id with
      | nil => exact Nat.zero_le 1
      | cons first rest =>
        rw [hlandings] at hstory hrule hident
        have hone (e : Entry Deed) (he : e ∈ first :: rest) :
            e.note.definition = first.note.definition := by
          obtain ⟨hresolved, hmatching⟩ := hrule e he
          obtain ⟨hresolved', hmatching'⟩ := hrule first List.mem_cons_self
          exact resolved_unique hsettled (hident e he) (hident first List.mem_cons_self) hresolved
            hresolved' hmatching hmatching'
        exact (story_completed_once hstory hone).1

section Refiled

def drafted : StateId := ⟨"drafted", by decide⟩
def filed : StateId := ⟨"filed", by decide⟩
def archived : StateId := ⟨"archived", by decide⟩
def file : TransitionTrigger := ⟨"file", by decide⟩
def archive : TransitionTrigger := ⟨"archive", by decide⟩
def clerk : RoleId := ⟨"clerk", by decide⟩

def filing : CeremonyDefinition :=
  (CeremonyDefinition.new ⟨"filing", by decide⟩ versionOne none [] []
    [⟨drafted, .initial⟩, ⟨filed, .terminal⟩] [⟨drafted, filed, file, OrdMap.empty⟩]
    [] [] [⟨clerk, OrdSet.ofList [.transition file], by decide⟩]).toOption.get rfl

def refiling : CeremonyDefinition :=
  (CeremonyDefinition.new ⟨"filing", by decide⟩ versionOne none [] []
    [⟨drafted, .initial⟩, ⟨filed, .intermediate⟩, ⟨archived, .terminal⟩]
    [⟨drafted, filed, file, OrdMap.empty⟩, ⟨filed, archived, archive, OrdMap.empty⟩]
    [] [] [⟨clerk, OrdSet.ofList [.transition file, .transition archive], by decide⟩]).toOption.get
    (by decide +kernel)

def firstId : CeremonyId := ⟨"f1", by decide⟩
def secondId : CeremonyId := ⟨"f2", by decide⟩
def owner : LeaseOwnerId := ⟨"owner", by decide⟩
def epoch : OffsetDateTime := ⟨0, 0⟩

/-- A filing ends, somebody runs another one by the changed definition, and the
first one is moved on by it to its second end. -/
theorem refiled_runs : ∃ c i, Runs TamperEvidence.table c ∧
    (landings c.world.log firstId).length = 3 ∧
    (c.world.store.stored firstId).session = some i ∧ i.completedAt.isSome = true ∧
    occurrences .ceremonyCompleted (c.world.store.stored firstId).journal = 2 := by
  have h₀ : Runs TamperEvidence.table ⟨World.empty, []⟩ := .refl
  have h₁ := h₀.tail (.arrive (.run filing owner ⟨1⟩ .human firstId CeremonyContext.empty "op"))
  have h₂ := h₁.tail (.advance (i := 0) rfl ⟨rfl, rfl⟩)
  have h₃ := h₂.tail (.advance (i := 0) rfl ⟨rfl, rfl⟩)
  have h₄ := h₃.tail (.advance (i := 0) (a := ()) rfl rfl)
  have h₅ := h₄.tail (.advance (i := 0) (a := epoch) rfl rfl)
  have h₆ := h₅.tail (.advance (i := 0) rfl ⟨rfl, rfl⟩)
  have h₇ := h₆.tail (.advance (i := 0) (a := epoch) rfl rfl)
  have h₈ := h₇.tail (.advance (i := 0) rfl ⟨rfl, rfl⟩)
  have h₉ := h₈.tail (.arrive (.run refiling owner ⟨1⟩ .human secondId CeremonyContext.empty "op"))
  have h₁₀ := h₉.tail (.advance (i := 1) rfl ⟨rfl, rfl⟩)
  have h₁₁ := h₁₀.tail (.advance (i := 1) rfl ⟨rfl, rfl⟩)
  have h₁₂ := h₁₁.tail (.advance (i := 1) (a := ()) rfl rfl)
  have h₁₃ := h₁₂.tail (.arrive (.transition firstId clerk .human archive))
  have h₁₄ := h₁₃.tail (.advance (i := 2) rfl ⟨rfl, rfl⟩)
  have h₁₅ := h₁₄.tail (.advance (i := 2) rfl ⟨rfl, rfl⟩)
  have h₁₆ := h₁₅.tail (.advance (i := 2) rfl ⟨rfl, rfl⟩)
  have h₁₇ := h₁₆.tail (.advance (i := 2) (a := epoch) rfl rfl)
  have h₁₈ := h₁₇.tail (.advance (i := 2) rfl ⟨rfl, rfl⟩)
  exact ⟨_, _, h₁₈, rfl, rfl, rfl, rfl⟩

theorem journal_tells_session_refiled : ∃ c i, Runs TamperEvidence.table c ∧
    (landings c.world.log firstId).length < 2 ^ 64 - 1 ∧
    (c.world.store.stored firstId).session = some i ∧
    SameStory TamperEvidence.table c.world i (c.world.store.stored firstId).journal := by
  obtain ⟨c, i, hr, hthree, hi, -⟩ := refiled_runs
  have hfew : (landings c.world.log firstId).length < 2 ^ 64 - 1 := by omega
  rcases journal_tells_session TamperEvidence.table c hr firstId hfew with ⟨hnone, -⟩ | ⟨j, hj, hsame⟩
  · simp [hi] at hnone
  · exact ⟨c, j, hr, hfew, hj, hsame⟩

/-- A ceremony that has completed can complete again. -/
theorem completed_twice :
    ¬ ∀ (env : Rendering) (c : Config (calls Deed) (World Deed)), Runs env c →
      ∀ id i, (c.world.store.stored id).session = some i → i.completedAt.isSome = true →
        occurrences .ceremonyCompleted (c.world.store.stored id).journal = 1 := by
  intro h
  obtain ⟨c, i, hr, -, hi, hcompleted, htwice⟩ := refiled_runs
  rw [h _ c hr firstId i hi hcompleted] at htwice
  simp at htwice

end Refiled

end Choreographer.JournalAgreement
