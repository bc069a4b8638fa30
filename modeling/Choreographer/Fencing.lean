import Choreographer.TamperEvidence
import Choreographer.UseCaseRuns

namespace Choreographer.Fencing

open Choreographer.Lib.SortedMaps Choreographer.Lib.Updates Choreographer.Lib.Programs
open Choreographer.Texts Choreographer.Values Choreographer.Steps Choreographer.DefinitionParts
open Choreographer.Definition Choreographer.Agenda Choreographer.Instance Choreographer.Operations
open Choreographer.Audit Choreographer.InMemory Choreographer.SessionJournal
open Choreographer.SessionFacts Choreographer.SessionLog Choreographer.UseCases
open Choreographer.Histories Choreographer.UseCaseRuns

variable {env : Rendering} {d : CeremonyDefinition} {i i' : CeremonyInstance} {act : Act}
  {facts : List AuditFact} {stepId : StepId} {key : IdempotencyKey} {attempt n : StepAttempt}

def attemptAt (i : CeremonyInstance) (stepId : StepId) : Option StepAttempt :=
  (i.stepRecords.get? stepId).map StepExecutionRecord.attempt

theorem attemptAt_started {base : Option CeremonyInstance}
    (h : Did d base (.startedStep stepId key attempt) i' facts) :
    attemptAt i' stepId = some attempt := by
  cases h with
  | startedStep effect hrecord numbered =>
    cases effect with
    | startStep _ _ _ _ hrecord' _ numbered' =>
      obtain rfl := Option.some.inj (hrecord.symm.trans hrecord')
      obtain rfl := Except.ok.inj (numbered.symm.trans numbered')
      simp [attemptAt, StepExecutionRecord.withStarted]

theorem attemptAt_did (h : Did d (some i) act i' facts) (hn : attemptAt i stepId = some n) :
    ∃ m, attemptAt i' stepId = some m ∧ n ≤ m ∧
      ((∀ key k, act ≠ .startedStep stepId key k) → m = n) := by
  cases h with
  | @startedStep i i' roleId j lease now record attempt f effect hrecord numbered =>
    cases effect with
    | @startStep _ _ _ _ _ record' attempt' _ _ _ _ hrecord' _ numbered' =>
      obtain rfl := Option.some.inj (hrecord.symm.trans hrecord')
      obtain rfl := Except.ok.inj (numbered.symm.trans numbered')
      by_cases hj : stepId = j
      · subst hj
        have hrec : record.attempt = n := by simpa [attemptAt, hrecord] using hn
        refine ⟨attempt, by simp [attemptAt, StepExecutionRecord.withStarted], ?_, fun hne => ?_⟩
        · have hval := nextAttemptForStart_val numbered
          have hlt := record.attempt.get.isLt
          rw [← hrec, StepAttempt.le_iff, hval]
          split <;> omega
        · exact absurd rfl (hne _ _)
      · refine ⟨n, ?_, le_rfl, fun _ => rfl⟩
        rw [← hn, attemptAt, attemptAt, OrdMap.get?_insert_ne _ hj]
  | @finishedStep i i' j result now attempt granted f effect =>
    cases effect with
    | @applyStepResult _ _ _ _ record _ _ _ hrecord =>
      refine ⟨n, ?_, le_rfl, fun _ => rfl⟩
      by_cases hj : stepId = j
      · subst hj
        rw [← hn]
        simp [attemptAt, hrecord, StepExecutionRecord.withResult]
      · rw [← hn, attemptAt, attemptAt, OrdMap.get?_insert_ne _ hj]
  | seated => exact ⟨n, hn, le_rfl, fun _ => rfl⟩
  | movedOn effect | movedToEnd effect | approvedGuard effect | deferredGuard effect
  | requested effect | responded effect | collected effect | closed effect | asserted effect =>
    cases effect
    exact ⟨n, hn, le_rfl, fun _ => rfl⟩

/-- Since an attempt was granted, the session is at that attempt for as long as
no start of the step was granted another one. -/
theorem attemptAt_since {before since : List (Entry Deed)} {g : Entry Deed}
    {session : Option CeremonyInstance} {journal : List AuditRecord}
    (h : Story env (before ++ g :: since) session journal)
    (hg : g.note.act = .startedStep stepId key attempt) :
    ∃ i m, session = some i ∧ attemptAt i stepId = some m ∧ attempt ≤ m ∧
      (m = attempt ↔ ∀ r ∈ since, ∀ k n, r.note.act = .startedStep stepId k n → n = attempt) := by
  induction since using List.reverseRecOn generalizing session journal with
  | nil =>
    obtain ⟨rfl, _, _, _, -, did, -⟩ := story_concat h
    rw [hg] at did
    exact ⟨_, attempt, rfl, attemptAt_started did, le_rfl, by simp⟩
  | append_singleton since r ih =>
    rw [← List.cons_append, ← List.append_assoc] at h
    obtain ⟨rfl, session, journal, _, prior, did, -⟩ := story_concat h
    obtain ⟨i, m, rfl, hm, hle, hiff⟩ := ih prior
    obtain ⟨m', hm', hmono, hkept⟩ := attemptAt_did did hm
    refine ⟨_, m', rfl, hm', hle.trans hmono, fun heq => ?_, fun hall => ?_⟩
    · subst heq
      have hsame : m = m' := le_antisymm hmono hle
      intro e he k n hstart
      rcases List.mem_append.mp he with he | he
      · exact hiff.mp hsame e he k n hstart
      · rw [List.mem_singleton.mp he] at hstart
        rw [hstart] at did
        exact Option.some.inj ((attemptAt_started did).symm.trans hm')
    · have hm_eq : m = attempt := hiff.mpr fun e he => hall e (List.mem_append_left _ he)
      by_cases hr : ∃ k n, r.note.act = .startedStep stepId k n
      · obtain ⟨k, n, hr⟩ := hr
        have hn := hall r (by simp) k n hr
        rw [hr] at did
        exact (Option.some.inj (hm'.symm.trans (attemptAt_started did))).trans hn
      · exact (hkept fun k n hkn => hr ⟨k, n, hkn⟩).trans hm_eq

/-- A result is fenced by its attempt: it overwrites the record of that attempt
in progress, and the attempt it seals is the one of the record it stores. -/
structure Fenced (e : Entry Deed) (stepId : StepId) (attempt : StepAttempt) : Prop where
  overwrites : ∃ i record, e.before.session = some i ∧ i.stepRecords.get? stepId = some record ∧
    record.status = .inProgress ∧ record.attempt = attempt
  seals : ∃ i record f, e.after.session = some i ∧ i.stepRecords.get? stepId = some record ∧
    e.facts = [f] ∧ (f.eventType = .stepCompleted ∨ f.eventType = .stepFailed) ∧
    f.eventId.asStr = trim (eventIdText i.id f.eventType (aboutStep stepId record.attempt))

theorem finished_did {status : StepStatus} {granted : Option IdempotencyKey}
    (h : Did d (some i) (.finishedStep stepId attempt status granted) i' facts) :
    ∃ record stored f, i.stepRecords.get? stepId = some record ∧ record.status = .inProgress ∧
      i'.stepRecords.get? stepId = some stored ∧ stored.attempt = record.attempt ∧
      facts = [f] ∧ (f.eventType = .stepCompleted ∨ f.eventType = .stepFailed) ∧
      f.eventId.asStr = trim (eventIdText i'.id f.eventType (aboutStep stepId attempt)) := by
  cases h with
  | @finishedStep _ _ _ result _ _ _ f effect readBack told =>
    cases effect with
    | @applyStepResult _ _ _ _ record _ _ _ hrecord executing =>
      refine ⟨record, record.withResult result, f, hrecord, executing,
        OrdMap.get?_insert_self _ _ _, rfl, rfl, ?_, ?_⟩
      · rw [told.happened, ending]
        split
        · exact .inl rfl
        · exact .inr rfl
      · rw [told.happened]
        exact told.named

/-- The result of a runner is fenced by the attempt it was granted if and only
if no start of the step was granted another attempt in the meantime. -/
theorem result_fenced_iff (env : Rendering) (c : Config (calls Deed) (World Deed)) (h : Runs env c)
    (earlier later : List (Entry Deed)) (e : Entry Deed)
    (hlog : c.world.log = earlier ++ e :: later) (hlanded : e.landed = true) (stepId : StepId)
    (attempt : StepAttempt) (status : StepStatus) (key : IdempotencyKey)
    (hact : e.note.act = .finishedStep stepId attempt status (some key))
    (hfew : (landings earlier e.ceremony).length < 2 ^ 64 - 1) :
    ∃ before g since, earlier = before ++ g :: since ∧ g.landed = true ∧
      Grants e.ceremony stepId key attempt g ∧
      (Fenced e stepId attempt ↔ ∀ r ∈ since, r.landed = true → r.ceremony = e.ceremony →
        ∀ k n, r.note.act = .startedStep stepId k n → n = attempt) := by
  have hinv := inv_of_runs h
  obtain ⟨-, hlegal, hlawful⟩ := inv_of_runs h
  obtain ⟨did, -, hgranted⟩ := hlawful earlier e later hlog hlanded
  obtain ⟨g, hg, hgl, hgid, hgact⟩ := hgranted stepId attempt status key hact
  obtain ⟨before, since, rfl⟩ := List.append_of_mem hg
  refine ⟨before, g, since, rfl, hgl, ⟨hgid, hgact⟩, ?_⟩
  rw [hlog] at hlegal
  have hentry := hlegal.entry
  have hbase : e.base = e.before.session := by
    refine hentry.based hlanded ?_
    rw [hentry.met, number_replay hlegal.of_append]
    exact lt_of_le_of_lt (min_le_left _ _) hfew
  obtain ⟨sealed, -, -, hafter⟩ := hentry.stored hlanded
  have hstory := story_of_inv hinv hlog hfew.le
  rw [landings_append, landings_cons_of hgl hgid] at hstory
  obtain ⟨i, m, hi, hm, -, hiff⟩ := attemptAt_since hstory hgact
  have hbefore : e.before.session = some i := by rw [hentry.met, hi]
  rw [hact, hbase, hbefore] at did
  obtain ⟨record, stored, f, hrecord, hprogress, hstored, hsame, hfacts, htype, hid⟩ :=
    finished_did did
  have hrec : record.attempt = m := by
    rw [attemptAt, hrecord] at hm
    exact Option.some.inj hm
  have hmem : (∀ r ∈ landings since e.ceremony, ∀ k n, r.note.act = .startedStep stepId k n →
      n = attempt) ↔ ∀ r ∈ since, r.landed = true → r.ceremony = e.ceremony →
        ∀ k n, r.note.act = .startedStep stepId k n → n = attempt := by
    constructor
    · exact fun hall r hr hl hid => hall r (mem_landings.mpr ⟨hr, hl, hid⟩)
    · intro hall r hr
      obtain ⟨hr, hl, hid⟩ := mem_landings.mp hr
      exact hall r hr hl hid
  rw [← hmem, ← hiff]
  constructor
  · rintro ⟨⟨j, r, hj, hr, -, hra⟩, -⟩
    obtain rfl := Option.some.inj (hbefore.symm.trans hj)
    rw [hrecord] at hr
    rw [← hrec, Option.some.inj hr, hra]
  · rintro rfl
    refine ⟨⟨i, record, hbefore, hrecord, hprogress, hrec⟩, _, stored, f, ?_, hstored, hfacts, htype,
      ?_⟩
    · rw [hafter]
    · rw [hsame, hrec]
      exact hid

section LateResult

def submitted : StateId := ⟨"submitted", by decide⟩
def done : StateId := ⟨"done", by decide⟩
def finish : TransitionTrigger := ⟨"finish", by decide⟩
def review : StepId := ⟨"review", by decide⟩
def reviewer : RoleId := ⟨"reviewer", by decide⟩

/-- A submission with one step, which may be tried twice. -/
def reviewing : CeremonyDefinition :=
  (CeremonyDefinition.new ⟨"reviewing", by decide⟩ versionOne none [] []
    [⟨submitted, .initial⟩, ⟨done, .terminal⟩] [⟨submitted, done, finish, OrdMap.empty⟩]
    [⟨review, submitted, ⟨"agent", by decide⟩, Attributes.empty,
      ⟨⟨2, by decide⟩, DurationMs.zero⟩, none⟩]
    [] [⟨reviewer, OrdSet.ofList [.step review, .transition finish], by decide⟩]).toOption.get rfl

def sessionId : CeremonyId := ⟨"s1", by decide⟩
def clerk : LeaseOwnerId := ⟨"clerk", by decide⟩
def agreed : StepResult := ⟨.completed, StepOutput.empty, none, by decide, by decide⟩
def epoch : OffsetDateTime := ⟨0, 0⟩
def second : OffsetDateTime := ⟨1000000000, 0⟩
def millisecond : DurationMs := ⟨1⟩
def firstKey : IdempotencyKey := ⟨"k1", by decide⟩
def secondKey : IdempotencyKey := ⟨"k2", by decide⟩

/-- The clerk takes the step over from a runner whose handler is slow, and the
handler comes back after that. -/
theorem late_runs : ∃ c earlier e, Runs TamperEvidence.table c ∧ c.world.log = earlier ++ [e] ∧
    e.landed = true ∧ e.note.act = .finishedStep review StepAttempt.first .completed (some firstKey) ∧
    (landings earlier e.ceremony).length = 3 ∧
    e.before.session.bind (attemptAt · review) = some ⟨2, by decide⟩ := by
  have h₀ : Runs TamperEvidence.table ⟨World.empty, []⟩ := .refl
  have h₁ := h₀.tail (.drift (.mount reviewing))
  have h₂ := h₁.tail (.arrive (.start sessionId reviewing.name reviewing.version
    CeremonyContext.empty "op" .human))
  have h₃ := h₂.tail (.advance (i := 0) rfl ⟨rfl, rfl⟩)
  have h₄ := h₃.tail (.advance (i := 0) (a := epoch) rfl rfl)
  have h₅ := h₄.tail (.advance (i := 0) rfl ⟨rfl, rfl⟩)
  have h₆ := h₅.tail (.arrive (.runStep sessionId reviewer .agent review clerk firstKey millisecond))
  have h₇ := h₆.tail (.advance (i := 1) rfl ⟨rfl, rfl⟩)
  have h₈ := h₇.tail (.advance (i := 1) rfl ⟨rfl, rfl⟩)
  have h₉ := h₈.tail (.advance (i := 1) rfl ⟨rfl, rfl⟩)
  have h₁₀ := h₉.tail (.advance (i := 1) (a := epoch) rfl rfl)
  have h₁₁ := h₁₀.tail (.advance (i := 1) rfl ⟨rfl, rfl⟩)
  have h₁₂ := h₁₁.tail (.arrive (.startStep sessionId reviewer .agent review clerk secondKey
    millisecond))
  have h₁₃ := h₁₂.tail (.advance (i := 2) rfl ⟨rfl, rfl⟩)
  have h₁₄ := h₁₃.tail (.advance (i := 2) rfl ⟨rfl, rfl⟩)
  have h₁₅ := h₁₄.tail (.advance (i := 2) rfl ⟨rfl, rfl⟩)
  have h₁₆ := h₁₅.tail (.advance (i := 2) (a := second) rfl rfl)
  have h₁₇ := h₁₆.tail (.advance (i := 2) rfl ⟨rfl, rfl⟩)
  have h₁₈ := h₁₇.tail (.advance (i := 1)
    (a := (Except.ok [] : Except DomainError CeremonyTranscript)) rfl rfl)
  have h₁₉ := h₁₈.tail (.advance (i := 1)
    (a := (Except.ok agreed : Except DomainError StepResult)) rfl rfl)
  have h₂₀ := h₁₉.tail (.advance (i := 1) rfl ⟨rfl, rfl⟩)
  have h₂₁ := h₂₀.tail (.advance (i := 1) rfl ⟨rfl, rfl⟩)
  have h₂₂ := h₂₁.tail (.advance (i := 1) (a := second) rfl rfl)
  have h₂₃ := h₂₂.tail (.advance (i := 1) rfl ⟨rfl, rfl⟩)
  exact ⟨_, [_, _, _], _, h₂₃, rfl, rfl, rfl, rfl, rfl⟩

theorem result_fenced_iff_late : ∃ c earlier e, Runs TamperEvidence.table c ∧
    c.world.log = earlier ++ [e] ∧ ∃ before g since, earlier = before ++ g :: since ∧
      g.landed = true ∧ Grants e.ceremony review firstKey StepAttempt.first g ∧
      (Fenced e review StepAttempt.first ↔ ∀ r ∈ since, r.landed = true →
        r.ceremony = e.ceremony → ∀ k n, r.note.act = .startedStep review k n →
        n = StepAttempt.first) := by
  obtain ⟨c, earlier, e, hr, hlog, hl, hact, hthree, -⟩ := late_runs
  exact ⟨c, earlier, e, hr, hlog, result_fenced_iff TamperEvidence.table c hr earlier [] e hlog hl
    review StepAttempt.first .completed firstKey hact (by rw [hthree]; decide)⟩

/-- The result of the first attempt lands on the record of the second. -/
theorem late_result_unfenced :
    ¬ ∀ (env : Rendering) (c : Config (calls Deed) (World Deed)), Runs env c →
      ∀ earlier e later, c.world.log = earlier ++ e :: later → e.landed = true →
        ∀ stepId attempt status key, e.note.act = .finishedStep stepId attempt status (some key) →
          Fenced e stepId attempt := by
  intro h
  obtain ⟨c, earlier, e, hr, hlog, hl, hact, -, hsecond⟩ := late_runs
  obtain ⟨i, record, hi, hrecord, -, hfirst⟩ := (h _ c hr earlier e [] hlog hl _ _ _ _ hact).overwrites
  rw [hi, Option.bind_some, attemptAt, hrecord, Option.map_some, hfirst] at hsecond
  simp [StepAttempt.first] at hsecond

end LateResult

end Choreographer.Fencing
