import Choreographer.Operations

namespace Choreographer.Lifecycle

open Choreographer.Lib.SortedMaps Choreographer.Lib.Updates
open Choreographer.Texts Choreographer.Values Choreographer.Steps Choreographer.DefinitionParts
open Choreographer.Definition Choreographer.Agenda Choreographer.Instance Choreographer.Operations

variable {d : CeremonyDefinition} {i i' : CeremonyInstance} {op : Operation} {stepId : StepId}
  {record record' : StepExecutionRecord}

/-- What a start or a result makes of the record of one step. -/
inductive Progress (d : CeremonyDefinition) (stepId : StepId) :
    StepExecutionRecord → StepExecutionRecord → Prop
  | kept (record : StepExecutionRecord) : Progress d stepId record record
  | started {record : StepExecutionRecord} {lease : StepLease} {attempt : StepAttempt}
      {now : OffsetDateTime} {step : CeremonyStep} (hstep : d.step stepId = some step)
      (startable : record.canBeStartedAt now = true)
      (numbered : nextAttemptForStart record = .ok attempt)
      (within : step.retryPolicy.allowsAttempt attempt = true) :
      Progress d stepId record (record.withStarted lease attempt)
  | ended {record : StepExecutionRecord} {result : StepResult}
      (executing : record.status = .inProgress) : Progress d stepId record (record.withResult result)

theorem effect_progress (h : Effect d i op i') (hr : i.stepRecords.get? stepId = some record) :
    ∃ record', i'.stepRecords.get? stepId = some record' ∧ Progress d stepId record record' := by
  rcases h.records with ⟨hs, -⟩ | ⟨roleId, sid, lease, now, rfl⟩ | ⟨sid, result, now, rfl⟩
  · exact ⟨record, by rw [hs, hr], .kept record⟩
  · cases h with
    | startStep active allowed hstep hstate hrecord startable numbered hwithin fresh =>
      by_cases he : stepId = sid
      · subst he
        obtain rfl := Option.some.inj (hr.symm.trans hrecord)
        exact ⟨_, OrdMap.get?_insert_self .., .started hstep startable numbered hwithin⟩
      · exact ⟨record, by rw [OrdMap.get?_insert_ne _ he, hr], .kept record⟩
  · cases h with
    | applyStepResult matching hstep hstate hrecord executing =>
      by_cases he : stepId = sid
      · subst he
        obtain rfl := Option.some.inj (hr.symm.trans hrecord)
        exact ⟨_, OrdMap.get?_insert_self .., .ended executing⟩
      · exact ⟨record, by rw [OrdMap.get?_insert_ne _ he, hr], .kept record⟩

def Settled (record : StepExecutionRecord) : Prop :=
  record.status = .completed ∨ record.status = .cancelled

theorem settled_stays (hset : Settled record) (h : Progress d stepId record record') :
    record' = record := by
  cases h with
  | kept => rfl
  | started hstep startable =>
    rcases hset with hs | hs <;>
      simp [StepExecutionRecord.canBeStartedAt, hs, StepStatus.isExecutable] at startable
  | ended executing => rcases hset with hs | hs <;> simp [hs] at executing

theorem attempt_le (h : Progress d stepId record record') : record.attempt ≤ record'.attempt := by
  cases h with
  | kept => exact le_refl _
  | ended => exact le_refl _
  | started hstep startable numbered hwithin =>
    have hlt := record.attempt.get.isLt
    have hval := nextAttemptForStart_val numbered
    rw [StepAttempt.le_iff]
    simp only [StepExecutionRecord.withStarted]
    split at hval <;> omega

theorem records_contains (h : Effect d i op i') (sid : StepId) :
    i'.stepRecords.contains sid = i.stepRecords.contains sid := by
  rcases h.records with ⟨hs, -⟩ | ⟨roleId, s, lease, now, rfl⟩ | ⟨s, result, now, rfl⟩
  · rw [hs]
  · cases h with
    | startStep active allowed hstep hstate hrecord =>
      by_cases he : sid = s
      · subst he
        simp [OrdMap.contains, hrecord]
      · simp [he]
  · cases h with
    | applyStepResult matching hstep hstate hrecord =>
      by_cases he : sid = s
      · subst he
        simp [OrdMap.contains, hrecord]
      · simp [he]

theorem keys_grow (h : Effect d i op i') {key : IdempotencyKey}
    (hk : i.idempotencyKeys.contains key = true) : i'.idempotencyKeys.contains key = true := by
  cases h with
  | startStep => simp [hk]
  | _ => exact hk

/-- What holds of the step records of a session at every moment. -/
structure Orderly (d : CeremonyDefinition) (i : CeremonyInstance) : Prop where
  steps : ∀ stepId, i.stepRecords.contains stepId = d.steps.contains stepId
  leased : ∀ stepId record, i.stepRecords.get? stepId = some record →
    (record.lease.isSome = true ↔ record.status = .inProgress)
  keyed : ∀ stepId record lease, i.stepRecords.get? stepId = some record →
    record.lease = some lease → i.idempotencyKeys.contains lease.idempotencyKey = true
  bounded : ∀ stepId record step, i.stepRecords.get? stepId = some record →
    d.step stepId = some step → record.attempt ≤ step.retryPolicy.maxAttempts

theorem first_le (attempt : StepAttempt) : StepAttempt.first ≤ attempt := by
  rw [StepAttempt.le_iff]
  have := attempt.positive
  simp only [StepAttempt.first]
  change 1 ≤ _
  omega

theorem opened_record (id : CeremonyId) (context : CeremonyContext) (now : OffsetDateTime)
    (bound : Option CeremonyDefinitionDigest) (stepId : StepId) :
    (CeremonyInstance.opened id d context now bound).stepRecords.get? stepId =
      if d.steps.contains stepId = true then some StepExecutionRecord.pending else none := by
  simp only [CeremonyInstance.opened, OrdMap.get?_ofList_const, OrdMap.mem_keys]

theorem orderly_opened (id : CeremonyId) (context : CeremonyContext) (now : OffsetDateTime)
    (bound : Option CeremonyDefinitionDigest) :
    Orderly d (CeremonyInstance.opened id d context now bound) := by
  have hpending : ∀ stepId record,
      (CeremonyInstance.opened id d context now bound).stepRecords.get? stepId = some record →
        record = StepExecutionRecord.pending := by
    intro stepId record h
    rw [opened_record] at h
    split at h
    · exact (Option.some.inj h).symm
    · simp at h
  refine ⟨fun stepId => ?_, fun stepId record h => ?_, fun stepId record lease h hl => ?_,
    fun stepId record step h _ => ?_⟩
  · rw [OrdMap.contains, opened_record]
    split <;> simp_all
  · simp [hpending _ _ h, StepExecutionRecord.pending]
  · simp [hpending _ _ h, StepExecutionRecord.pending] at hl
  · rw [hpending _ _ h]
    exact first_le _

theorem orderly_insert (hi : Orderly d i) {keys : OrdSet IdempotencyKey}
    (hsteps : ∀ sid, i'.stepRecords.contains sid = i.stepRecords.contains sid)
    (hrecords : i'.stepRecords = i.stepRecords.insert stepId record)
    (hkeys : i'.idempotencyKeys = keys)
    (hgrow : ∀ key, i.idempotencyKeys.contains key = true → keys.contains key = true)
    (hlease : record.lease.isSome = true ↔ record.status = .inProgress)
    (hkey : ∀ lease, record.lease = some lease → keys.contains lease.idempotencyKey = true)
    (hbound : ∀ step, d.step stepId = some step →
      record.attempt ≤ step.retryPolicy.maxAttempts) : Orderly d i' := by
  have hget : ∀ sid found, i'.stepRecords.get? sid = some found →
      (sid = stepId ∧ found = record) ∨ i.stepRecords.get? sid = some found := by
    intro sid found h
    rw [hrecords, OrdMap.get?_insert] at h
    split at h
    · next he => exact .inl ⟨he, (Option.some.inj h).symm⟩
    · exact .inr h
  refine ⟨fun sid => (hsteps sid).trans (hi.steps sid), fun sid found h => ?_,
    fun sid found lease h hl => ?_, fun sid found step h hs => ?_⟩
  · rcases hget sid found h with ⟨-, rfl⟩ | h
    · exact hlease
    · exact hi.leased sid found h
  · rw [hkeys]
    rcases hget sid found h with ⟨-, rfl⟩ | h
    · exact hkey lease hl
    · exact hgrow _ (hi.keyed sid found lease h hl)
  · rcases hget sid found h with ⟨rfl, rfl⟩ | h
    · exact hbound step hs
    · exact hi.bounded sid found step h hs

theorem orderly_step (hi : Orderly d i) (h : Effect d i op i') : Orderly d i' := by
  have hsteps := records_contains h
  rcases h.records with ⟨hs, hk⟩ | ⟨roleId, sid, lease, now, rfl⟩ | ⟨sid, result, now, rfl⟩
  · exact ⟨by simpa only [hs] using hi.steps, by simpa only [hs] using hi.leased,
      by simpa only [hs, hk] using hi.keyed, by simpa only [hs] using hi.bounded⟩
  · cases h with
    | startStep active allowed hstep hstate hrecord startable numbered hwithin fresh =>
      refine orderly_insert hi hsteps rfl rfl (fun key hkey => by simp [hkey]) ?_ ?_ ?_
      · simp [StepExecutionRecord.withStarted]
      · intro held hheld
        obtain rfl : lease = held := by simpa [StepExecutionRecord.withStarted] using hheld
        simp
      · intro step' hstep'
        obtain rfl := Option.some.inj (hstep.symm.trans hstep')
        simpa [RetryPolicy.allowsAttempt, StepExecutionRecord.withStarted] using hwithin
  · cases h with
    | applyStepResult matching hstep hstate hrecord executing =>
      refine orderly_insert hi hsteps rfl rfl (fun key hkey => hkey) ?_ ?_ ?_
      · simp [StepExecutionRecord.withResult, result.observable.2]
      · simp [StepExecutionRecord.withResult]
      · intro step' hstep'
        have hle := hi.bounded sid _ step' hrecord hstep'
        exact hle

theorem orderly_run (hi : Orderly d i) (ops : List Operation) : Orderly d (runAll d ops i) :=
  runAll_keeps (fun _ _ _ => orderly_step) ops hi

theorem settled_run (ops : List Operation) (hset : Settled record)
    (hr : i.stepRecords.get? stepId = some record) :
    (runAll d ops i).stepRecords.get? stepId = some record := by
  refine runAll_keeps (P := fun j => j.stepRecords.get? stepId = some record) ?_ ops hr
  intro j op j' hj h
  obtain ⟨record', hr', hp⟩ := effect_progress h hj
  rw [hr', settled_stays hset hp]

theorem attempt_run (ops : List Operation) (hr : i.stepRecords.get? stepId = some record) :
    ∃ record', (runAll d ops i).stepRecords.get? stepId = some record' ∧
      record.attempt ≤ record'.attempt := by
  refine runAll_keeps (P := fun j => ∃ record', j.stepRecords.get? stepId = some record' ∧
    record.attempt ≤ record'.attempt) ?_ ops ⟨record, hr, le_refl _⟩
  rintro j op j' ⟨found, hf, hle⟩ h
  obtain ⟨record', hr', hp⟩ := effect_progress h hf
  exact ⟨record', hr', le_trans hle (attempt_le hp)⟩

theorem keys_run (ops : List Operation) {key : IdempotencyKey}
    (hk : i.idempotencyKeys.contains key = true) :
    (runAll d ops i).idempotencyKeys.contains key = true :=
  runAll_keeps (P := fun j => j.idempotencyKeys.contains key = true)
    (fun _ _ _ hj h => keys_grow h hj) ops hk

theorem start_takes_key {roleId : Option RoleId} {lease : StepLease} {now : OffsetDateTime}
    (h : (Operation.startStep roleId stepId lease now).answer d i = .ok ()) :
    i.idempotencyKeys.contains lease.idempotencyKey = false ∧
      ((Operation.startStep roleId stepId lease now).after d i).idempotencyKeys.contains
        lease.idempotencyKey = true := by
  rcases after_cases d (.startStep roleId stepId lease now) i with ⟨e, he, -⟩ | ⟨-, he⟩
  · simp [h] at he
  · generalize Operation.after d (.startStep roleId stepId lease now) i = j at he ⊢
    cases he with
    | startStep active allowed hstep hstate hrecord startable numbered hwithin fresh =>
      exact ⟨fresh, by simp⟩

theorem start_after_expiry {roleId : Option RoleId} {lease : StepLease} {now : OffsetDateTime}
    (hr : i.stepRecords.get? stepId = some record) (executing : record.status = .inProgress)
    (h : (Operation.startStep roleId stepId lease now).answer d i = .ok ()) :
    ∃ held, record.lease = some held ∧ held.expiresAt ≤ now := by
  rcases after_cases d (.startStep roleId stepId lease now) i with ⟨e, he, -⟩ | ⟨-, he⟩
  · simp [h] at he
  · generalize Operation.after d (.startStep roleId stepId lease now) i = j at he
    cases he with
    | startStep active allowed hstep hstate hrecord startable =>
      obtain rfl := Option.some.inj (hr.symm.trans hrecord)
      simp only [StepExecutionRecord.canBeStartedAt, executing, StepStatus.isExecutable,
        Bool.false_or, beq_self_eq_true, Bool.true_and, Option.any_eq_true,
        StepLease.isExpiredAt, decide_eq_true_eq] at startable
      exact startable

/-- An accepted start of the step that follows a failure or takes an expired
execution over. -/
def isRestart (d : CeremonyDefinition) (stepId : StepId) (op : Operation) (i : CeremonyInstance) :
    Bool :=
  match op with
  | .startStep _ started _ _ => started = stepId && op.answer d i = .ok () &&
    (i.stepRecords.get? stepId).any fun record =>
      record.status == .failed || record.status == .inProgress
  | _ => false

def restarts (d : CeremonyDefinition) (stepId : StepId) : List Operation → CeremonyInstance → Nat
  | [], _ => 0
  | op :: rest, i => (isRestart d stepId op i).toNat + restarts d stepId rest (op.after d i)

theorem restart_counts (hi : Orderly d i) {step : CeremonyStep}
    (hstep : d.step stepId = some step)
    (hmax : step.retryPolicy.maxAttempts.get.val < 2 ^ 32 - 1)
    (hr : i.stepRecords.get? stepId = some record) (op : Operation) :
    ∃ record', (op.after d i).stepRecords.get? stepId = some record' ∧
      record.attempt.get.val + (isRestart d stepId op i).toNat ≤ record'.attempt.get.val := by
  by_cases hre : isRestart d stepId op i = true
  · cases op with
    | startStep roleId sid lease now =>
      simp only [isRestart, Bool.and_eq_true, decide_eq_true_eq, hr, Option.any_some,
        Bool.or_eq_true, beq_iff_eq] at hre
      obtain ⟨⟨rfl, hok⟩, hstatus⟩ := hre
      have hbound := StepAttempt.le_iff.mp (hi.bounded sid record step hr hstep)
      rcases after_cases d (.startStep roleId sid lease now) i with ⟨e, he, -⟩ | ⟨-, he⟩
      · simp [hok] at he
      · generalize Operation.after d (.startStep roleId sid lease now) i = j at he ⊢
        cases he with
        | startStep active allowed hs hstate hrecord startable numbered hwithin fresh =>
          obtain rfl := Option.some.inj (hr.symm.trans hrecord)
          have hval := nextAttemptForStart_val numbered
          rw [if_pos hstatus] at hval
          refine ⟨_, OrdMap.get?_insert_self .., ?_⟩
          simp only [StepExecutionRecord.withStarted]
          have hone := (isRestart d sid (.startStep roleId sid lease now) i).toNat_le
          omega
    | _ => simp [isRestart] at hre
  · simp only [Bool.not_eq_true] at hre
    rw [hre]
    obtain ⟨record', hr', hle⟩ := attempt_run (d := d) [op] hr
    exact ⟨record', hr', StepAttempt.le_iff.mp hle⟩

theorem restarts_le (hi : Orderly d i) {step : CeremonyStep} (hstep : d.step stepId = some step)
    (hmax : step.retryPolicy.maxAttempts.get.val < 2 ^ 32 - 1)
    (hr : i.stepRecords.get? stepId = some record) (ops : List Operation) :
    record.attempt.get.val + restarts d stepId ops i ≤ step.retryPolicy.maxAttempts.get.val := by
  induction ops generalizing i record with
  | nil => exact StepAttempt.le_iff.mp (hi.bounded stepId record step hr hstep)
  | cons op ops ih =>
    obtain ⟨record', hr', hle⟩ := restart_counts hi hstep hmax hr op
    have hrest := ih (i := op.after d i) (orderly_run hi [op]) hr'
    simp only [restarts]
    omega

/-- The life of the steps of a session, over all the calls made on it. -/
structure StepLifecycle (d : CeremonyDefinition) (start : CeremonyInstance) (ops : List Operation) :
    Prop where
  orderly : Orderly d (runAll d ops start)
  settled : ∀ stepId record later, (runAll d ops start).stepRecords.get? stepId = some record →
    record.status = .completed ∨ record.status = .cancelled →
      (runAll d later (runAll d ops start)).stepRecords.get? stepId = some record
  expired : ∀ roleId stepId lease now record,
    (runAll d ops start).stepRecords.get? stepId = some record → record.status = .inProgress →
    (Operation.startStep roleId stepId lease now).answer d (runAll d ops start) = .ok () →
      ∃ held, record.lease = some held ∧ held.expiresAt ≤ now
  keys : ∀ earlier between later role₁ step₁ lease₁ now₁ role₂ step₂ lease₂ now₂,
    ops = earlier ++ .startStep role₁ step₁ lease₁ now₁ ::
      (between ++ .startStep role₂ step₂ lease₂ now₂ :: later) →
    (Operation.startStep role₁ step₁ lease₁ now₁).answer d (runAll d earlier start) = .ok () →
    (Operation.startStep role₂ step₂ lease₂ now₂).answer d (runAll d
      (earlier ++ .startStep role₁ step₁ lease₁ now₁ :: between) start) = .ok () →
      lease₁.idempotencyKey ≠ lease₂.idempotencyKey
  attempts : ∀ stepId record later, (runAll d ops start).stepRecords.get? stepId = some record →
    ∃ record', (runAll d later (runAll d ops start)).stepRecords.get? stepId = some record' ∧
      record.attempt ≤ record'.attempt
  retries : ∀ stepId step, d.step stepId = some step →
    step.retryPolicy.maxAttempts.get.val < 2 ^ 32 - 1 →
      restarts d stepId ops start ≤ step.retryPolicy.maxAttempts.get.val - 1

/-- The records of a session are those of the steps of its definition, leased
exactly while they execute, never touched again once settled, started over only
after their lease ran out, each time under a key of its own, and within the
attempts the step allows. -/
theorem steps_live_by_the_rules (d : CeremonyDefinition) (id : CeremonyId)
    (context : CeremonyContext) (now : OffsetDateTime) (bound : Option CeremonyDefinitionDigest)
    (ops : List Operation) : StepLifecycle d (CeremonyInstance.opened id d context now bound) ops := by
  have hopen := orderly_opened (d := d) id context now bound
  refine ⟨orderly_run hopen ops, fun stepId record later hr hset => settled_run later hset hr,
    fun roleId stepId lease now record hr hs h => start_after_expiry hr hs h, ?_,
    fun stepId record later hr => attempt_run later hr, fun stepId step hstep hmax => ?_⟩
  · intro earlier between later role₁ step₁ lease₁ now₁ role₂ step₂ lease₂ now₂ _ h₁ h₂ heq
    have htaken := (start_takes_key h₁).2
    have hfree := (start_takes_key h₂).1
    rw [runAll_append] at hfree
    have hkept := keys_run (d := d) between htaken
    rw [heq] at hkept
    exact absurd (hkept.symm.trans hfree) (by simp)
  · have hr : (CeremonyInstance.opened id d context now bound).stepRecords.get? stepId =
        some StepExecutionRecord.pending := by
      rw [opened_record, if_pos]
      exact OrdMap.contains_iff.mpr ⟨step, hstep⟩
    have hle := restarts_le hopen hstep hmax hr ops
    have hone : StepExecutionRecord.pending.attempt.get.val = 1 := rfl
    omega

end Choreographer.Lifecycle
