import Choreographer.Fencing
import Choreographer.HumanGuards

namespace Choreographer.EventIds

open Choreographer.Lib.SortedMaps Choreographer.Lib.Updates Choreographer.Lib.Programs
open Choreographer.Texts Choreographer.Values Choreographer.Steps Choreographer.DefinitionParts
open Choreographer.Definition Choreographer.Agenda Choreographer.Instance Choreographer.Operations
open Choreographer.Audit Choreographer.InMemory Choreographer.SessionJournal
open Choreographer.SessionFacts Choreographer.SessionLog Choreographer.UseCases
open Choreographer.Histories Choreographer.UseCaseRuns

variable {env : Rendering} {d : CeremonyDefinition} {i i' : CeremonyInstance} {act : Act}
  {facts : List AuditFact} {hist : List (Entry Deed)}

/-- What keeps the ids of a session's facts apart that the code does not see to
by itself: what is asked of a commit, given the session it is computed from and
the commits before it. -/
def Careful (hist : List (Entry Deed)) (i : CeremonyInstance) : Act → Prop
  | .approvedGuard guardName => ∀ approval ∈ i.guardApprovals, approval.guardName ≠ guardName
  | .deferredGuard guardName => ∀ deferral ∈ i.guardDeferrals, deferral.guardName ≠ guardName
  | .startedStep stepId _ _ => ∀ record, i.stepRecords.get? stepId = some record →
      record.status ≠ .waitingForHuman ∧
        (record.status = .pending ∨ record.attempt.get.val < 2 ^ 32 - 1)
  | .finishedStep stepId attempt status _ => ∀ record, i.stepRecords.get? stepId = some record →
      record.attempt ≠ attempt → ∀ e ∈ hist, ∀ status' granted,
        e.note.act = .finishedStep stepId attempt status' granted →
          status'.isSuccess ≠ status.isSuccess
  | .responded interventionId roleId => ∀ item ∈ i.interventions, ∀ response ∈ item.responses,
      aboutResponse item.id response.roleId ≠ aboutResponse interventionId roleId
  | .collected interventionId roleId sourceId => ∀ item ∈ i.interventions,
      ∀ response ∈ item.responses,
        aboutResponse item.id response.roleId ≠ aboutResponse interventionId roleId ∧
          ∀ pack, response.evidencePack = some pack →
            aboutEvidence item.id pack.sourceId ≠ aboutEvidence interventionId sourceId
  | .seated seating => ∀ e ∈ hist, ∀ seating', e.note.act = .seated seating' →
      aboutSeating seating' = aboutSeating seating → seating' = seating
  | _ => True

/-- An attempt of a step has come to its end. -/
def Over (record : StepExecutionRecord) (attempt : StepAttempt) : Prop :=
  attempt < record.attempt ∨
    attempt = record.attempt ∧ record.status ≠ .pending ∧ record.status ≠ .inProgress

/-- What a session still shows of a fact about it. -/
def Visible (i : CeremonyInstance) (about : String) : AuditEventType → Prop
  | .ceremonyInstanceStarted => True
  | .humanApprovalRecorded => ∃ approval ∈ i.guardApprovals, about = aboutGuard approval.guardName
  | .humanDeferralRecorded => ∃ deferral ∈ i.guardDeferrals, about = aboutGuard deferral.guardName
  | .transitionApplied | .ceremonyCompleted =>
    ∃ n ≤ i.transitions.length, about = "transition:" ++ n.repr
  | .reasonAsserted => ∃ n ≤ i.reasons.length, about = "reason:" ++ n.repr
  | .stepStarted => ∃ stepId record attempt, i.stepRecords.get? stepId = some record ∧
      record.status ≠ .pending ∧ attempt ≤ record.attempt ∧ about = aboutStep stepId attempt
  | .interventionRequested => ∃ item ∈ i.interventions, about = aboutIntervention item.id
  | .interventionClosed =>
    ∃ item ∈ i.interventions, item.status = .closed ∧ about = aboutIntervention item.id
  | .interventionResponded => ∃ item ∈ i.interventions, ∃ response ∈ item.responses,
      about = aboutResponse item.id response.roleId
  | .evidenceCollected => ∃ item ∈ i.interventions, ∃ response ∈ item.responses, ∃ pack,
      response.evidencePack = some pack ∧ about = aboutEvidence item.id pack.sourceId
  | _ => False

/-- What is known of a fact, from the session it is about and from the commit it
came with. -/
inductive Recalls (i : CeremonyInstance) (act : Act) : AuditEventType → String → Prop
  | seating {seating : OrdMap RoleId Specialty} (hact : act = .seated seating) :
      Recalls i act .participantsBound (aboutSeating seating)
  | ending {stepId : StepId} {attempt : StepAttempt} {status : StepStatus}
      {granted : Option IdempotencyKey} {record : StepExecutionRecord}
      (hact : act = .finishedStep stepId attempt status granted)
      (hrecord : i.stepRecords.get? stepId = some record) (hover : Over record attempt) :
      Recalls i act (if status.isSuccess then .stepCompleted else .stepFailed)
        (aboutStep stepId attempt)
  | visible {eventType : AuditEventType} {about : String} (h : Visible i about eventType) :
      Recalls i act eventType about

/-- How a step record goes on. -/
def GoesOn (record record' : StepExecutionRecord) : Prop :=
  record' = record ∨ record'.status ≠ .pending ∧ record.attempt ≤ record'.attempt ∧
    (record'.attempt = record.attempt → record'.status = .inProgress → record.status = .pending)

/-- A session only adds to what it shows. -/
structure Grown (i i' : CeremonyInstance) : Prop where
  approvals : i.guardApprovals ⊆ i'.guardApprovals
  deferrals : i.guardDeferrals ⊆ i'.guardDeferrals
  transitions : i.transitions.length ≤ i'.transitions.length
  reasons : i.reasons.length ≤ i'.reasons.length
  steps : ∀ stepId record, i.stepRecords.get? stepId = some record →
    ∃ record', i'.stepRecords.get? stepId = some record' ∧ GoesOn record record'
  items : ∀ item ∈ i.interventions, ∃ item' ∈ i'.interventions, item'.id = item.id ∧
    item.responses ⊆ item'.responses ∧ (item.status = .closed → item'.status = .closed)

theorem Grown.refl (i : CeremonyInstance) : Grown i i where
  approvals := List.Subset.refl _
  deferrals := List.Subset.refl _
  transitions := le_rfl
  reasons := le_rfl
  steps _ record h := ⟨record, h, .inl rfl⟩
  items item h := ⟨item, h, rfl, List.Subset.refl _, fun hc => hc⟩

theorem GoesOn.over {record record' : StepExecutionRecord} {attempt : StepAttempt}
    (h : GoesOn record record') (ho : Over record attempt) : Over record' attempt := by
  rcases h with rfl | ⟨hpending, hle, hkept⟩
  · exact ho
  · rcases ho with hlt | ⟨rfl, hp, hr⟩
    · exact .inl (lt_of_lt_of_le hlt hle)
    · rcases hle.lt_or_eq with hlt | heq
      · exact .inl hlt
      · exact .inr ⟨heq, hpending, fun hrunning => hp (hkept heq.symm hrunning)⟩

theorem Grown.visible (h : Grown i i') {eventType : AuditEventType} {about : String}
    (hv : Visible i about eventType) : Visible i' about eventType := by
  cases eventType with
  | ceremonyInstanceStarted => trivial
  | humanApprovalRecorded =>
    obtain ⟨approval, ha, he⟩ := hv
    exact ⟨approval, h.approvals ha, he⟩
  | humanDeferralRecorded =>
    obtain ⟨deferral, ha, he⟩ := hv
    exact ⟨deferral, h.deferrals ha, he⟩
  | transitionApplied | ceremonyCompleted =>
    obtain ⟨n, hn, he⟩ := hv
    exact ⟨n, hn.trans h.transitions, he⟩
  | reasonAsserted =>
    obtain ⟨n, hn, he⟩ := hv
    exact ⟨n, hn.trans h.reasons, he⟩
  | stepStarted =>
    obtain ⟨stepId, record, attempt, hrecord, hstarted, hle, he⟩ := hv
    obtain ⟨record', hrecord', hgoes⟩ := h.steps stepId record hrecord
    refine ⟨stepId, record', attempt, hrecord', ?_⟩
    rcases hgoes with rfl | ⟨hstarted', hle', -⟩
    · exact ⟨hstarted, hle, he⟩
    · exact ⟨hstarted', hle.trans hle', he⟩
  | interventionRequested =>
    obtain ⟨item, hitem, he⟩ := hv
    obtain ⟨item', hitem', hid, -, -⟩ := h.items item hitem
    exact ⟨item', hitem', by rw [hid, he]⟩
  | interventionClosed =>
    obtain ⟨item, hitem, hclosed, he⟩ := hv
    obtain ⟨item', hitem', hid, -, hclosed'⟩ := h.items item hitem
    exact ⟨item', hitem', hclosed' hclosed, by rw [hid, he]⟩
  | interventionResponded =>
    obtain ⟨item, hitem, response, hr, he⟩ := hv
    obtain ⟨item', hitem', hid, hresponses, -⟩ := h.items item hitem
    exact ⟨item', hitem', response, hresponses hr, by rw [hid, he]⟩
  | evidenceCollected =>
    obtain ⟨item, hitem, response, hr, pack, hpack, he⟩ := hv
    obtain ⟨item', hitem', hid, hresponses, -⟩ := h.items item hitem
    exact ⟨item', hitem', response, hresponses hr, pack, hpack, by rw [hid, he]⟩
  | ceremonyDefinitionValidated | ceremonyDefinitionPublished | stepCompleted | stepFailed
  | participantsBound | ceremonyFailed => exact hv.elim

theorem Grown.recalls (h : Grown i i') {eventType : AuditEventType} {about : String}
    (hr : Recalls i act eventType about) : Recalls i' act eventType about := by
  cases hr with
  | seating hact => exact .seating hact
  | ending hact hrecord hover =>
    obtain ⟨record', hrecord', hgoes⟩ := h.steps _ _ hrecord
    exact .ending hact hrecord' (hgoes.over hover)
  | visible hv => exact .visible (h.visible hv)

section Growth

theorem grown_items {before after : List CeremonyIntervention} {item item' : CeremonyIntervention}
    (hitem : i.interventions = before ++ item :: after) (hid : item'.id = item.id)
    (hresponses : item.responses ⊆ item'.responses)
    (hclosed : item.status = .closed → item'.status = .closed) :
    ∀ it ∈ i.interventions, ∃ it' ∈ before ++ item' :: after, it'.id = it.id ∧
      it.responses ⊆ it'.responses ∧ (it.status = .closed → it'.status = .closed) := by
  intro it hit
  rw [hitem] at hit
  rcases List.mem_append.mp hit with h | h
  · exact ⟨it, List.mem_append_left _ h, rfl, List.Subset.refl _, fun hc => hc⟩
  · rcases List.mem_cons.mp h with rfl | h
    · exact ⟨item', by simp, hid, hresponses, hclosed⟩
    · exact ⟨it, by simp [h], rfl, List.Subset.refl _, fun hc => hc⟩

theorem grown_steps {stepId : StepId} {record record' : StepExecutionRecord}
    (hrecord : i.stepRecords.get? stepId = some record) (h : GoesOn record record') :
    ∀ j r, i.stepRecords.get? j = some r →
      ∃ r', (i.stepRecords.insert stepId record').get? j = some r' ∧ GoesOn r r' := by
  intro j r hr
  rw [OrdMap.get?_insert]
  split
  · next hj =>
    rw [hj, hrecord] at hr
    obtain rfl := Option.some.inj hr
    exact ⟨record', rfl, h⟩
  · exact ⟨r, hr, .inl rfl⟩

/-- A start is granted a new attempt unless it is the first one, or the step
waited for somebody, or attempts have run out of numbers. -/
theorem started_anew {record : StepExecutionRecord} {attempt : StepAttempt} {now : OffsetDateTime}
    (numbered : nextAttemptForStart record = .ok attempt)
    (careful : record.status ≠ .waitingForHuman ∧
      (record.status = .pending ∨ record.attempt.get.val < 2 ^ 32 - 1))
    (startable : record.canBeStartedAt now = true) :
    record.attempt ≤ attempt ∧ (attempt = record.attempt → record.status = .pending) := by
  have hval := nextAttemptForStart_val numbered
  have hlt := record.attempt.get.isLt
  refine ⟨?_, fun heq => ?_⟩
  · rw [StepAttempt.le_iff, hval]
    split <;> omega
  · rcases careful.2 with hpending | hroom
    · exact hpending
    · rw [heq] at hval
      by_contra hpending
      have hcounts : record.status = .failed ∨ record.status = .inProgress := by
        cases hs : record.status with
        | failed => exact .inl rfl
        | inProgress => exact .inr rfl
        | pending => exact absurd hs hpending
        | waitingForHuman => exact absurd hs careful.1
        | completed | cancelled =>
          simp [StepExecutionRecord.canBeStartedAt, hs, StepStatus.isExecutable] at startable
      rw [if_pos hcounts] at hval
      omega

theorem grown_did (h : Did d (some i) act i' facts) (careful : Careful hist i act) :
    Grown i i' := by
  cases h with
  | startedStep effect hrecord numbered told =>
    cases effect with
    | @startStep _ _ _ _ _ record _ _ _ _ _ hrecord startable numbered _ fresh =>
      obtain ⟨hle, hfirst⟩ := started_anew numbered (careful record hrecord) startable
      refine { Grown.refl i with
        steps := grown_steps hrecord (.inr ⟨?_, hle, fun heq _ => hfirst heq⟩) }
      simp [StepExecutionRecord.withStarted]
  | @finishedStep _ _ _ result _ _ _ _ effect readBack told =>
    cases effect with
    | applyStepResult _ _ _ hrecord executing =>
      refine { Grown.refl i with steps := grown_steps hrecord (.inr ⟨?_, le_rfl, fun _ hs => ?_⟩) }
      · exact result.observable.1
      · exact absurd hs result.observable.2
  | movedOn effect | movedToEnd effect =>
    cases effect
    exact { Grown.refl i with transitions := by simp }
  | approvedGuard effect =>
    cases effect
    exact { Grown.refl i with approvals := List.subset_append_left _ _ }
  | deferredGuard effect =>
    cases effect
    exact { Grown.refl i with deferrals := List.subset_append_left _ _ }
  | seated => exact { Grown.refl i with }
  | requested effect =>
    cases effect
    refine { Grown.refl i with items := fun item hitem => ?_ }
    exact ⟨item, List.mem_append_left _ hitem, rfl, List.Subset.refl _, fun hc => hc⟩
  | responded effect =>
    cases effect with
    | respond _ _ hitem =>
      refine { Grown.refl i with items := grown_items hitem ?_ ?_ ?_, reasons := by simp [answered] }
      · rfl
      · exact List.subset_append_left _ _
      · exact fun hc => hc
  | collected effect =>
    cases effect with
    | respondWithEvidence _ _ hitem =>
      refine { Grown.refl i with items := grown_items hitem ?_ ?_ ?_, reasons := by simp [answered] }
      · rfl
      · exact List.subset_append_left _ _
      · exact fun hc => hc
  | closed effect =>
    cases effect with
    | closeIntervention _ _ hitem =>
      refine { Grown.refl i with items := grown_items hitem ?_ ?_ ?_ }
      · rfl
      · exact List.Subset.refl _
      · exact fun _ => rfl
  | asserted effect =>
    cases effect
    exact { Grown.refl i with reasons := by simp }

end Growth

section Freshness

theorem recalls_cases {eventType : AuditEventType} {about : String}
    (h : Recalls i act eventType about) :
    (∃ seating, act = .seated seating ∧ eventType = .participantsBound ∧
        about = aboutSeating seating) ∨
      (∃ stepId attempt status granted record, act = .finishedStep stepId attempt status granted ∧
        eventType = (if status.isSuccess then .stepCompleted else .stepFailed) ∧
        about = aboutStep stepId attempt ∧ i.stepRecords.get? stepId = some record ∧
        Over record attempt) ∨
      Visible i about eventType := by
  cases h with
  | seating hact => exact .inl ⟨_, hact, rfl, rfl⟩
  | ending hact hrecord hover => exact .inr (.inl ⟨_, _, _, _, _, hact, rfl, rfl, hrecord, hover⟩)
  | visible h => exact .inr (.inr h)

/-- A fact of a commit: it is kept in mind from now on, and none like it was
before, unless the same table was seated before. -/
structure New (hist : List (Entry Deed)) (i i' : CeremonyInstance) (act : Act)
    (eventType : AuditEventType) (about : String) (f : AuditFact) : Prop where
  told : Says i' eventType about f
  tidy : Tidy about
  recalled : Recalls i' act eventType about
  fresh : ∀ e ∈ hist, Recalls i e.note.act eventType about →
    ∃ seating, e.note.act = .seated seating ∧ act = .seated seating

variable {eventType : AuditEventType} {about : String} {f g : AuditFact}

theorem New.ofVisible (told : Says i' eventType about f) (tidy : Tidy about)
    (shown : Visible i' about eventType) (hidden : ¬ Visible i about eventType)
    (hs : eventType ≠ .participantsBound) (hc : eventType ≠ .stepCompleted)
    (hf : eventType ≠ .stepFailed) : New hist i i' act eventType about f := by
  refine ⟨told, tidy, .visible shown, fun e _ hr => ?_⟩
  rcases recalls_cases hr with ⟨_, -, h, -⟩ | ⟨_, _, status, _, _, -, h, -⟩ | h
  · exact absurd h hs
  · split at h
    · exact absurd h hc
    · exact absurd h hf
  · exact absurd h hidden

theorem new_approval {guardName : GuardName} {approvedBy : RoleId} {kind : AuditActorKind}
    {now : OffsetDateTime} (effect : Effect d i (.approveGuard guardName approvedBy kind now) i')
    (careful : ∀ approval ∈ i.guardApprovals, approval.guardName ≠ guardName)
    (told : Says i' .humanApprovalRecorded (aboutGuard guardName) f) :
    New hist i i' act .humanApprovalRecorded (aboutGuard guardName) f := by
  refine .ofVisible told ((tidy_text _).append _) ?_ ?_ nofun nofun nofun
  · cases effect
    exact ⟨_, List.mem_append_right _ (List.mem_singleton_self _), rfl⟩
  · rintro ⟨approval, ha, he⟩
    exact careful approval ha (aboutGuard_inj he).symm

theorem new_deferral {guardName : GuardName} {content : CeremonyGuardDeferralContent}
    {deferredBy : RoleId} {kind : AuditActorKind} {now : OffsetDateTime}
    (effect : Effect d i (.deferGuard guardName content deferredBy kind now) i')
    (careful : ∀ deferral ∈ i.guardDeferrals, deferral.guardName ≠ guardName)
    (told : Says i' .humanDeferralRecorded (aboutGuard guardName) f) :
    New hist i i' act .humanDeferralRecorded (aboutGuard guardName) f := by
  refine .ofVisible told ((tidy_text _).append _) ?_ ?_ nofun nofun nofun
  · cases effect
    exact ⟨_, List.mem_append_right _ (List.mem_singleton_self _), rfl⟩
  · rintro ⟨deferral, ha, he⟩
    exact careful deferral ha (aboutGuard_inj he).symm

theorem new_move {roleId : Option RoleId} {trigger : TransitionTrigger} {now : OffsetDateTime}
    (effect : Effect d i (.applyTransition roleId trigger now) i')
    (hty : eventType = .transitionApplied ∨ eventType = .ceremonyCompleted)
    (told : Says i' eventType (aboutTransition i') f) :
    New hist i i' act eventType (aboutTransition i') f := by
  have hshown : Visible i' (aboutTransition i') .transitionApplied := ⟨_, le_rfl, rfl⟩
  have hhidden : ¬ Visible i (aboutTransition i') .transitionApplied := by
    rintro ⟨n, hn, he⟩
    have hlen : i'.transitions.length = i.transitions.length + 1 := by
      cases effect
      exact List.length_append
    have hsame := decimal_injective ((String.append_right_inj _).mp he)
    omega
  have htidy : Tidy (aboutTransition i') := (tidy_repr _).append _
  rcases hty with rfl | rfl
  · exact .ofVisible told htidy hshown hhidden nofun nofun nofun
  · exact .ofVisible told htidy hshown hhidden nofun nofun nofun

theorem new_assertion {roleId : RoleId} {fromRecord toRecord : CeremonyRecordRef}
    {kind : CeremonyReasonKind} {why : String} {confidence : MemoryConfidence}
    {now : OffsetDateTime}
    (effect : Effect d i (.assertReason roleId fromRecord toRecord kind why confidence now) i')
    (told : Says i' .reasonAsserted (aboutReason i') f) :
    New hist i i' act .reasonAsserted (aboutReason i') f := by
  refine .ofVisible told ((tidy_repr _).append _) ⟨_, le_rfl, rfl⟩ ?_ nofun nofun nofun
  rintro ⟨n, hn, he⟩
  have hlen : i'.reasons.length = i.reasons.length + 1 := by
    cases effect
    exact List.length_append
  have hsame := decimal_injective ((String.append_right_inj _).mp he)
  omega

theorem new_start {roleId : Option RoleId} {stepId : StepId} {lease : StepLease}
    {now : OffsetDateTime} {record : StepExecutionRecord} {attempt : StepAttempt}
    (effect : Effect d i (.startStep roleId stepId lease now) i')
    (hrecord : i.stepRecords.get? stepId = some record)
    (numbered : nextAttemptForStart record = .ok attempt)
    (careful : record.status ≠ .waitingForHuman ∧
      (record.status = .pending ∨ record.attempt.get.val < 2 ^ 32 - 1))
    (told : Says i' .stepStarted (aboutStep stepId attempt) f) :
    New hist i i' act .stepStarted (aboutStep stepId attempt) f := by
  cases effect with
  | startStep _ _ _ _ hrecord' startable numbered' =>
    obtain rfl := Option.some.inj (hrecord.symm.trans hrecord')
    obtain rfl := Except.ok.inj (numbered.symm.trans numbered')
    refine .ofVisible told ((tidy_repr _).append _) ?_ ?_ nofun nofun nofun
    · exact ⟨stepId, record.withStarted lease attempt, attempt, OrdMap.get?_insert_self _ _ _,
        by simp [StepExecutionRecord.withStarted], le_rfl, rfl⟩
    · rintro ⟨j, r, a, hr, hstarted, hle, he⟩
      obtain ⟨rfl, rfl⟩ := aboutStep_inj he
      obtain rfl := Option.some.inj (hrecord.symm.trans hr)
      obtain ⟨hle', hfirst⟩ := started_anew numbered careful startable
      exact hstarted (hfirst (le_antisymm hle hle'))

theorem new_request {interventionId : CeremonyInterventionId} {roleId : RoleId}
    {kind : CeremonyInterventionKind} {target : CeremonyInterventionTarget}
    {content : CeremonyInterventionContent} {provenance : Option CeremonyInterventionProvenance}
    {now : OffsetDateTime}
    (effect : Effect d i
      (.requestIntervention interventionId roleId kind target content provenance now) i')
    (told : Says i' .interventionRequested (aboutIntervention interventionId) f) :
    New hist i i' act .interventionRequested (aboutIntervention interventionId) f := by
  cases effect with
  | requestIntervention _ _ _ _ fresh =>
    refine .ofVisible told ((tidy_text _).append _) ?_ ?_ nofun nofun nofun
    · exact ⟨_, List.mem_append_right _ (List.mem_singleton_self _), rfl⟩
    · rintro ⟨item, hitem, he⟩
      exact fresh item hitem (aboutIntervention_inj he).symm

theorem new_closing {interventionId : CeremonyInterventionId} {roleId : RoleId}
    {now : OffsetDateTime} (effect : Effect d i (.closeIntervention interventionId roleId now) i')
    (unique : (i.interventions.map CeremonyIntervention.id).Nodup)
    (told : Says i' .interventionClosed (aboutIntervention interventionId) f) :
    New hist i i' act .interventionClosed (aboutIntervention interventionId) f := by
  cases effect with
  | @closeIntervention _ _ _ before after item _ _ hitem hid _ isOpen =>
    refine .ofVisible told ((tidy_text _).append _) ?_ ?_ nofun nofun nofun
    · exact ⟨_, List.mem_append_right _ List.mem_cons_self, rfl, by rw [← hid]⟩
    · rintro ⟨other, hother, hclosed, he⟩
      have hsame : other.id = item.id := (aboutIntervention_inj he).symm.trans hid.symm
      have hmem : item ∈ i.interventions := by simp [hitem]
      obtain rfl := List.inj_on_of_nodup_map unique hother hmem hsame
      simp [isOpen] at hclosed

theorem new_response {interventionId : CeremonyInterventionId} {roleId : RoleId}
    {now : OffsetDateTime} {before after : List CeremonyIntervention} {item : CeremonyIntervention}
    {response : CeremonyInterventionResponse} (hid : item.id = interventionId)
    (hresponse : response ∈ item.responses) (hrole : response.roleId = roleId)
    (careful : ∀ item ∈ i.interventions, ∀ response ∈ item.responses,
      aboutResponse item.id response.roleId ≠ aboutResponse interventionId roleId)
    (told : Says (answered interventionId now i before after item) .interventionResponded
      (aboutResponse interventionId roleId) f) :
    New hist i (answered interventionId now i before after item) act .interventionResponded
      (aboutResponse interventionId roleId) f := by
  refine .ofVisible told ((tidy_text _).append _) ?_ ?_ nofun nofun nofun
  · exact ⟨item, List.mem_append_right _ List.mem_cons_self, response, hresponse,
      by rw [hid, hrole]⟩
  · rintro ⟨item, hitem, response, hr, he⟩
    exact careful item hitem response hr he.symm

theorem new_evidence {interventionId : CeremonyInterventionId} {now : OffsetDateTime}
    {before after : List CeremonyIntervention} {item : CeremonyIntervention}
    {response : CeremonyInterventionResponse} {pack : CeremonyEvidencePack}
    (hid : item.id = interventionId) (hresponse : response ∈ item.responses)
    (hpack : response.evidencePack = some pack)
    (careful : ∀ item ∈ i.interventions, ∀ response ∈ item.responses, ∀ other,
      response.evidencePack = some other →
        aboutEvidence item.id other.sourceId ≠ aboutEvidence interventionId pack.sourceId)
    (told : Says (answered interventionId now i before after item) .evidenceCollected
      (aboutEvidence interventionId pack.sourceId) f) :
    New hist i (answered interventionId now i before after item) act .evidenceCollected
      (aboutEvidence interventionId pack.sourceId) f := by
  refine .ofVisible told ((tidy_text _).append _) ?_ ?_ nofun nofun nofun
  · exact ⟨item, List.mem_append_right _ List.mem_cons_self, response, hresponse, pack, hpack,
      by rw [hid]⟩
  · rintro ⟨item, hitem, response, hr, other, hother, he⟩
    exact careful item hitem response hr other hother he.symm

theorem new_ending {stepId : StepId} {result : StepResult} {now : OffsetDateTime}
    {attempt : StepAttempt} {granted : Option IdempotencyKey} {record : StepExecutionRecord}
    (effect : Effect d i (.applyStepResult stepId result now) i')
    (hrecord : i.stepRecords.get? stepId = some record) (known : attempt ≤ record.attempt)
    (hact : act = .finishedStep stepId attempt result.status granted)
    (careful : record.attempt ≠ attempt → ∀ e ∈ hist, ∀ status' granted,
      e.note.act = .finishedStep stepId attempt status' granted →
        status'.isSuccess ≠ result.status.isSuccess)
    (told : Says i' (ending result) (aboutStep stepId attempt) f) :
    New hist i i' act (ending result) (aboutStep stepId attempt) f := by
  cases effect with
  | applyStepResult _ _ _ hrecord' executing =>
    obtain rfl := Option.some.inj (hrecord.symm.trans hrecord')
    refine ⟨told, (tidy_repr _).append _, ?_, fun e he hr => ?_⟩
    · refine .ending hact (OrdMap.get?_insert_self _ _ _) ?_
      rcases known.lt_or_eq with hlt | heq
      · exact .inl hlt
      · exact .inr ⟨heq, result.observable.1, result.observable.2⟩
    · rcases recalls_cases hr with ⟨_, -, hty, -⟩ | ⟨j, a, status, g, r, ha, hty, habout, hr, hover⟩ | h
      · unfold ending at hty
        split at hty <;> simp at hty
      · obtain ⟨rfl, rfl⟩ := aboutStep_inj habout
        obtain rfl := Option.some.inj (hrecord.symm.trans hr)
        by_cases hsame : record.attempt = attempt
        · rcases hover with hlt | ⟨-, -, hended⟩
          · exact absurd hsame.symm hlt.ne
          · exact absurd executing hended
        · refine absurd ?_ (careful hsame e he status g ha)
          unfold ending at hty
          cases hs : status.isSuccess <;> cases ht : result.status.isSuccess <;> simp [hs, ht] at hty
          · rfl
          · rfl
      · unfold ending at h
        split at h <;> exact h.elim

theorem new_seating {seating : OrdMap RoleId Specialty} (hact : act = .seated seating)
    (seats : seating.entries ≠ [])
    (careful : ∀ e ∈ hist, ∀ seating', e.note.act = .seated seating' →
      aboutSeating seating' = aboutSeating seating → seating' = seating)
    (told : Says i' .participantsBound (aboutSeating seating) f) :
    New hist i i' act .participantsBound (aboutSeating seating) f := by
  refine ⟨told, tidy_aboutSeating seats, .seating hact, fun e he hr => ?_⟩
  rcases recalls_cases hr with ⟨seating', ha, -, habout⟩ | ⟨_, _, status, _, _, -, hty, -⟩ | h
  · exact ⟨seating, careful e he seating' ha habout.symm ▸ ha, hact⟩
  · split at hty <;> simp at hty
  · exact h.elim

theorem new_did (h : Did d (some i) act i' facts) (careful : Careful hist i act)
    (unique : (i.interventions.map CeremonyIntervention.id).Nodup)
    (known : ∀ stepId attempt status granted record,
      act = .finishedStep stepId attempt status granted →
        i.stepRecords.get? stepId = some record → attempt ≤ record.attempt) :
    (∀ f ∈ facts, ∃ eventType about, New hist i i' act eventType about f) ∧
      facts.Pairwise fun f g => f.eventType ≠ g.eventType := by
  cases h with
  | startedStep effect hrecord numbered told =>
    refine ⟨fun f hf => ?_, List.pairwise_singleton _ _⟩
    rw [List.mem_singleton.mp hf]
    exact ⟨_, _, new_start effect hrecord numbered (careful _ hrecord) told⟩
  | @finishedStep _ _ _ result _ _ _ _ effect readBack told =>
    refine ⟨fun f hf => ?_, List.pairwise_singleton _ _⟩
    rw [List.mem_singleton.mp hf]
    have heffect := effect
    cases effect with
    | applyStepResult _ _ _ hrecord =>
      exact ⟨_, _, new_ending heffect hrecord (known _ _ _ _ _ rfl hrecord) rfl
        (careful _ hrecord) told⟩
  | movedOn effect goesOn told =>
    refine ⟨fun f hf => ?_, List.pairwise_singleton _ _⟩
    rw [List.mem_singleton.mp hf]
    exact ⟨_, _, new_move effect (.inl rfl) told⟩
  | movedToEnd effect ends told toldEnd =>
    refine ⟨fun f hf => ?_, by simp [told.happened, toldEnd.happened]⟩
    rcases List.mem_pair.mp hf with rfl | rfl
    · exact ⟨_, _, new_move effect (.inl rfl) told⟩
    · exact ⟨_, _, new_move effect (.inr rfl) toldEnd⟩
  | approvedGuard effect told =>
    refine ⟨fun f hf => ?_, List.pairwise_singleton _ _⟩
    rw [List.mem_singleton.mp hf]
    exact ⟨_, _, new_approval effect careful told⟩
  | deferredGuard effect told =>
    refine ⟨fun f hf => ?_, List.pairwise_singleton _ _⟩
    rw [List.mem_singleton.mp hf]
    exact ⟨_, _, new_deferral effect careful told⟩
  | seated seats matching told =>
    refine ⟨fun f hf => ?_, List.pairwise_singleton _ _⟩
    rw [List.mem_singleton.mp hf]
    exact ⟨_, _, new_seating rfl seats careful ⟨told.named, told.happened, told.own⟩⟩
  | requested effect told =>
    refine ⟨fun f hf => ?_, List.pairwise_singleton _ _⟩
    rw [List.mem_singleton.mp hf]
    exact ⟨_, _, new_request effect told⟩
  | responded effect told =>
    refine ⟨fun f hf => ?_, List.pairwise_singleton _ _⟩
    rw [List.mem_singleton.mp hf]
    cases effect with
    | respond _ _ hitem hid =>
      exact ⟨_, _, new_response hid (List.mem_append_right _ (List.mem_singleton_self _)) rfl
        careful told⟩
  | collected effect sourced told toldAnswer =>
    refine ⟨fun f hf => ?_, by simp [told.happened, toldAnswer.happened]⟩
    subst sourced
    cases effect with
    | respondWithEvidence _ _ hitem hid =>
      rcases List.mem_pair.mp hf with rfl | rfl
      · exact ⟨_, _, new_evidence hid (List.mem_append_right _ (List.mem_singleton_self _)) rfl
          (fun item hi response hr => (careful item hi response hr).2) told⟩
      · exact ⟨_, _, new_response hid (List.mem_append_right _ (List.mem_singleton_self _)) rfl
          (fun item hi response hr => (careful item hi response hr).1) toldAnswer⟩
  | closed effect told =>
    refine ⟨fun f hf => ?_, List.pairwise_singleton _ _⟩
    rw [List.mem_singleton.mp hf]
    exact ⟨_, _, new_closing effect unique told⟩
  | asserted effect told =>
    refine ⟨fun f hf => ?_, List.pairwise_singleton _ _⟩
    rw [List.mem_singleton.mp hf]
    exact ⟨_, _, new_assertion effect told⟩

end Freshness

section Story

variable {session : Option CeremonyInstance} {journal : List AuditRecord}

def spoken (hist : List (Entry Deed)) : List (Entry Deed × AuditFact) :=
  hist.flatMap fun e => e.facts.map fun f => (e, f)

theorem spoken_concat (hist : List (Entry Deed)) (e : Entry Deed) :
    spoken (hist ++ [e]) = spoken hist ++ e.facts.map fun f => (e, f) := by
  simp [spoken]

theorem mem_spoken {x : Entry Deed × AuditFact} : x ∈ spoken hist ↔ x.1 ∈ hist ∧ x.2 ∈ x.1.facts := by
  obtain ⟨e, f⟩ := x
  simp only [spoken, List.mem_flatMap, List.mem_map, Prod.mk.injEq]
  constructor
  · rintro ⟨_, he, _, hf, rfl, rfl⟩
    exact ⟨he, hf⟩
  · rintro ⟨he, hf⟩
    exact ⟨e, he, f, hf, rfl, rfl⟩

/-- Two facts that go by one id are about one seating. -/
def Apart (x y : Entry Deed × AuditFact) : Prop :=
  x.2.eventId = y.2.eventId →
    ∃ seating, x.1.note.act = .seated seating ∧ y.1.note.act = .seated seating

/-- Everything that was told is kept in mind, and agenda items are told apart. -/
structure Remembered (hist : List (Entry Deed)) (i : CeremonyInstance) : Prop where
  recalled : ∀ x ∈ spoken hist, ∃ eventType about,
    Says i eventType about x.2 ∧ Tidy about ∧ Recalls i x.1.note.act eventType about
  unique : (i.interventions.map CeremonyIntervention.id).Nodup

theorem Says.of_id {eventType : AuditEventType} {about : String} {f : AuditFact}
    (h : Says i eventType about f) (hid : i'.id = i.id) : Says i' eventType about f :=
  ⟨by rw [hid]; exact h.named, h.happened, h.own.trans hid.symm⟩

theorem unique_did (h : Did d (some i) act i' facts)
    (unique : (i.interventions.map CeremonyIntervention.id).Nodup) :
    (i'.interventions.map CeremonyIntervention.id).Nodup := by
  cases h with
  | requested effect =>
    cases effect with
    | requestIntervention _ _ _ _ fresh =>
      rw [List.map_append, List.map_singleton]
      refine List.nodup_append.mpr ⟨unique, List.nodup_singleton _, ?_⟩
      rintro _ ha _ hb rfl
      obtain ⟨item, hitem, hid⟩ := List.mem_map.mp ha
      exact fresh item hitem (hid.trans (List.mem_singleton.mp hb))
  | responded effect =>
    cases effect with
    | respond _ _ hitem => simpa [hitem, answered] using unique
  | collected effect =>
    cases effect with
    | respondWithEvidence _ _ hitem => simpa [hitem, answered] using unique
  | closed effect =>
    cases effect with
    | closeIntervention _ _ hitem => simpa [hitem] using unique
  | seated => exact unique
  | startedStep effect | finishedStep effect | movedOn effect | movedToEnd effect
  | approvedGuard effect | deferredGuard effect | asserted effect =>
    cases effect
    exact unique

theorem known_did {e : Entry Deed} (prior : Story env hist (some i) journal)
    (did : Did e.note.definition (some i) e.note.act e.loaded.session e.facts)
    (granted : Granted hist e) {stepId : StepId} {attempt : StepAttempt} {status : StepStatus}
    {key : Option IdempotencyKey} {record : StepExecutionRecord}
    (hact : e.note.act = .finishedStep stepId attempt status key)
    (hrecord : i.stepRecords.get? stepId = some record) : attempt ≤ record.attempt := by
  cases key with
  | some key =>
    obtain ⟨g, hg, -, -, hstarted⟩ := granted stepId attempt status key hact
    obtain ⟨before, since, rfl⟩ := List.append_of_mem hg
    obtain ⟨j, m, hj, hm, hle, -⟩ := Fencing.attemptAt_since prior hstarted
    obtain rfl := Option.some.inj hj
    rw [Fencing.attemptAt, hrecord, Option.map_some] at hm
    rwa [Option.some.inj hm]
  | none =>
    rw [hact] at did
    generalize e.facts = facts at did
    generalize e.loaded.session = i' at did
    cases did with
    | finishedStep effect readBack told =>
      obtain ⟨stored, hstored, rfl⟩ := readBack rfl
      cases effect with
      | applyStepResult _ _ _ hrecord' =>
        obtain rfl := Option.some.inj (hrecord.symm.trans hrecord')
        rw [OrdMap.get?_insert_self] at hstored
        rw [← Option.some.inj hstored]
        exact le_rfl

theorem opened_did (h : Did d none act i facts) :
    ∃ f context now bound, i = CeremonyInstance.opened i.id d context now bound ∧ facts = [f] ∧
      Says (CeremonyInstance.opened i.id d context now bound) .ceremonyInstanceStarted aboutSession
        f := by
  cases h with
  | opened told => exact ⟨_, _, _, _, rfl, rfl, told⟩

theorem remembered_next {e : Entry Deed} (prior : Story env hist (some i) journal)
    (did : Did e.note.definition (some i) e.note.act e.loaded.session e.facts)
    (granted : Granted hist e) (careful : Careful hist i e.note.act) (h : Remembered hist i)
    (apart : (spoken hist).Pairwise Apart) :
    Remembered (hist ++ [e]) e.loaded.session ∧ (spoken (hist ++ [e])).Pairwise Apart := by
  have hgrown := grown_did did careful
  have hid : e.loaded.session.id = i.id := congrArg Prod.fst did.ident
  obtain ⟨hnew, htypes⟩ := new_did did careful h.unique
    fun stepId attempt status key record hact hrecord => known_did prior did granted hact hrecord
  rw [spoken_concat]
  refine ⟨⟨fun x hx => ?_, unique_did did h.unique⟩, List.pairwise_append.mpr ⟨apart, ?_, ?_⟩⟩
  · rw [spoken_concat] at hx
    rcases List.mem_append.mp hx with hx | hx
    · obtain ⟨eventType, about, told, tidy, recalled⟩ := h.recalled x hx
      exact ⟨eventType, about, Says.of_id told hid, tidy, hgrown.recalls recalled⟩
    · obtain ⟨f, hf, rfl⟩ := List.mem_map.mp hx
      obtain ⟨eventType, about, new⟩ := hnew f hf
      exact ⟨eventType, about, new.told, new.tidy, new.recalled⟩
  · refine List.pairwise_map.mpr (htypes.imp_of_mem fun {f g} hf hg hne hsame => ?_)
    obtain ⟨ty, about, new⟩ := hnew f hf
    obtain ⟨ty', about', new'⟩ := hnew g hg
    obtain ⟨hty, -⟩ := new.told.same new'.told new.tidy new'.tidy hsame
    exact absurd (by rw [new.told.happened, new'.told.happened, hty]) hne
  · intro x hx y hy hsame
    obtain ⟨g, hg, rfl⟩ := List.mem_map.mp hy
    obtain ⟨ty, about, told, tidy, recalled⟩ := h.recalled x hx
    obtain ⟨ty', about', new⟩ := hnew g hg
    obtain ⟨rfl, rfl⟩ := (Says.of_id told hid).same new.told tidy new.tidy hsame
    exact new.fresh x.1 (mem_spoken.mp hx).1 recalled

theorem story_apart (h : Story env hist (some i) journal)
    (careful : ∀ before e after, hist = before ++ e :: after → ∀ i, e.base = some i →
      Careful before i e.note.act) :
    Remembered hist i ∧ (spoken hist).Pairwise Apart := by
  induction h using story_induction with
  | opened did =>
    obtain ⟨f, context, now, bound, hsession, hfacts, told⟩ := opened_did did
    rw [hsession]
    refine ⟨⟨fun x hx => ?_, List.nodup_nil⟩, ?_⟩
    · obtain ⟨he, hx⟩ := mem_spoken.mp hx
      rw [List.mem_singleton.mp he, hfacts] at hx
      rw [List.mem_singleton.mp hx]
      exact ⟨_, _, told, tidy_aboutSession, .visible trivial⟩
    · rw [spoken, List.flatMap_singleton, hfacts]
      exact List.pairwise_singleton _ _
  | @next hist i journal sealed e prior did granted based hsealed ih =>
    obtain ⟨hremembered, hapart⟩ := ih fun before e' after hsplit =>
      careful before e' (after ++ [e]) (by simp [hsplit])
    exact remembered_next prior did granted (careful hist e [] rfl i based) hremembered hapart

end Story

/-- A journal is what was told, and different records of it go by different ids
unless they are of one seating. -/
structure Identified (hist : List (Entry Deed)) (journal : List AuditRecord) : Prop where
  recorded : List.Forall₂ (fun x r => SealOf x.2 r) (spoken hist) journal
  apart : (spoken hist).Pairwise Apart

theorem told_spoken (hist : List (Entry Deed)) : told hist = (spoken hist).map Prod.snd := by
  simp [told, spoken, List.map_flatMap, Function.comp_def]

/-- As long as every commit is careful, an id of the journal stands for one fact. -/
theorem ids_identify_facts (env : Rendering) (c : Config (calls Deed) (World Deed))
    (h : Runs env c) (id : CeremonyId) (hfew : (landings c.world.log id).length < 2 ^ 64 - 1)
    (hcareful : ∀ before e after, landings c.world.log id = before ++ e :: after →
      ∀ i, e.base = some i → Careful before i e.note.act) :
    Identified (landings c.world.log id) (c.world.store.stored id).journal := by
  have hinv := inv_of_runs h
  have hstory := story_of_inv hinv (List.append_nil c.world.log).symm hfew.le
  rw [← hinv.1 id] at hstory
  refine ⟨?_, ?_⟩
  · have hsealed := story_sealed hstory
    rw [told_spoken, List.forall₂_map_left_iff] at hsealed
    exact hsealed
  · cases hsession : (c.world.store.stored id).session with
    | none =>
      rw [hsession] at hstory
      rw [(story_blank hstory).1]
      exact List.Pairwise.nil
    | some i =>
      rw [hsession] at hstory
      exact (story_apart hstory hcareful).2

section SignedTwice

open HumanGuards (release lead signOff)

def sessionId : CeremonyId := ⟨"r3", by decide⟩
def epoch : OffsetDateTime := ⟨0, 0⟩

theorem signed_runs : ∃ c c' e₀ e₁ i x₀ x₁ x₂, (Runs TamperEvidence.table c ∧
    landings c.world.log sessionId = [e₀, e₁] ∧ e₀.base = none ∧ e₁.base = some i ∧
    e₁.note.act = .approvedGuard signOff ∧ i.guardApprovals = []) ∧
    Runs TamperEvidence.table c' ∧ spoken (landings c'.world.log sessionId) = [x₀, x₁, x₂] ∧
    x₁.2.eventId = x₂.2.eventId ∧ x₁.1.note.act = .approvedGuard signOff := by
  have h₀ : Runs TamperEvidence.table ⟨World.empty, []⟩ := .refl
  have h₁ := h₀.tail (.drift (.mount release))
  have h₂ := h₁.tail (.arrive (.start sessionId release.name release.version
    CeremonyContext.empty "op" .human))
  have h₃ := h₂.tail (.advance (i := 0) rfl ⟨rfl, rfl⟩)
  have h₄ := h₃.tail (.advance (i := 0) (a := epoch) rfl rfl)
  have h₅ := h₄.tail (.advance (i := 0) rfl ⟨rfl, rfl⟩)
  have h₆ := h₅.tail (.arrive (.approve sessionId signOff lead .human))
  have h₇ := h₆.tail (.advance (i := 1) rfl ⟨rfl, rfl⟩)
  have h₈ := h₇.tail (.advance (i := 1) rfl ⟨rfl, rfl⟩)
  have h₉ := h₈.tail (.advance (i := 1) rfl ⟨rfl, rfl⟩)
  have h₁₀ := h₉.tail (.advance (i := 1) (a := epoch) rfl rfl)
  have h₁₁ := h₁₀.tail (.advance (i := 1) rfl ⟨rfl, rfl⟩)
  have h₁₂ := h₁₁.tail (.arrive (.approve sessionId signOff lead .human))
  have h₁₃ := h₁₂.tail (.advance (i := 2) rfl ⟨rfl, rfl⟩)
  have h₁₄ := h₁₃.tail (.advance (i := 2) rfl ⟨rfl, rfl⟩)
  have h₁₅ := h₁₄.tail (.advance (i := 2) rfl ⟨rfl, rfl⟩)
  have h₁₆ := h₁₅.tail (.advance (i := 2) (a := epoch) rfl rfl)
  have h₁₇ := h₁₆.tail (.advance (i := 2) rfl ⟨rfl, rfl⟩)
  exact ⟨_, _, _, _, _, _, _, _, ⟨h₁₁, rfl, rfl, rfl, rfl, rfl⟩, h₁₇, rfl, rfl, rfl⟩

theorem ids_identify_facts_signed : ∃ c, Runs TamperEvidence.table c ∧
    (landings c.world.log sessionId).length = 2 ∧
    Identified (landings c.world.log sessionId) (c.world.store.stored sessionId).journal := by
  obtain ⟨c, -, e₀, e₁, i, -, -, -, ⟨hr, hlog, hopening, hbase, hact, hnone⟩, -⟩ := signed_runs
  refine ⟨c, hr, by rw [hlog]; rfl, ids_identify_facts TamperEvidence.table c hr sessionId
    (by simp [hlog]) fun before e after hsplit j hj => ?_⟩
  rw [hlog] at hsplit
  cases before with
  | nil =>
    obtain rfl := (List.cons.inj hsplit).1
    simp [hopening] at hj
  | cons first before =>
    obtain ⟨-, hsplit⟩ := List.cons.inj hsplit
    cases before with
    | nil =>
      obtain rfl := (List.cons.inj hsplit).1
      obtain rfl := Option.some.inj (hbase.symm.trans hj)
      rw [hact, Careful, hnone]
      simp
    | cons next before => simp at hsplit

/-- Both signatures go by the same id. -/
theorem approvals_share_id :
    ¬ ∀ (env : Rendering) (c : Config (calls Deed) (World Deed)), Runs env c →
      ∀ id, Identified (landings c.world.log id) (c.world.store.stored id).journal := by
  intro h
  obtain ⟨-, c, -, -, -, x₀, x₁, x₂, -, hr, hspoken, hsame, hact⟩ := signed_runs
  have hapart := (h _ c hr sessionId).apart
  rw [hspoken] at hapart
  simp only [List.pairwise_cons, List.mem_cons] at hapart
  obtain ⟨seating, hseated, -⟩ := hapart.2.1 x₂ (.inl rfl) hsame
  rw [hact] at hseated
  simp at hseated

end SignedTwice

end Choreographer.EventIds
