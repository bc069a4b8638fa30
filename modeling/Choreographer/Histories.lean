import Choreographer.UseCases

namespace Choreographer.Histories

open Choreographer.Lib.SortedMaps Choreographer.Lib.Updates Choreographer.Lib.Programs
open Choreographer.Texts Choreographer.Values Choreographer.Steps Choreographer.DefinitionParts
open Choreographer.Definition Choreographer.Agenda Choreographer.Instance Choreographer.Operations
open Choreographer.Audit Choreographer.InMemory Choreographer.SessionJournal
open Choreographer.SessionFacts Choreographer.SessionLog Choreographer.UseCases

/-- What each kind of commit does to the session it was computed from, and what
it says about it. -/
inductive Did (d : CeremonyDefinition) :
    Option CeremonyInstance → Act → CeremonyInstance → List AuditFact → Prop
  | opened {id : CeremonyId} {context : CeremonyContext} {now : OffsetDateTime}
      {bound : Option CeremonyDefinitionDigest} {f : AuditFact}
      (told : Says (CeremonyInstance.opened id d context now bound) .ceremonyInstanceStarted
        aboutSession f) :
      Did d none .opened (CeremonyInstance.opened id d context now bound) [f]
  | startedStep {i i' : CeremonyInstance} {roleId : RoleId} {stepId : StepId} {lease : StepLease}
      {now : OffsetDateTime} {record : StepExecutionRecord} {attempt : StepAttempt} {f : AuditFact}
      (effect : Effect d i (.startStep (some roleId) stepId lease now) i')
      (hrecord : i.stepRecords.get? stepId = some record)
      (numbered : nextAttemptForStart record = .ok attempt)
      (told : Says i' .stepStarted (aboutStep stepId attempt) f) :
      Did d (some i) (.startedStep stepId lease.idempotencyKey attempt) i' [f]
  | finishedStep {i i' : CeremonyInstance} {stepId : StepId} {result : StepResult}
      {now : OffsetDateTime} {attempt : StepAttempt} {granted : Option IdempotencyKey}
      {f : AuditFact} (effect : Effect d i (.applyStepResult stepId result now) i')
      (readBack : granted = none →
        ∃ record, i'.stepRecords.get? stepId = some record ∧ record.attempt = attempt)
      (told : Says i' (ending result) (aboutStep stepId attempt) f) :
      Did d (some i) (.finishedStep stepId attempt result.status granted) i' [f]
  | movedOn {i i' : CeremonyInstance} {roleId : RoleId} {trigger : TransitionTrigger}
      {now : OffsetDateTime} {f : AuditFact}
      (effect : Effect d i (.applyTransition (some roleId) trigger now) i')
      (goesOn : d.isTerminalState i'.currentState = false)
      (told : Says i' .transitionApplied (aboutTransition i') f) :
      Did d (some i) .moved i' [f]
  | movedToEnd {i i' : CeremonyInstance} {roleId : RoleId} {trigger : TransitionTrigger}
      {now : OffsetDateTime} {f g : AuditFact}
      (effect : Effect d i (.applyTransition (some roleId) trigger now) i')
      (ends : d.isTerminalState i'.currentState = true)
      (told : Says i' .transitionApplied (aboutTransition i') f)
      (toldEnd : Says i' .ceremonyCompleted (aboutTransition i') g) :
      Did d (some i) .moved i' [f, g]
  | approvedGuard {i i' : CeremonyInstance} {guardName : GuardName} {roleId : RoleId}
      {kind : AuditActorKind} {now : OffsetDateTime} {f : AuditFact}
      (effect : Effect d i (.approveGuard guardName roleId kind now) i')
      (told : Says i' .humanApprovalRecorded (aboutGuard guardName) f) :
      Did d (some i) (.approvedGuard guardName) i' [f]
  | deferredGuard {i i' : CeremonyInstance} {guardName : GuardName}
      {content : CeremonyGuardDeferralContent} {roleId : RoleId} {kind : AuditActorKind}
      {now : OffsetDateTime} {f : AuditFact}
      (effect : Effect d i (.deferGuard guardName content roleId kind now) i')
      (told : Says i' .humanDeferralRecorded (aboutGuard guardName) f) :
      Did d (some i) (.deferredGuard guardName) i' [f]
  | seated {i : CeremonyInstance} {seating : OrdMap RoleId Specialty}
      {bindings : OrdMap RoleId CeremonyParticipantBinding} {now : OffsetDateTime} {f : AuditFact}
      (seats : seating.entries ≠ []) (matching : i.matchesDefinition d = true)
      (told : Says i .participantsBound (aboutSeating seating) f) :
      Did d (some i) (.seated seating)
        { i with participantBindings := bindings, updatedAt := now } [f]
  | requested {i i' : CeremonyInstance} {interventionId : CeremonyInterventionId}
      {roleId : RoleId} {kind : CeremonyInterventionKind} {target : CeremonyInterventionTarget}
      {content : CeremonyInterventionContent} {provenance : Option CeremonyInterventionProvenance}
      {now : OffsetDateTime} {f : AuditFact}
      (effect : Effect d i
        (.requestIntervention interventionId roleId kind target content provenance now) i')
      (told : Says i' .interventionRequested (aboutIntervention interventionId) f) :
      Did d (some i) (.requested interventionId) i' [f]
  | responded {i i' : CeremonyInstance} {interventionId : CeremonyInterventionId}
      {roleId : RoleId} {content : CeremonyInterventionContent} {now : OffsetDateTime}
      {f : AuditFact}
      (effect : Effect d i (.respondToIntervention interventionId roleId content now) i')
      (told : Says i' .interventionResponded (aboutResponse interventionId roleId) f) :
      Did d (some i) (.responded interventionId roleId) i' [f]
  | collected {i i' : CeremonyInstance} {interventionId : CeremonyInterventionId}
      {roleId : RoleId} {sourceId : CeremonyEvidenceSourceId} {evidencePack : CeremonyEvidencePack}
      {now : OffsetDateTime} {f g : AuditFact}
      (effect : Effect d i
        (.respondToInterventionWithEvidence interventionId roleId evidencePack now) i')
      (sourced : evidencePack.sourceId = sourceId)
      (told : Says i' .evidenceCollected (aboutEvidence interventionId sourceId) f)
      (toldAnswer : Says i' .interventionResponded (aboutResponse interventionId roleId) g) :
      Did d (some i) (.collected interventionId roleId sourceId) i' [f, g]
  | closed {i i' : CeremonyInstance} {interventionId : CeremonyInterventionId} {roleId : RoleId}
      {now : OffsetDateTime} {f : AuditFact}
      (effect : Effect d i (.closeIntervention interventionId roleId now) i')
      (told : Says i' .interventionClosed (aboutIntervention interventionId) f) :
      Did d (some i) (.closed interventionId) i' [f]
  | asserted {i i' : CeremonyInstance} {roleId : RoleId} {fromRecord toRecord : CeremonyRecordRef}
      {kind : CeremonyReasonKind} {why : String} {confidence : MemoryConfidence}
      {now : OffsetDateTime} {f : AuditFact}
      (effect : Effect d i
        (.assertReason roleId fromRecord toRecord kind why confidence now) i')
      (told : Says i' .reasonAsserted (aboutReason i') f) :
      Did d (some i) .asserted i' [f]

section Did

variable {d : CeremonyDefinition} {i i' : CeremonyInstance} {base : Option CeremonyInstance}
  {act : Act} {facts : List AuditFact}

theorem Did.ident (h : Did d (some i) act i' facts) : ident i' = ident i := by
  cases h with
  | seated => rfl
  | startedStep effect | finishedStep effect | movedOn effect | movedToEnd effect
  | approvedGuard effect | deferredGuard effect | requested effect | responded effect
  | collected effect | closed effect | asserted effect => exact effect.ident

theorem matches_of_ident (h : Operations.ident i' = Operations.ident i) :
    i'.matchesDefinition d = i.matchesDefinition d := by
  simp only [Operations.ident, Prod.mk.injEq] at h
  simp [CeremonyInstance.matchesDefinition, h]

theorem Did.matching (h : Did d base act i' facts) : i'.matchesDefinition d = true := by
  cases h with
  | opened => exact opened_matches ..
  | seated seats matching => exact matching
  | startedStep effect | finishedStep effect | movedOn effect | movedToEnd effect
  | approvedGuard effect | deferredGuard effect | requested effect | responded effect
  | collected effect | closed effect | asserted effect =>
    rw [matches_of_ident effect.ident]
    exact effect.matching

end Did

/-- Where the definition of a session comes from. -/
def Resolved (session : CeremonyInstance) (d : CeremonyDefinition) (w : World Deed) : Prop :=
  match session.boundDefinition with
  | none => d ∈ w.definitions
  | some digest => ∃ p, w.published session.definitionName session.definitionVersion = some p ∧
      p.digest = digest ∧ p.definition = d

/-- Whoever reports a result under a grant was granted that attempt before. -/
def Granted (earlier : List (Entry Deed)) (e : Entry Deed) : Prop :=
  ∀ stepId attempt status key, e.note.act = .finishedStep stepId attempt status (some key) →
    ∃ g ∈ earlier, g.landed = true ∧ g.ceremony = e.ceremony ∧
      g.note.act = .startedStep stepId key attempt

/-- What the use cases keep to. -/
def rule : Law Deed := fun w earlier e =>
  Did e.note.definition e.base e.note.act e.loaded.session e.facts ∧
    Resolved e.loaded.session e.note.definition w ∧ Granted earlier e

theorem published_mono {name : CeremonyName} {version : CeremonyVersion}
    {p : PublishedCeremonyDefinition} {w w' : World Deed} (hg : Grows w w')
    (h : w.published name version = some p) : w'.published name version = some p := by
  obtain ⟨more, hmore⟩ := hg.publications
  unfold World.published at h ⊢
  rw [← hmore, List.find?_append, h, Option.some_or]

theorem resolved_mono {session : CeremonyInstance} {d : CeremonyDefinition} {w w' : World Deed}
    (hg : Grows w w') (h : Resolved session d w) : Resolved session d w' := by
  unfold Resolved at h ⊢
  split at h
  · exact hg.definitions.subset h
  · obtain ⟨p, hp, hd⟩ := h
    exact ⟨p, published_mono hg hp, hd⟩

theorem resolved_of_ident {s s' : CeremonyInstance} {d : CeremonyDefinition} {w : World Deed}
    (h : ident s' = ident s) (hr : Resolved s d w) : Resolved s' d w := by
  simp only [ident, Prod.mk.injEq] at h
  obtain ⟨-, hname, hversion, hbound⟩ := h
  unfold Resolved at hr ⊢
  rw [hbound, hname, hversion]
  exact hr

theorem rule_mono (w w' : World Deed) (earlier : List (Entry Deed)) (e : Entry Deed)
    (hg : Grows w w') (h : rule w earlier e) : rule w' earlier e :=
  ⟨h.1, resolved_mono hg h.2.1, h.2.2⟩

section Story

variable {env : Rendering}

/-- The story of one ceremony: each commit that landed worked on the session the
one before it had left, and sealed its facts behind those before it. -/
inductive Story (env : Rendering) :
    List (Entry Deed) → Option CeremonyInstance → List AuditRecord → Prop
  | blank : Story env [] none []
  | next {hist : List (Entry Deed)} {session : Option CeremonyInstance}
      {journal sealed : List AuditRecord} {e : Entry Deed} (prior : Story env hist session journal)
      (did : Did e.note.definition session e.note.act e.loaded.session e.facts)
      (granted : Granted hist e) (based : e.base = session)
      (hsealed : sealFacts env journal.getLast? e.facts = (sealed, .ok ())) :
      Story env (hist ++ [e]) (some e.loaded.session) (journal ++ sealed)

theorem story_concat {hist : List (Entry Deed)} {e : Entry Deed}
    {session : Option CeremonyInstance} {journal : List AuditRecord}
    (h : Story env (hist ++ [e]) session journal) :
    session = some e.loaded.session ∧ ∃ earlier before sealed,
      Story env hist earlier before ∧ Did e.note.definition earlier e.note.act e.loaded.session
        e.facts ∧ Granted hist e ∧ e.base = earlier ∧
      sealFacts env before.getLast? e.facts = (sealed, .ok ()) ∧ journal = before ++ sealed := by
  generalize hl : hist ++ [e] = l at h
  cases h with
  | blank => simp at hl
  | next prior did granted based hsealed =>
    obtain ⟨rfl, he⟩ := List.append_inj' hl rfl
    obtain rfl := List.singleton_inj.mp he
    exact ⟨rfl, _, _, _, prior, did, granted, based, hsealed, rfl⟩

theorem granted_landings {earlier : List (Entry Deed)} {e : Entry Deed} (h : Granted earlier e) :
    Granted (landings earlier e.ceremony) e := by
  intro stepId attempt status key hact
  obtain ⟨g, hg, hl, hid, hstarted⟩ := h stepId attempt status key hact
  exact ⟨g, mem_landings.mpr ⟨hg, hl, hid⟩, hl, hid, hstarted⟩

theorem story_of_legal {log : List (Entry Deed)} {id : CeremonyId} (h : Legal env log)
    (hrule : ∀ earlier e later, log = earlier ++ e :: later → e.landed = true →
      Did e.note.definition e.base e.note.act e.loaded.session e.facts ∧ Granted earlier e)
    (hfew : (landings log id).length ≤ lastRevision) :
    Story env (landings log id) (replay log id).session (replay log id).journal := by
  induction log using List.reverseRecOn with
  | nil => exact .blank
  | append_singleton log e ih =>
    obtain ⟨hlog, he⟩ := legal_concat.mp h
    have hmore : (landings log id).length ≤ lastRevision := by
      rw [landings_append, List.length_append] at hfew
      omega
    specialize ih hlog (fun earlier d later hd => hrule earlier d (later ++ [e]) (by simp [hd])) hmore
    by_cases hin : e.landed = true ∧ e.ceremony = id
    · obtain ⟨hl, rfl⟩ := hin
      have hbase : e.base = (replay log e.ceremony).session :=
        (based_of_few [] h hfew rfl hl).trans (by rw [he.met])
      obtain ⟨sealed, hsealed, -, hafter⟩ := he.stored hl
      rw [landings_concat, if_pos ⟨hl, rfl⟩, replay_concat, Function.update_self, hafter, he.met]
      rw [he.met] at hsealed
      obtain ⟨did, granted⟩ := hrule log e [] rfl hl
      exact .next ih (hbase ▸ did) (granted_landings granted) hbase hsealed
    · rw [landings_concat, if_neg hin, List.append_nil, replay_concat_of_other he hin]
      exact ih

theorem story_of_inv {w : World Deed} (h : (protocol env rule).inv w) {id : CeremonyId}
    {log later : List (Entry Deed)} (hlog : w.log = log ++ later)
    (hfew : (landings log id).length ≤ lastRevision) :
    Story env (landings log id) (replay log id).session (replay log id).journal := by
  obtain ⟨-, hlegal, hlawful⟩ := h
  rw [hlog] at hlegal
  refine story_of_legal hlegal.of_append (fun a e b he hl => ?_) hfew
  obtain ⟨did, -, granted⟩ := hlawful a e (b ++ later) (by simp [hlog, he]) hl
  exact ⟨did, granted⟩

def told (hist : List (Entry Deed)) : List AuditFact := hist.flatMap Entry.facts

theorem told_singleton (e : Entry Deed) : told [e] = e.facts := by
  simp [told]

theorem told_concat (hist : List (Entry Deed)) (e : Entry Deed) :
    told (hist ++ [e]) = told hist ++ e.facts := by
  simp [told]

variable {hist : List (Entry Deed)} {session : Option CeremonyInstance}
  {journal : List AuditRecord}

theorem story_blank (h : Story env hist none journal) : hist = [] ∧ journal = [] := by
  cases h
  exact ⟨rfl, rfl⟩

/-- What holds of an opening and goes on to hold with every commit behind it, holds of every
story that has a session. -/
@[elab_as_elim]
theorem story_induction
    {motive : ∀ hist journal i, Story env hist (some i) journal → Prop}
    (opened : ∀ {e : Entry Deed} {sealed : List AuditRecord}
      (did : Did e.note.definition none e.note.act e.loaded.session e.facts)
      (granted : Granted [] e) (based : e.base = none)
      (hsealed : sealFacts env none e.facts = (sealed, .ok ())),
      motive [e] sealed e.loaded.session (.next .blank did granted based hsealed))
    (next : ∀ {hist : List (Entry Deed)} {i : CeremonyInstance} {journal sealed : List AuditRecord}
      {e : Entry Deed} (prior : Story env hist (some i) journal)
      (did : Did e.note.definition (some i) e.note.act e.loaded.session e.facts)
      (granted : Granted hist e) (based : e.base = some i)
      (hsealed : sealFacts env journal.getLast? e.facts = (sealed, .ok ())),
      motive hist journal i prior → motive (hist ++ [e]) (journal ++ sealed) e.loaded.session
        (.next prior did granted based hsealed))
    {i : CeremonyInstance} (h : Story env hist (some i) journal) : motive hist journal i h := by
  have key : ∀ {hist session journal} (h : Story env hist session journal) {i : CeremonyInstance}
      (hs : session = some i), motive hist journal i (hs ▸ h) := by
    intro hist session journal h
    induction h with
    | blank => simp
    | @next hist session journal sealed e prior did granted based hsealed ih =>
      intro i hs
      obtain rfl := Option.some.inj hs
      cases session with
      | none =>
        obtain ⟨rfl, rfl⟩ := story_blank prior
        exact opened did granted based hsealed
      | some i => exact next prior did granted based hsealed (ih rfl)
  exact key h rfl

theorem story_sealed (h : Story env hist session journal) :
    List.Forall₂ SealOf (told hist) journal := by
  induction h with
  | blank => exact .nil
  | next prior did granted based hsealed ih =>
    rw [told_concat]
    exact List.rel_append ih (sealFacts_sealOf hsealed)

theorem story_intact (h : Story env hist session journal) :
    AuditChain.verify env journal = .intact := by
  induction h with
  | blank => rfl
  | next prior did granted based hsealed ih => exact verify_sealed ih hsealed

theorem story_eventTypes (h : Story env hist session journal) :
    journal.map AuditRecord.eventType = (told hist).map AuditFact.eventType := by
  have hsealed := story_sealed h
  clear h
  generalize told hist = facts at hsealed
  induction hsealed with
  | nil => rfl
  | cons hone _ ih => rw [List.map_cons, List.map_cons, hone.eventType, ih]

theorem story_ident {i : CeremonyInstance} (h : Story env hist (some i) journal) :
    ∀ e ∈ hist, ident e.loaded.session = ident i := by
  induction h using story_induction with
  | opened => simp
  | next prior did granted based hsealed ih =>
    intro e' he'
    rcases List.mem_append.mp he' with he' | he'
    · exact (ih e' he').trans did.ident.symm
    · rw [List.mem_singleton.mp he']

end Story

end Choreographer.Histories
