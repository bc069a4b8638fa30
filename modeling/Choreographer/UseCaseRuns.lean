import Choreographer.Histories

namespace Choreographer.UseCaseRuns

open Choreographer.Lib.SortedMaps Choreographer.Lib.Updates Choreographer.Lib.Programs
open Choreographer.Texts Choreographer.Values Choreographer.Steps Choreographer.DefinitionParts
open Choreographer.Definition Choreographer.Agenda Choreographer.Instance Choreographer.Operations
open Choreographer.Audit Choreographer.InMemory Choreographer.SessionJournal
open Choreographer.SessionFacts Choreographer.SessionLog Choreographer.UseCases
open Choreographer.Histories

variable {env : Rendering} {d : CeremonyDefinition} {loaded : LoadedSession} {α β : Type}
  {K : World Deed → Prop} {Q : β → World Deed → Prop}

section Calls

theorem checked_safe {x : Except DomainError α} {f : α → UseCaseM β}
    (hf : ∀ a, x = .ok a → SafeE (exec env) (protocol env rule) K (f a) Q) :
    SafeE (exec env) (protocol env rule) K (checked x >>= f) Q :=
  SafeE.ofExcept hf

theorem operate_safe {method : Update DomainError CeremonyInstance α} {i : CeremonyInstance}
    {f : α × CeremonyInstance → UseCaseM β}
    (hf : ∀ a i', Succeeds method i a i' →
      SafeE (exec env) (protocol env rule) K (f (a, i')) Q) :
    SafeE (exec env) (protocol env rule) K (operate method i >>= f) Q := by
  refine checked_safe fun p hp => ?_
  rcases hm : method.on i with ⟨r, j⟩
  rw [hm] at hp
  cases r with
  | error e => simp at hp
  | ok a =>
    obtain rfl := Except.ok.inj hp
    exact hf a j hm

theorem external_safe {c : Call Deed} (hc : ∀ w a w', exec env c w a w' → w' = w)
    (hK : Stable (protocol env rule) K) {f : c.Answer → UseCaseM β}
    (hf : ∀ a, SafeE (exec env) (protocol env rule) K (f a) Q) :
    SafeE (exec env) (protocol env rule) K (ask c >>= f) Q := by
  refine SafeE.andThen (R := fun _ _ => True) hK ?_ fun a => ?_
  · exact safe_asking c (fun _ => stable_true) fun w a w' _ he => ⟨hc w a w' he, trivial⟩
  · exact (hf a).mono (fun _ _ hw => hw.2) (fun _ _ _ h => h)

theorem now_safe (hK : Stable (protocol env rule) K) {f : OffsetDateTime → UseCaseM β}
    (hf : ∀ now, SafeE (exec env) (protocol env rule) K (f now) Q) :
    SafeE (exec env) (protocol env rule) K (ask .now >>= f) Q :=
  external_safe (c := .now) (fun _ _ _ he => he) hK hf

theorem lap_safe (hK : Stable (protocol env rule) K) {f : Unit → UseCaseM β}
    (hf : ∀ u, SafeE (exec env) (protocol env rule) K (f u) Q) :
    SafeE (exec env) (protocol env rule) K (ask .lap >>= f) Q :=
  external_safe (c := .lap) (fun _ _ _ he => he) hK hf

theorem perhaps_safe {c : Call Deed} (h : c.Answer = Except DomainError α)
    (hc : ∀ w a w', exec env c w a w' → w' = w) (hK : Stable (protocol env rule) K) :
    SafeE (exec env) (protocol env rule) K (perhaps c h) (fun _ => K) := by
  have hcall : Safe (exec env) (protocol env rule) K (Prog.call (I := calls Deed) c)
      (fun _ => K) := by
    refine safe_call (I := calls Deed) c (fun _ => hK) fun w a w' hi hw he => ?_
    obtain rfl := hc w a w' he
    exact ⟨hi, guar_refl _, hw⟩
  have hcast (A : Type) (hA : (calls Deed).Answer c = A) :
      Safe (exec env) (protocol env rule) K
        (hA ▸ Prog.call (I := calls Deed) c : Prog (calls Deed) A) (fun _ => K) := by
    subst hA
    exact hcall
  refine ⟨Safe.mono (hcast _ h) (fun _ _ hw => hw) (fun r w _ hw => ?_)⟩
  cases r with
  | ok a => exact hw
  | error e => trivial

theorem stable_resolved (session : CeremonyInstance) (d : CeremonyDefinition) :
    Stable (protocol env rule) (Resolved session d) :=
  fun _ _ _ _ hg h => resolved_mono hg.2 h

theorem definition_safe (name : CeremonyName) (version : CeremonyVersion) :
    SafeE (exec env) (protocol env rule) (fun _ => True)
      (perhaps (.definition name version) rfl : UseCaseM CeremonyDefinition)
      (fun d w => d ∈ w.definitions) := by
  refine ⟨safe_call (I := calls Deed) _ (fun a => ?_) fun w a w' hi _ he => ?_⟩
  · cases a with
    | error e => exact stable_true
    | ok d => exact fun _ _ _ _ hg h => hg.2.definitions.subset h
  · obtain ⟨rfl, rfl⟩ := he
    refine ⟨hi, guar_refl _, ?_⟩
    cases hd : w'.definition name version with
    | error e => trivial
    | ok d =>
      rw [World.definition, okOr_eq_ok] at hd
      exact List.mem_of_find?_eq_some hd

theorem published_safe (name : CeremonyName) (version : CeremonyVersion) :
    SafeE (exec env) (protocol env rule) (fun _ => True)
      (ask (.published name version) : UseCaseM (Option PublishedCeremonyDefinition))
      (fun found w => ∀ p, found = some p → w.published name version = some p) := by
  refine safe_asking _ (fun found w w' _ _ hg h p hp => ?_) fun w a w' hi he => ?_
  · exact published_mono hg.2 (h p hp)
  · obtain ⟨rfl, rfl⟩ := he
    exact ⟨rfl, fun p hp => hp⟩

theorem saveDefinition_safe (d : CeremonyDefinition) :
    SafeE (exec env) (protocol env rule) (fun _ => True)
      (ask (.saveDefinition d) : UseCaseM Unit) (fun _ w => d ∈ w.definitions) := by
  refine SafeE.lift (safe_call (I := calls Deed) _ (fun _ => ?_) fun w a w' hi _ he => ?_)
  · exact fun _ _ _ _ hg h => hg.2.definitions.subset h
  · change w' = _ at he
    subst he
    obtain ⟨hi', hg⟩ := drift_keeps rule_mono hi (.mount d)
    exact ⟨hi', hg, List.mem_cons_self⟩

theorem resolve_safe (session : CeremonyInstance) :
    SafeE (exec env) (protocol env rule) (fun _ => True) (resolveCeremonyDefinition session)
      (Resolved session) := by
  unfold resolveCeremonyDefinition
  split
  · next hbound =>
    refine (definition_safe _ _).mono (fun _ _ h => h) (fun d w _ hd => ?_)
    rw [Resolved, hbound]
    exact hd
  · next digest hbound =>
    refine SafeE.bind (published_safe _ _) fun found => ?_
    refine checked_safe fun p hp => checked_safe fun _ hdigest => SafeE.pure fun w _ hw => ?_
    rw [Resolved, hbound]
    exact ⟨p, hw p (okOr_eq_ok.mp hp), of_decide_eq_true (require_eq_ok.mp hdigest), rfl⟩

end Calls

/-- What a use case knows of the session it works on. -/
def InHand (loaded : LoadedSession) (d : CeremonyDefinition) (w : World Deed) : Prop :=
  Knows loaded w ∧ Resolved loaded.session d w

theorem stable_inHand (loaded : LoadedSession) (d : CeremonyDefinition) :
    Stable (protocol env rule) (InHand loaded d) :=
  (stable_knows loaded).and (stable_resolved loaded.session d)

theorem ident_of_knows {a b : LoadedSession} {w : World Deed} (ha : Knows a w) (hb : Knows b w)
    (hid : a.session.id = b.session.id) : ident a.session = ident b.session := by
  obtain ⟨i, hi, hai⟩ := ha.there
  obtain ⟨j, hj, hbj⟩ := hb.there
  rw [hid, hj] at hi
  obtain rfl := Option.some.inj hi
  exact hai.symm.trans hbj

/-- An attempt at a step was granted under a key. -/
def Grants (id : CeremonyId) (stepId : StepId) (key : IdempotencyKey) (attempt : StepAttempt)
    (g : Entry Deed) : Prop :=
  g.ceremony = id ∧ g.note.act = .startedStep stepId key attempt

theorem working_safe {id : CeremonyId} {body : LoadedSession → CeremonyDefinition → UseCaseM β}
    (h : ∀ loaded d, SafeE (exec env) (protocol env rule) (InHand loaded d) (body loaded d) Q) :
    SafeE (exec env) (protocol env rule) (fun _ => True) (do
      let loaded ← load id
      let definition ← resolveCeremonyDefinition loaded.session
      body loaded definition) Q := by
  refine SafeE.bind (load_safe id) fun loaded => ?_
  refine (SafeE.andThen (stable_knows loaded) (resolve_safe loaded.session) fun d => ?_).mono
    (fun _ _ hw => hw.2) (fun _ _ _ h => h)
  exact (h loaded d).mono (fun _ _ hw => hw.symm) (fun _ _ _ h => h)

theorem commit_inHand {session : CeremonyInstance} {facts : List AuditFact} {act : Act}
    (hk : ∀ w, K w → InHand loaded d w) (did : Did d (some loaded.session) act session facts)
    (hgrant : ∀ stepId attempt status key, act = .finishedStep stepId attempt status (some key) →
      ∀ w, K w → OnRecord (Grants session.id stepId key attempt) w) :
    SafeE (exec env) (protocol env rule) K
      (commit ⟨session, loaded.expected⟩ facts loaded.session ⟨d, act⟩)
      (fun l w => l.session = session ∧ InHand l d w ∧
        OnRecord (fun e => e.ceremony = session.id ∧ e.note.act = act) w) := by
  have hres (w : World Deed) (hw : K w) : Resolved session d w :=
    resolved_of_ident did.ident (hk w hw).2
  refine SafeE.mono (SafeE.frame (stable_resolved session d) (commit_safe rule_mono
    loaded rfl did.ident (fun w hw => (hk w hw).1) fun w hw e he => ?_))
    (fun w _ hw => ⟨hw, hres w hw⟩) fun l w _ hl => ?_
  · obtain ⟨hbase, hnote, hloaded, hfacts⟩ := he
    rw [rule, hbase, hnote, hloaded, hfacts]
    refine ⟨did, hres w hw, fun stepId attempt status key hact => ?_⟩
    rw [hnote] at hact
    obtain ⟨g, hg, hl, hid, hstarted⟩ := hgrant stepId attempt status key hact w hw
    exact ⟨g, hg, hl, hid.trans (by rw [Entry.ceremony, hloaded]), hstarted⟩
  · obtain ⟨⟨hsession, hknows, e, he, hlanded, -, hnote, hloaded, -⟩, hresolved⟩ := hl
    refine ⟨hsession, ⟨hknows, hsession ▸ hresolved⟩, e, he, hlanded, ?_, by rw [hnote]⟩
    rw [Entry.ceremony, hloaded]

theorem storing_safe {session : CeremonyInstance} {facts : List AuditFact} {act : Act}
    {f : LoadedSession → β} (did : Did d (some loaded.session) act session facts)
    (hfree : ∀ stepId attempt status key, act ≠ .finishedStep stepId attempt status (some key)) :
    SafeE (exec env) (protocol env rule) (InHand loaded d) (do
      let stored ← commit ⟨session, loaded.expected⟩ facts loaded.session ⟨d, act⟩
      pure (f stored)) (fun _ _ => True) :=
  SafeE.bind (commit_inHand (fun _ hw => hw) did fun stepId attempt status key h =>
    absurd h (hfree stepId attempt status key)) fun _ => SafeE.pure fun _ _ _ => trivial

theorem opening_safe {id : CeremonyId} {context : CeremonyContext} {now : OffsetDateTime}
    {bound : Option CeremonyDefinitionDigest} {actorId : String} {actorKind : AuditActorKind}
    {f : AuditFact}
    (hf : ceremonyStarted (CeremonyInstance.opened id d context now bound) actorId actorKind now =
      .ok f)
    (hk : ∀ w, K w → Resolved (CeremonyInstance.opened id d context now bound) d w) :
    SafeE (exec env) (protocol env rule) K
      (openSession (CeremonyInstance.opened id d context now bound) [f] ⟨d, .opened⟩)
      (fun l w => InHand l d w) := by
  refine SafeE.mono (SafeE.frame (stable_resolved _ d) (openSession_safe rule_mono
    fun w hw e he => ?_)) (fun w _ hw => ⟨hw, hk w hw⟩) fun l w _ hl => ?_
  · obtain ⟨hbase, hnote, hloaded, hfacts⟩ := he
    rw [rule, hbase, hnote, hloaded, hfacts]
    refine ⟨.opened (partyFact_tells hf), hk w hw, fun stepId attempt status key hact => ?_⟩
    rw [hnote] at hact
    simp at hact
  · obtain ⟨⟨hsession, hknows⟩, hresolved⟩ := hl
    exact ⟨hknows, hsession ▸ hresolved⟩

section Deeds

variable {i i' : CeremonyInstance}

theorem moved_did {roleId : RoleId} {trigger : TransitionTrigger} {now occurredAt : OffsetDateTime}
    {kind : AuditActorKind} {facts : List AuditFact}
    (effect : Effect d i (.applyTransition (some roleId) trigger now) i')
    (h : transitionApplied i' d roleId kind occurredAt = .ok facts) :
    Did d (some i) .moved i' facts := by
  have hm : i'.matchesDefinition d = true := (matches_of_ident effect.ident).trans effect.matching
  simp only [transitionApplied, except_bind_eq_ok] at h
  obtain ⟨actor, -, moved, hmoved, h⟩ := h
  split at h
  · next ht =>
    simp only [except_bind_eq_ok] at h
    obtain ⟨ended, hended, h⟩ := h
    obtain rfl := Except.ok.inj h
    have ends : d.isTerminalState i'.currentState = true := by
      simpa [CeremonyInstance.isTerminal, hm] using ht
    exact .movedToEnd effect ends (fact_tells hmoved) (fact_tells hended)
  · next ht =>
    obtain rfl := Except.ok.inj h
    have goesOn : d.isTerminalState i'.currentState = false := by
      simpa [CeremonyInstance.isTerminal, hm] using ht
    exact .movedOn effect goesOn (fact_tells hmoved)

theorem collected_source {interventionId : CeremonyInterventionId} {roleId : RoleId}
    {sourceId : CeremonyEvidenceSourceId} {query : CeremonyInterventionContent}
    {request : CeremonyInstance.CeremonyEvidenceRequest} {pack : CeremonyEvidencePack} {u : Unit}
    (hrequest : CeremonyInstance.prepareEvidenceRequestAs d interventionId roleId sourceId query i =
      .ok request) (hmatches : request.ensureMatches pack = .ok u) : pack.sourceId = sourceId := by
  simp only [CeremonyInstance.prepareEvidenceRequestAs, except_bind_eq_ok] at hrequest
  obtain ⟨-, -, -, -, -, -, -, -, hrequest⟩ := hrequest
  obtain rfl := Except.ok.inj hrequest
  simpa [CeremonyInstance.CeremonyEvidenceRequest.ensureMatches] using hmatches

theorem collected_did {interventionId : CeremonyInterventionId} {roleId : RoleId}
    {sourceId : CeremonyEvidenceSourceId} {pack : CeremonyEvidencePack}
    {now occurredAt : OffsetDateTime} {kind : AuditActorKind} {facts : List AuditFact}
    (effect : Effect d i (.respondToInterventionWithEvidence interventionId roleId pack now) i')
    (sourced : pack.sourceId = sourceId)
    (h : evidenceCollected i' interventionId sourceId roleId kind occurredAt = .ok facts) :
    Did d (some i) (.collected interventionId roleId sourceId) i' facts := by
  simp only [evidenceCollected, except_bind_eq_ok] at h
  obtain ⟨consulted, hconsulted, responded, hresponded, h⟩ := h
  obtain rfl := Except.ok.inj h
  exact .collected effect sourced (seatFact_tells hconsulted) (seatFact_tells hresponded)

theorem bindAll_succeeds {now : OffsetDateTime} {seats : List (RoleId × Specialty)} {u : Unit}
    (hne : seats ≠ []) (h : Succeeds (bindAll d now seats) i u i') :
    i.matchesDefinition d = true ∧ ∃ bindings,
      i' = { i with participantBindings := bindings, updatedAt := now } := by
  induction seats generalizing i with
  | nil => exact absurd rfl hne
  | cons seat rest ih =>
    rw [bindAll, succeeds_bind] at h
    obtain ⟨_, j, hbind, hrest⟩ := h
    have hone := bindParticipant_effect hbind
    refine ⟨hone.matching, ?_⟩
    cases hone
    cases rest with
    | nil =>
      rw [bindAll, succeeds_pure] at hrest
      exact ⟨_, hrest.2⟩
    | cons next others =>
      obtain ⟨-, bindings, rfl⟩ := ih (by simp) hrest
      exact ⟨bindings, rfl⟩

end Deeds

section UseCases

theorem startCeremony_safe (id : CeremonyId) (name : CeremonyName) (version : CeremonyVersion)
    (context : CeremonyContext) (actorId : String) (actorKind : AuditActorKind) :
    SafeE (exec env) (protocol env rule) (fun _ => True)
      (startCeremony id name version context actorId actorKind) (fun _ _ => True) := by
  refine SafeE.bind (definition_safe name version) fun d => ?_
  refine now_safe (fun _ _ _ _ hg h => hg.2.definitions.subset h) fun now => ?_
  refine checked_safe fun f hf => SafeE.bind (opening_safe hf fun w hw => ?_) fun _ =>
    SafeE.pure fun _ _ _ => trivial
  exact hw

theorem startPublishedCeremony_safe (id : CeremonyId) (name : CeremonyName)
    (version : CeremonyVersion) (context : CeremonyContext) (actorId : String)
    (actorKind : AuditActorKind) :
    SafeE (exec env) (protocol env rule) (fun _ => True)
      (startPublishedCeremony id name version context actorId actorKind) (fun _ _ => True) := by
  refine SafeE.bind (published_safe name version) fun found => ?_
  refine checked_safe fun p hp => now_safe ?_ fun now => ?_
  · exact fun _ _ _ _ hg h q hq => published_mono hg.2 (h q hq)
  · refine checked_safe fun f hf => SafeE.bind (opening_safe hf fun w hw => ?_) fun _ =>
      SafeE.pure fun _ _ _ => trivial
    have hpub := hw p (okOr_eq_ok.mp hp)
    obtain ⟨hname, hversion⟩ : p.definition.name = name ∧ p.definition.version = version := by
      simpa using List.find?_some hpub
    refine ⟨p, ?_, rfl, rfl⟩
    change w.published p.definition.name p.definition.version = some p
    rw [hname, hversion]
    exact hpub

theorem startCeremonyStep_safe (instanceId : CeremonyId) (roleId : RoleId)
    (roleKind : AuditActorKind) (stepId : StepId) (leaseOwnerId : LeaseOwnerId)
    (idempotencyKey : IdempotencyKey) (leaseTtl : DurationMs) :
    SafeE (exec env) (protocol env rule) (fun _ => True)
      (startCeremonyStep instanceId roleId roleKind stepId leaseOwnerId idempotencyKey leaseTtl)
      (fun _ _ => True) := by
  refine working_safe fun loaded d => now_safe (stable_inHand loaded d) fun now => ?_
  refine checked_safe fun lease _ => operate_safe fun attempt session hs => ?_
  obtain ⟨effect, record, hrecord, numbered⟩ := startStepAs_effect hs
  refine checked_safe fun f hf => storing_safe ?_ (by simp)
  exact .startedStep effect hrecord numbered (seatFact_tells hf)

theorem completeCeremonyStep_safe (instanceId : CeremonyId) (stepId : StepId) (result : StepResult)
    (actorKind : AuditActorKind) :
    SafeE (exec env) (protocol env rule) (fun _ => True)
      (completeCeremonyStep instanceId stepId result actorKind) (fun _ _ => True) := by
  refine working_safe fun loaded d => checked_safe fun finishedBy _ => ?_
  refine now_safe (stable_inHand loaded d) fun now => operate_safe fun _ session hs => ?_
  refine checked_safe fun record hrecord => checked_safe fun f hf => storing_safe ?_ (by simp)
  exact .finishedStep (applyStepResult_effect hs)
    (fun _ => ⟨record, okOr_eq_ok.mp hrecord, rfl⟩) (seatFact_tells hf)

theorem applyCeremonyTransition_safe (instanceId : CeremonyId) (roleId : RoleId)
    (roleKind : AuditActorKind) (trigger : TransitionTrigger) :
    SafeE (exec env) (protocol env rule) (fun _ => True)
      (applyCeremonyTransition instanceId roleId roleKind trigger) (fun _ _ => True) := by
  refine working_safe fun loaded d => now_safe (stable_inHand loaded d) fun now => ?_
  refine operate_safe fun state session hs => checked_safe fun facts hfacts => ?_
  exact storing_safe (moved_did (applyTransitionAs_effect hs).1 hfacts) (by simp)

theorem approveCeremonyGuard_safe (instanceId : CeremonyId) (guardName : GuardName)
    (roleId : RoleId) (roleKind : AuditActorKind) :
    SafeE (exec env) (protocol env rule) (fun _ => True)
      (approveCeremonyGuard instanceId guardName roleId roleKind) (fun _ _ => True) := by
  refine working_safe fun loaded d => now_safe (stable_inHand loaded d) fun now => ?_
  refine operate_safe fun _ session hs => checked_safe fun f hf => storing_safe ?_ (by simp)
  exact .approvedGuard (approveGuard_effect hs) (seatFact_tells hf)

theorem deferCeremonyGuard_safe (instanceId : CeremonyId) (guardName : GuardName)
    (roleId : RoleId) (roleKind : AuditActorKind) (content : CeremonyGuardDeferralContent) :
    SafeE (exec env) (protocol env rule) (fun _ => True)
      (deferCeremonyGuard instanceId guardName roleId roleKind content) (fun _ _ => True) := by
  refine working_safe fun loaded d => now_safe (stable_inHand loaded d) fun now => ?_
  refine operate_safe fun _ session hs => checked_safe fun f hf => storing_safe ?_ (by simp)
  exact .deferredGuard (deferGuard_effect hs) (seatFact_tells hf)

theorem bindCeremonyParticipants_safe (instanceId : CeremonyId) (seating : Seating)
    (actorId : String) (actorKind : AuditActorKind) :
    SafeE (exec env) (protocol env rule) (fun _ => True)
      (bindCeremonyParticipants instanceId seating actorId actorKind) (fun _ _ => True) := by
  refine working_safe fun loaded d => now_safe (stable_inHand loaded d) fun now => ?_
  refine operate_safe fun _ session hs => checked_safe fun f hf => storing_safe ?_ (by simp)
  obtain ⟨matching, bindings, rfl⟩ := bindAll_succeeds seating.nonempty hs
  exact .seated seating.nonempty matching (partyFact_tells hf)

theorem requestCeremonyIntervention_safe (instanceId : CeremonyId)
    (interventionId : CeremonyInterventionId) (roleId : RoleId) (roleKind : AuditActorKind)
    (kind : CeremonyInterventionKind) (target : CeremonyInterventionTarget)
    (content : CeremonyInterventionContent) (provenance : Option CeremonyInterventionProvenance) :
    SafeE (exec env) (protocol env rule) (fun _ => True)
      (requestCeremonyIntervention instanceId interventionId roleId roleKind kind target content
        provenance) (fun _ _ => True) := by
  refine working_safe fun loaded d => now_safe (stable_inHand loaded d) fun now => ?_
  refine operate_safe fun _ session hs => checked_safe fun f hf => storing_safe ?_ (by simp)
  exact .requested (requestIntervention_effect hs) (seatFact_tells hf)

theorem respondToCeremonyIntervention_safe (instanceId : CeremonyId)
    (interventionId : CeremonyInterventionId) (roleId : RoleId) (roleKind : AuditActorKind)
    (content : CeremonyInterventionContent) :
    SafeE (exec env) (protocol env rule) (fun _ => True)
      (respondToCeremonyIntervention instanceId interventionId roleId roleKind content)
      (fun _ _ => True) := by
  refine working_safe fun loaded d => now_safe (stable_inHand loaded d) fun now => ?_
  refine operate_safe fun _ session hs => checked_safe fun f hf => storing_safe ?_ (by simp)
  exact .responded (respond_effect hs) (seatFact_tells hf)

theorem closeCeremonyIntervention_safe (instanceId : CeremonyId)
    (interventionId : CeremonyInterventionId) (roleId : RoleId) (roleKind : AuditActorKind) :
    SafeE (exec env) (protocol env rule) (fun _ => True)
      (closeCeremonyIntervention instanceId interventionId roleId roleKind) (fun _ _ => True) := by
  refine working_safe fun loaded d => now_safe (stable_inHand loaded d) fun now => ?_
  refine operate_safe fun _ session hs => checked_safe fun f hf => storing_safe ?_ (by simp)
  exact .closed (closeIntervention_effect hs) (seatFact_tells hf)

theorem collectCeremonyEvidence_safe (instanceId : CeremonyId)
    (interventionId : CeremonyInterventionId) (roleId : RoleId) (roleKind : AuditActorKind)
    (sourceId : CeremonyEvidenceSourceId) (query : CeremonyInterventionContent) :
    SafeE (exec env) (protocol env rule) (fun _ => True)
      (collectCeremonyEvidence instanceId interventionId roleId roleKind sourceId query)
      (fun _ _ => True) := by
  refine working_safe fun loaded d => checked_safe fun request hrequest => ?_
  refine SafeE.bind (perhaps_safe rfl (fun _ _ _ he => he) (stable_inHand loaded d)) fun pack => ?_
  refine checked_safe fun _ hmatches => now_safe (stable_inHand loaded d) fun now => ?_
  refine operate_safe fun _ session hs => checked_safe fun facts hfacts => storing_safe ?_ (by simp)
  exact collected_did (respondWithEvidence_effect hs) (collected_source hrequest hmatches) hfacts

theorem assertCeremonyReason_safe (instanceId : CeremonyId) (roleId : RoleId)
    (roleKind : AuditActorKind) (fromRecord toRecord : CeremonyRecordRef) (kind : CeremonyReasonKind)
    (why : String) (confidence : MemoryConfidence) :
    SafeE (exec env) (protocol env rule) (fun _ => True)
      (assertCeremonyReason instanceId roleId roleKind fromRecord toRecord kind why confidence)
      (fun _ _ => True) := by
  refine working_safe fun loaded d => now_safe (stable_inHand loaded d) fun now => ?_
  refine operate_safe fun _ session hs => checked_safe fun f hf => storing_safe ?_ (by simp)
  exact .asserted (assertReason_effect hs) (seatFact_tells hf)

end UseCases

section Runners

/-- What a runner knows while its handler is at work. -/
def Working (claimed : LoadedSession) (d : CeremonyDefinition) (stepId : StepId)
    (key : IdempotencyKey) (attempt : StepAttempt) (w : World Deed) : Prop :=
  InHand claimed d w ∧ OnRecord (Grants claimed.session.id stepId key attempt) w

theorem stable_working (claimed : LoadedSession) (d : CeremonyDefinition) (stepId : StepId)
    (key : IdempotencyKey) (attempt : StepAttempt) :
    Stable (protocol env rule) (Working claimed d stepId key attempt) :=
  (stable_inHand claimed d).and (stable_onRecord _)

variable {stepId : StepId} {roleId : RoleId} {kind : AuditActorKind}

theorem claim_safe {lease : StepLease} {now : OffsetDateTime} {attempt : StepAttempt}
    {session : CeremonyInstance} {f : AuditFact}
    (hs : Succeeds (CeremonyInstance.startStepAs d roleId stepId lease now) loaded.session attempt
      session)
    (hf : stepStarted session stepId attempt roleId kind now = .ok f) :
    SafeE (exec env) (protocol env rule) (InHand loaded d)
      (commit ⟨session, loaded.expected⟩ [f] loaded.session
        ⟨d, .startedStep stepId lease.idempotencyKey attempt⟩)
      (fun l => Working l d stepId lease.idempotencyKey attempt) := by
  obtain ⟨effect, record, hrecord, numbered⟩ := startStepAs_effect hs
  refine (commit_inHand (fun _ hw => hw)
    (.startedStep effect hrecord numbered (seatFact_tells hf)) (by simp)).mono
    (fun _ _ hw => hw) (fun l w _ hl => ?_)
  obtain ⟨rfl, hinHand, hrecorded⟩ := hl
  exact ⟨hinHand, hrecorded⟩

theorem executeHandler_safe (hK : Stable (protocol env rule) K)
    (request : CeremonyStepHandlerRequest) :
    SafeE (exec env) (protocol env rule) K (executeHandler request) (fun _ => K) := by
  refine external_safe (c := .execute request) (fun _ _ _ he => he) hK fun outcome => ?_
  cases outcome with
  | ok result => exact SafeE.pure fun _ _ hw => hw
  | error e =>
    dsimp only
    generalize (do
      let message : StepErrorMessage ← Text.new e.toString
      StepResult.failed message : Except DomainError StepResult) = x
    cases x with
    | ok result => exact SafeE.pure fun _ _ hw => hw
    | error e' => exact SafeE.throw e'

theorem finishStep_safe {claimed : LoadedSession} {attempt : StepAttempt} {key : IdempotencyKey}
    (result : StepResult) :
    SafeE (exec env) (protocol env rule) (Working claimed d stepId key attempt)
      (finishStep d claimed.session.id stepId attempt key result roleId kind)
      (fun l => InHand l d) := by
  have hworking := @stable_working env claimed d stepId key attempt
  refine SafeE.andThen hworking (load_safe claimed.session.id) fun loaded => ?_
  refine now_safe (((stable_const _).and (stable_knows loaded)).and hworking) fun finishedAt => ?_
  refine operate_safe fun _ session hs => checked_safe fun f hf => ?_
  have did : Did d (some loaded.session) (.finishedStep stepId attempt result.status (some key))
      session [f] :=
    .finishedStep (applyStepResult_effect hs) (by simp) (seatFact_tells hf)
  refine (commit_inHand (fun w hw => ?_) did fun stepId' attempt' _ key' hact w hw => ?_).mono
    (fun _ _ hw => hw) (fun l w _ hl => hl.2.1)
  · obtain ⟨⟨hid, hknows⟩, ⟨hclaimed, hresolved⟩, -⟩ := hw
    exact ⟨hknows, resolved_of_ident (ident_of_knows hknows hclaimed hid) hresolved⟩
  · obtain ⟨⟨hid, -⟩, -, hrecorded⟩ := hw
    simp only [Act.finishedStep.injEq, Option.some.injEq] at hact
    obtain ⟨rfl, rfl, -, rfl⟩ := hact
    have hsame : session.id = loaded.session.id := congrArg Prod.fst did.ident
    rw [hsame, hid]
    exact hrecorded

theorem runCeremonyStep_safe (instanceId : CeremonyId) (roleId : RoleId)
    (roleKind : AuditActorKind) (stepId : StepId) (leaseOwnerId : LeaseOwnerId)
    (idempotencyKey : IdempotencyKey) (leaseTtl : DurationMs) :
    SafeE (exec env) (protocol env rule) (fun _ => True)
      (runCeremonyStep instanceId roleId roleKind stepId leaseOwnerId idempotencyKey leaseTtl)
      (fun _ _ => True) := by
  refine working_safe fun loaded d => checked_safe fun step _ => ?_
  refine now_safe (stable_inHand loaded d) fun now => checked_safe fun lease _ => ?_
  refine operate_safe fun attempt session hs => checked_safe fun started hf => ?_
  refine SafeE.bind (claim_safe hs hf) fun claimed => ?_
  have hworking := @stable_working env claimed d stepId lease.idempotencyKey attempt
  refine SafeE.bind (perhaps_safe rfl (fun _ _ _ he => he) hworking) fun transcript => ?_
  refine SafeE.bind (executeHandler_safe hworking _) fun result => ?_
  refine SafeE.bind (finishStep_safe result) fun refreshed => ?_
  split
  · refine SafeE.bind (perhaps_safe rfl (fun _ _ _ he => he) (stable_inHand refreshed d)) fun _ => ?_
    exact SafeE.pure fun _ _ _ => trivial
  · exact SafeE.pure fun _ _ _ => trivial

variable {leaseOwnerId : LeaseOwnerId} {leaseTtl : DurationMs} {actorKind : AuditActorKind}

theorem runStep_safe (traceIndex : Nat) (transcript : CeremonyTranscript) :
    SafeE (exec env) (protocol env rule) (InHand loaded d)
      (runStep d leaseOwnerId leaseTtl actorKind loaded roleId stepId traceIndex transcript)
      (fun r => InHand r.1 d) := by
  refine checked_safe fun step _ => now_safe (stable_inHand loaded d) fun now => ?_
  refine checked_safe fun key _ => checked_safe fun lease _ => ?_
  refine operate_safe fun attempt session hs => checked_safe fun claim hf => ?_
  refine SafeE.bind (claim_safe hs hf) fun claimed => ?_
  have hworking := @stable_working env claimed d stepId lease.idempotencyKey attempt
  refine SafeE.bind (executeHandler_safe hworking _) fun result => ?_
  exact SafeE.bind (finishStep_safe result) fun finished => SafeE.pure fun _ _ hw => hw

theorem runSteps_safe (id : CeremonyId) (stateId : StateId) (steps : List StepId)
    (loaded : LoadedSession) (traces : List CeremonyStepTrace) :
    SafeE (exec env) (protocol env rule) (InHand loaded d)
      (runSteps d leaseOwnerId leaseTtl actorKind id stateId steps loaded traces)
      (fun r => InHand r.1 d) := by
  induction steps generalizing loaded traces with
  | nil => exact SafeE.pure fun _ _ hw => hw
  | cons stepId rest ih =>
    unfold runSteps
    split
    · exact ih loaded traces
    · refine checked_safe fun roleId _ => ?_
      refine SafeE.bind (perhaps_safe rfl (fun _ _ _ he => he) (stable_inHand loaded d)) fun _ => ?_
      refine lap_safe (stable_inHand loaded d) fun _ => ?_
      refine SafeE.bind (runStep_safe _ _) fun ⟨done, attempt, result⟩ => ?_
      refine lap_safe (stable_inHand done d) fun _ => ?_
      have hrest (traces : List CeremonyStepTrace) :
          SafeE (exec env) (protocol env rule) (InHand done d) (do
            checked (require result.status.isSuccess
              (.invariantViolated "ceremony step did not complete successfully"))
            runSteps d leaseOwnerId leaseTtl actorKind id stateId rest done traces)
            (fun r => InHand r.1 d) :=
        checked_safe fun _ _ => ih done traces
      dsimp only
      split
      · refine SafeE.bind (perhaps_safe rfl (fun _ _ _ he => he) (stable_inHand done d)) fun _ => ?_
        exact hrest _
      · exact hrest _

theorem moveAlong_safe (stateId : StateId) (loaded : LoadedSession) :
    SafeE (exec env) (protocol env rule) (InHand loaded d)
      (moveAlong d actorKind stateId loaded) (fun l => InHand l d) := by
  refine checked_safe fun transition _ => checked_safe fun roleId _ => ?_
  refine now_safe (stable_inHand loaded d) fun movedAt => operate_safe fun state session hs => ?_
  refine checked_safe fun moved hmoved => ?_
  exact (commit_inHand (fun _ hw => hw) (moved_did (applyTransitionAs_effect hs).1 hmoved)
    (by simp)).mono (fun _ _ hw => hw) (fun l w _ hl => hl.2.1)

theorem drive_safe (id : CeremonyId) (n : Nat) (loaded : LoadedSession)
    (traces : List CeremonyStepTrace) :
    SafeE (exec env) (protocol env rule) (InHand loaded d)
      (drive d leaseOwnerId leaseTtl actorKind id n loaded traces) (fun _ _ => True) := by
  induction n generalizing loaded traces with
  | zero => exact SafeE.throw _
  | succ n ih =>
    unfold drive
    split
    · exact lap_safe (stable_inHand loaded d) fun _ => SafeE.pure fun _ _ _ => trivial
    · refine SafeE.bind (runSteps_safe id _ _ loaded traces) fun ⟨done, more⟩ => ?_
      dsimp only
      split
      · exact lap_safe (stable_inHand done d) fun _ => SafeE.pure fun _ _ _ => trivial
      · exact SafeE.bind (moveAlong_safe _ done) fun l => ih l more

theorem runCeremony_safe (id : CeremonyId) (context : CeremonyContext) (actorId : String) :
    SafeE (exec env) (protocol env rule) (fun _ => True)
      (runCeremony d leaseOwnerId leaseTtl actorKind id context actorId) (fun _ _ => True) := by
  have hload : Safe (exec env) (protocol env rule) (fun _ => True) (load id).run
      (fun _ _ => True) :=
    Safe.mono (load_safe id).run (fun _ _ h => h) (fun _ _ _ _ => trivial)
  refine SafeE.bind (SafeE.lift hload) fun found => ?_
  split
  · refine SafeE.bind (saveDefinition_safe d) fun _ => ?_
    refine now_safe (fun _ _ _ _ hg h => hg.2.definitions.subset h) fun startedAt => ?_
    refine checked_safe fun started hf => ?_
    exact SafeE.bind (opening_safe hf fun w hw => hw) fun loaded => drive_safe id _ loaded []
  · exact SafeE.throw _

end Runners

/-- Every use case that works on sessions. -/
inductive Spawn : Prog (calls Deed) Unit → Prop
  | start (id : CeremonyId) (name : CeremonyName) (version : CeremonyVersion)
      (context : CeremonyContext) (actorId : String) (actorKind : AuditActorKind) :
      Spawn (client (startCeremony id name version context actorId actorKind))
  | startPublished (id : CeremonyId) (name : CeremonyName) (version : CeremonyVersion)
      (context : CeremonyContext) (actorId : String) (actorKind : AuditActorKind) :
      Spawn (client (startPublishedCeremony id name version context actorId actorKind))
  | run (d : CeremonyDefinition) (leaseOwnerId : LeaseOwnerId) (leaseTtl : DurationMs)
      (actorKind : AuditActorKind) (id : CeremonyId) (context : CeremonyContext)
      (actorId : String) :
      Spawn (client (runCeremony d leaseOwnerId leaseTtl actorKind id context actorId))
  | startStep (id : CeremonyId) (roleId : RoleId) (roleKind : AuditActorKind) (stepId : StepId)
      (leaseOwnerId : LeaseOwnerId) (key : IdempotencyKey) (leaseTtl : DurationMs) :
      Spawn (client (startCeremonyStep id roleId roleKind stepId leaseOwnerId key leaseTtl))
  | completeStep (id : CeremonyId) (stepId : StepId) (result : StepResult)
      (actorKind : AuditActorKind) :
      Spawn (client (completeCeremonyStep id stepId result actorKind))
  | runStep (id : CeremonyId) (roleId : RoleId) (roleKind : AuditActorKind) (stepId : StepId)
      (leaseOwnerId : LeaseOwnerId) (key : IdempotencyKey) (leaseTtl : DurationMs) :
      Spawn (client (runCeremonyStep id roleId roleKind stepId leaseOwnerId key leaseTtl))
  | transition (id : CeremonyId) (roleId : RoleId) (roleKind : AuditActorKind)
      (trigger : TransitionTrigger) :
      Spawn (client (applyCeremonyTransition id roleId roleKind trigger))
  | approve (id : CeremonyId) (guardName : GuardName) (roleId : RoleId)
      (roleKind : AuditActorKind) :
      Spawn (client (approveCeremonyGuard id guardName roleId roleKind))
  | deferral (id : CeremonyId) (guardName : GuardName) (roleId : RoleId)
      (roleKind : AuditActorKind) (content : CeremonyGuardDeferralContent) :
      Spawn (client (deferCeremonyGuard id guardName roleId roleKind content))
  | bindParticipants (id : CeremonyId) (seating : Seating) (actorId : String)
      (actorKind : AuditActorKind) :
      Spawn (client (bindCeremonyParticipants id seating actorId actorKind))
  | request (id : CeremonyId) (interventionId : CeremonyInterventionId) (roleId : RoleId)
      (roleKind : AuditActorKind) (kind : CeremonyInterventionKind)
      (target : CeremonyInterventionTarget) (content : CeremonyInterventionContent)
      (provenance : Option CeremonyInterventionProvenance) :
      Spawn (client (requestCeremonyIntervention id interventionId roleId roleKind kind target
        content provenance))
  | respond (id : CeremonyId) (interventionId : CeremonyInterventionId) (roleId : RoleId)
      (roleKind : AuditActorKind) (content : CeremonyInterventionContent) :
      Spawn (client (respondToCeremonyIntervention id interventionId roleId roleKind content))
  | close (id : CeremonyId) (interventionId : CeremonyInterventionId) (roleId : RoleId)
      (roleKind : AuditActorKind) :
      Spawn (client (closeCeremonyIntervention id interventionId roleId roleKind))
  | collect (id : CeremonyId) (interventionId : CeremonyInterventionId) (roleId : RoleId)
      (roleKind : AuditActorKind) (sourceId : CeremonyEvidenceSourceId)
      (query : CeremonyInterventionContent) :
      Spawn (client (collectCeremonyEvidence id interventionId roleId roleKind sourceId query))
  | assertReason (id : CeremonyId) (roleId : RoleId) (roleKind : AuditActorKind)
      (fromRecord toRecord : CeremonyRecordRef) (kind : CeremonyReasonKind) (why : String)
      (confidence : MemoryConfidence) :
      Spawn (client (assertCeremonyReason id roleId roleKind fromRecord toRecord kind why
        confidence))

/-- Any number of use cases, in any interleaving of their calls. -/
abbrev Runs (env : Rendering) : Config (calls Deed) (World Deed) → Prop :=
  Reachable (exec env) Spawn Drift World.empty

theorem spawn_safe {p : Prog (calls Deed) Unit} (h : Spawn p) :
    Safe (exec env) (protocol env rule) (fun _ => True) p (fun _ _ => True) := by
  cases h with
  | start => exact client_safe (startCeremony_safe ..)
  | startPublished => exact client_safe (startPublishedCeremony_safe ..)
  | run => exact client_safe (runCeremony_safe ..)
  | startStep => exact client_safe (startCeremonyStep_safe ..)
  | completeStep => exact client_safe (completeCeremonyStep_safe ..)
  | runStep => exact client_safe (runCeremonyStep_safe ..)
  | transition => exact client_safe (applyCeremonyTransition_safe ..)
  | approve => exact client_safe (approveCeremonyGuard_safe ..)
  | deferral => exact client_safe (deferCeremonyGuard_safe ..)
  | bindParticipants => exact client_safe (bindCeremonyParticipants_safe ..)
  | request => exact client_safe (requestCeremonyIntervention_safe ..)
  | respond => exact client_safe (respondToCeremonyIntervention_safe ..)
  | close => exact client_safe (closeCeremonyIntervention_safe ..)
  | collect => exact client_safe (collectCeremonyEvidence_safe ..)
  | assertReason => exact client_safe (assertCeremonyReason_safe ..)

/-- Whatever the interleaving, every commit on record that landed is one of the
deeds of the use cases, under a definition that its session resolves to. -/
theorem inv_of_runs {c : Config (calls Deed) (World Deed)} (h : Runs env c) :
    (protocol env rule).inv c.world :=
  inv_of_clients rule_mono (fun _ => spawn_safe) h

end Choreographer.UseCaseRuns
