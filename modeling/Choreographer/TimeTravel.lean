import Choreographer.GuardMemory
import Choreographer.DanglingReasons

namespace Choreographer.TimeTravel

open Choreographer.Lib.SortedMaps Choreographer.Lib.Updates Choreographer.Lib.Runs
open Choreographer.Texts Choreographer.Values Choreographer.DefinitionParts Choreographer.Definition
open Choreographer.Agenda Choreographer.Instance Choreographer.Operations Choreographer.Works
open Choreographer.MemoryValues Choreographer.SessionMemory Choreographer.MemoryProjection
open Choreographer.MemoryRecorder Choreographer.MemoryRuns Choreographer.MemoryShelves
open Choreographer.GuardMemory Choreographer.ReasonGraph Choreographer.SessionRecords

variable {i i' : CeremonyInstance} {shelf : Remembered} {v : Visit}

/-- A memory that takes every write has an entry for every guard that it could have one for. -/
structure CaughtUp (i : CeremonyInstance) (shelf : Remembered) : Prop where
  filed : Filed i shelf
  guards : ∀ guardName entry, (∃ scope, MemoryScope.ofCeremony i.id = .ok scope) →
    guardEntry i (.guardDecision guardName) = .ok (some entry) → shelf.Holds entry.id

theorem guardEntry_congr {guardName : GuardName} (hid : i'.id = i.id)
    (happrovals : (i'.guardApprovals.find? fun approval => approval.guardName = guardName) =
      i.guardApprovals.find? fun approval => approval.guardName = guardName)
    (hdeferrals : (i'.guardDeferrals.find? fun deferral => deferral.guardName = guardName) =
      i.guardDeferrals.find? fun deferral => deferral.guardName = guardName) :
    guardEntry i' (.guardDecision guardName) = guardEntry i (.guardDecision guardName) := by
  simp only [guardEntry, approvalEntry, deferralEntry, provenance, hid, happrovals, hdeferrals]

theorem guardEntry_other {guardName : GuardName} (hcommit : v.commits i = some i')
    (hother : ∀ x, decisionOf v.work = some x → x.guardName ≠ guardName) :
    guardEntry i' (.guardDecision guardName) = guardEntry i (.guardDecision guardName) := by
  have hid := commits_id hcommit
  cases hx : decisionOf v.work with
  | none =>
    obtain ⟨happrovals, hdeferrals⟩ := undecided_commit hcommit hx
    exact guardEntry_congr hid (by rw [happrovals]) (by rw [hdeferrals])
  | some x =>
    have hne := hother x hx
    obtain ⟨roleKind, hwork, -⟩ | ⟨roleKind, content, hwork, -⟩ := decisionOf_cases hx
    · obtain ⟨happrovals, hdeferrals⟩ := approved_commit hcommit hwork
      apply guardEntry_congr hid
      · simp [happrovals, List.find?_append, hne]
      · rw [hdeferrals]
    · obtain ⟨happrovals, hdeferrals⟩ := deferred_commit hcommit hwork
      apply guardEntry_congr hid
      · rw [happrovals]
      · simp [hdeferrals, List.find?_append, hne]

theorem caughtUp_leaves (hkept : v.kept = true) (hcommit : v.commits i = some i')
    (h : CaughtUp i shelf) : CaughtUp i' (v.leaves i' shelf) := by
  refine ⟨filed_leaves hcommit h.filed, ?_⟩
  intro guardName entry hscope hentry
  have hname := (guardEntry_ok hentry).1
  rw [commits_id hcommit] at hscope
  rw [holds_leaves hcommit h.filed hscope (memorable_guard guardName) hname]
  by_cases hdecides : ∃ x, decisionOf v.work = some x ∧ x.guardName = guardName
  · obtain ⟨x, hx, rfl⟩ := hdecides
    refine .inr ⟨hkept, entry, .decision ?_ hentry⟩
    obtain ⟨_, hwork, -⟩ | ⟨_, _, hwork, -⟩ := decisionOf_cases hx
    · exact .inl ⟨_, _, hwork⟩
    · exact .inr ⟨_, _, _, hwork⟩
  · rw [guardEntry_other hcommit fun x hx hguard => hdecides ⟨x, hx, hguard⟩] at hentry
    exact .inl (h.guards guardName entry hscope hentry)

theorem caughtUp_opened (id : CeremonyId) (d : CeremonyDefinition) (context : CeremonyContext)
    (now : OffsetDateTime) (bound : Option CeremonyDefinitionDigest) :
    CaughtUp (CeremonyInstance.opened id d context now bound) Remembered.empty where
  filed := filed_opened id d context now bound
  guards guardName entry _ h := by
    have hnone : guardEntry (CeremonyInstance.opened id d context now bound)
        (.guardDecision guardName) = .ok none := rfl
    rw [hnone] at h
    simp at h

section Dates

variable {entry : MemoryEntry}

theorem answered_last {d : CeremonyDefinition} {op : Operation} {now : OffsetDateTime}
    {agendaItem : CeremonyInterventionId} {item : CeremonyIntervention} (h : Effect d i op i')
    (hop : (∃ roleId content, op = .respondToIntervention agendaItem roleId content now) ∨
      ∃ roleId pack, op = .respondToInterventionWithEvidence agendaItem roleId pack now)
    (hitem : i'.intervention agendaItem = some item) :
    ∃ earlier new, item.responses = earlier ++ [new] ∧ new.respondedAt = now := by
  have hreplaced {before after : List CeremonyIntervention} {old new : CeremonyIntervention}
      (hfound : (answered old.id now i before after new).intervention old.id = some item)
      (hid : new.id = old.id) (firstSuch : ∀ other ∈ before, other.id ≠ old.id) : new = item :=
    Option.some.inj ((intervention_replaced i after hid firstSuch).symm.trans hfound)
  obtain ⟨roleId, content, rfl⟩ | ⟨roleId, pack, rfl⟩ := hop
  · cases h with
    | respond active allowed hitems hid firstSuch =>
      subst hid
      obtain rfl := hreplaced hitem rfl firstSuch
      exact ⟨_, _, rfl, rfl⟩
  · cases h with
    | respondWithEvidence active allowed hitems hid firstSuch =>
      subst hid
      obtain rfl := hreplaced hitem rfl firstSuch
      exact ⟨_, _, rfl, rfl⟩

theorem observed_contribution {agendaItem : CeremonyInterventionId} {item : CeremonyIntervention}
    {ordinal : U32} (hcommit : v.commits i = some i')
    (hwork : (∃ roleId roleKind content, v.work = .respond agendaItem roleId roleKind content) ∨
      ∃ roleId roleKind sourceId evidencePack,
        v.work = .collect agendaItem roleId roleKind sourceId evidencePack)
    (hitem : i'.intervention agendaItem = some item)
    (hordinal : CeremonyInstance.lastOrdinal item.responses = some ordinal)
    (hentry : contributionEntry i' (.contribution agendaItem ordinal) = .ok (some entry)) :
    entry.provenance.observedAt = v.now := by
  obtain ⟨-, found, response, hfound, hresponse, hprovenance⟩ := contributionEntry_ok hentry
  rw [hitem] at hfound
  obtain rfl := Option.some.inj hfound
  have hlast : item.responses.getLast? = some response := by
    have hlen := lastOrdinal_eq_some.mp hordinal
    rw [List.getLast?_eq_getElem?, hlen]
    exact hresponse
  have hnew : ∃ earlier new, item.responses = earlier ++ [new] ∧ new.respondedAt = v.now := by
    obtain ⟨roleId, roleKind, content, hwork⟩ | ⟨roleId, roleKind, sourceId, pack, hwork⟩ := hwork
    · refine answered_last (commits_effect hcommit ?_) (.inl ⟨roleId, content, rfl⟩) hitem
      rw [hwork]
      rfl
    · refine answered_last (commits_effect hcommit ?_) (.inr ⟨roleId, pack, rfl⟩) hitem
      rw [hwork]
      rfl
  obtain ⟨earlier, new, hresponses, hnow⟩ := hnew
  rw [hresponses, List.getLast?_concat] at hlast
  rw [hprovenance, ← Option.some.inj hlast]
  exact hnow

theorem guardEntry_approved {guardName : GuardName} {approval : CeremonyGuardApproval}
    (hcommit : v.commits i = some i')
    (happroval : (i.guardApprovals.find? fun approval => approval.guardName = guardName) =
      some approval) :
    guardEntry i' (.guardDecision guardName) = guardEntry i (.guardDecision guardName) := by
  have happroval' := (commits_onward hcommit).approvals.find?_eq_some happroval
  simp only [guardEntry, happroval, happroval', approvalEntry, provenance, commits_id hcommit]

/-- The entry of a guard, where there was another or none before, is about the decision just
made. -/
theorem observed_decision {x : Decision} (hcommit : v.commits i = some i')
    (hx : decisionOf v.work = some x)
    (hentry : guardEntry i' (.guardDecision x.guardName) = .ok (some entry))
    (hbefore : guardEntry i (.guardDecision x.guardName) ≠ .ok (some entry)) :
    entry.provenance.observedAt = v.now := by
  have hid := commits_id hcommit
  have hnew : guardEntry i' (.guardDecision x.guardName) ≠
      guardEntry i (.guardDecision x.guardName) := fun h => hbefore (h.symm.trans hentry)
  have hnone : (i.guardApprovals.find? fun approval => approval.guardName = x.guardName) = none := by
    cases hold : i.guardApprovals.find? fun approval => approval.guardName = x.guardName with
    | none => rfl
    | some approval => exact absurd (guardEntry_approved hcommit hold) hnew
  obtain ⟨-, hcase⟩ := guardEntry_ok hentry
  obtain ⟨roleKind, hwork, -⟩ | ⟨roleKind, content, hwork, -⟩ := decisionOf_cases hx
  · obtain ⟨happrovals, -⟩ := approved_commit hcommit hwork
    rw [happrovals, List.find?_append, hnone] at hcase
    simp only [List.find?_cons, decide_true, Option.none_or, Option.some.injEq,
      exists_eq_left', reduceCtorEq, false_and, or_false] at hcase
    rw [hcase.2]
  · obtain ⟨happrovals, hdeferrals⟩ := deferred_commit hcommit hwork
    cases hold : i.guardDeferrals.find? fun deferral => deferral.guardName = x.guardName with
    | some deferral =>
      refine absurd (guardEntry_congr hid (by rw [happrovals]) ?_) hnew
      rw [hdeferrals, List.find?_append, hold, Option.some_or]
    | none =>
      rw [happrovals, hnone, hdeferrals, List.find?_append, hold] at hcase
      simp only [List.find?_cons, decide_true, Option.none_or, Option.some.injEq,
        exists_eq_left', reduceCtorEq, false_and, exists_false, true_and, false_or] at hcase
      rw [hcase.2]

theorem observed_ending {d : CeremonyDefinition} {record : CeremonyRecordRef} {roleId : RoleId}
    {roleKind : AuditActorKind} {trigger : TransitionTrigger} (hcommit : v.commits i = some i')
    (hwork : v.work = .move roleId roleKind trigger)
    (hentry : endingEntry i' d = .ok (some (record, entry))) :
    entry.provenance.observedAt = v.now := by
  obtain ⟨-, -, ending, hending, hprovenance⟩ := endingEntry_ok hentry
  have hop : operation v.now v.work = some (.applyTransition (some roleId) trigger v.now) := by
    rw [hwork]
    rfl
  cases commits_effect hcommit hop with
  | applyTransition =>
    rw [List.getLast?_concat] at hending
    rw [hprovenance, ← Option.some.inj hending]

theorem observed_now {record : CeremonyRecordRef} {r : MemoryRequest} (hcommit : v.commits i = some i')
    (h : CaughtUp i shelf) (hmakes : Makes v.definition i' v.work record entry)
    (hasks : AsksEntry i' entry r) (hfresh : shelf.keys.contains r.key = false) :
    entry.provenance.observedAt = v.now := by
  have habsent : ¬ shelf.Holds entry.id := by
    rw [← h.filed.keyed record entry.id hmakes.memorable hmakes.named, ← commits_id hcommit,
      ← hasks.key, hfresh]
    simp
  generalize hwork : v.work = work at hmakes
  cases hmakes with
  | contribution hanswer hitem hordinal hentry =>
    rw [← hwork] at hanswer
    exact observed_contribution hcommit hanswer hitem hordinal hentry
  | @decision _ guardName _ hdecides hentry =>
    have hx : ∃ x, decisionOf v.work = some x ∧ x.guardName = guardName := by
      rw [hwork]
      obtain ⟨_, _, rfl⟩ | ⟨_, _, _, rfl⟩ := hdecides
      · exact ⟨_, rfl, rfl⟩
      · exact ⟨_, rfl, rfl⟩
    obtain ⟨x, hx, rfl⟩ := hx
    refine observed_decision hcommit hx hentry fun hbefore => habsent ?_
    refine h.guards x.guardName entry ⟨r.scope, ?_⟩ hbefore
    rw [← commits_id hcommit]
    exact hasks.scope
  | ending hentry => exact observed_ending hcommit hwork hentry

end Dates

/-- What was written since: entries of certain dates, and reasons between certain records. -/
structure Since (dated : OffsetDateTime → Prop) (related : CeremonyRecordRef → CeremonyRecordRef → Prop)
    (shelf shelf' : Remembered) (entries : List MemoryEntry) (relations : List MemoryRelation) :
    Prop where
  entries_eq : shelf'.entries = shelf.entries ++ entries
  relations_eq : shelf'.relations = shelf.relations ++ relations
  dates : ∀ entry ∈ entries, dated entry.provenance.observedAt
  sound : ∀ edge ∈ relations, ∃ fromRecord toRecord, related fromRecord toRecord ∧
    entryId fromRecord = .ok edge.fromEntry ∧ entryId toRecord = .ok edge.toEntry
  complete : ∀ fromRecord toRecord, related fromRecord toRecord → ∃ edge ∈ relations,
    entryId fromRecord = .ok edge.fromEntry ∧ entryId toRecord = .ok edge.toEntry

theorem since_leaves (hkept : v.kept = true) (hcommit : v.commits i = some i')
    (h : CaughtUp i shelf) : ∃ entries relations,
      Since (· = v.now) (Relates i v) shelf (v.leaves i' shelf) entries relations := by
  by_cases hgives : ∃ f t, Relates i v f t
  · obtain ⟨f, t, hrelates⟩ := hgives
    obtain ⟨edge, hf, ht, hentries, hrelations⟩ := leaves_relates hcommit h.filed hkept hrelates
    refine ⟨[], [edge], by rw [hentries, List.append_nil], hrelations, by simp, ?_, ?_⟩
    · intro other hother
      rw [List.mem_singleton.mp hother]
      exact ⟨f, t, hrelates, hf, ht⟩
    · intro f' t' hrelates'
      obtain ⟨⟨_, _, _, _, _, hwork⟩, -⟩ := hrelates
      obtain ⟨⟨_, _, _, _, _, hwork'⟩, -⟩ := hrelates'
      rw [hwork] at hwork'
      obtain ⟨-, -, rfl, rfl, -⟩ := Work.assertReason.inj hwork'
      exact ⟨edge, List.mem_singleton_self _, hf, ht⟩
  · have hnone : ∀ f t, Relates i v f t → ∃ edge ∈ ([] : List MemoryRelation),
        entryId f = .ok edge.fromEntry ∧ entryId t = .ok edge.toEntry :=
      fun f t hrelates => absurd ⟨f, t, hrelates⟩ hgives
    rcases leaves_cases hcommit shelf with hsame | ⟨_, entry, r, hmakes, hasks, -, hkey, hleaves⟩ |
      ⟨-, hg⟩
    · exact ⟨[], [], by simp [hsame], by simp [hsame], by simp, by simp, hnone⟩
    · refine ⟨[entry], [], ?_, ?_, ?_, by simp, hnone⟩
      · rw [hleaves, Remembered.extend_fresh hkey, hasks.entries]
      · rw [hleaves, Remembered.extend_fresh hkey, hasks.relations]
      · intro other hother
        rw [List.mem_singleton.mp hother]
        exact observed_now hcommit h hmakes hasks hkey
    · exact absurd hg hgives

/-- The event gives a reason in this session. -/
def RelatesIn (w : World) (id : CeremonyId) (e : Event) (fromRecord toRecord : CeremonyRecordRef) :
    Prop :=
  ∃ v i, e = .calls v ∧ v.id = id ∧ w.sessions id = some i ∧ (v.commits i).isSome = true ∧
    Relates i v fromRecord toRecord

theorem since_refl {dated : OffsetDateTime → Prop}
    {related : CeremonyRecordRef → CeremonyRecordRef → Prop}
    (hnone : ∀ fromRecord toRecord, ¬ related fromRecord toRecord) (shelf : Remembered) :
    Since dated related shelf shelf [] [] :=
  ⟨by simp, by simp, by simp, by simp, fun f t h => absurd h (hnone f t)⟩

theorem since_after {w : World} (hw : Lawful w) (hcaught : AllSessions CaughtUp w) {e : Event}
    (he : e.Kept) (id : CeremonyId) : ∃ entries relations,
      Since (· = e.now) (RelatesIn w id e) (w.held id) ((e.after w).held id) entries relations := by
  cases e with
  | opens other d context now bound =>
    have hsame : ((Event.opens other d context now bound).after w).held id = w.held id := by
      cases hs : w.sessions other with
      | none => exact held_after_opens hs d context now bound id
      | some i =>
        rw [Event.after]
        simp only [hs]
    rw [hsame]
    refine ⟨[], [], since_refl ?_ _⟩
    rintro f t ⟨v, i, hcalls, -⟩
    simp at hcalls
  | calls v =>
    cases hc : (w.sessions v.id).bind v.commits with
    | none =>
      rw [after_calls_idle hc]
      refine ⟨[], [], since_refl ?_ _⟩
      rintro f t ⟨v', i, hcalls, rfl, hi, hsome, -⟩
      obtain rfl := Event.calls.inj hcalls
      obtain ⟨i', hcommit⟩ := Option.isSome_iff_exists.mp hsome
      simp [hi, hcommit] at hc
    | some i' =>
      obtain ⟨i, hi, hcommit⟩ := Option.bind_eq_some_iff.mp hc
      rw [held_after_commit hi hcommit hw]
      split_ifs with hid
      · subst hid
        obtain ⟨entries, relations, hsince⟩ := since_leaves he hcommit (hcaught _ _ hi)
        have hiff : RelatesIn w v.id (.calls v) = Relates i v := by
          funext f t
          apply propext
          constructor
          · rintro ⟨v', j, hcalls, -, hj, -, hrelates⟩
            obtain rfl := Event.calls.inj hcalls
            rw [hi] at hj
            rwa [Option.some.inj hj]
          · exact fun hrelates => ⟨v, i, rfl, rfl, hi, by rw [hcommit]; rfl, hrelates⟩
        rw [hiff]
        exact ⟨entries, relations, hsince⟩
      · refine ⟨[], [], since_refl ?_ _⟩
        rintro f t ⟨v', j, hcalls, rfl, -⟩
        obtain rfl := Event.calls.inj hcalls
        exact hid rfl

theorem Since.trans {dated dated' dated'' : OffsetDateTime → Prop}
    {related related' related'' : CeremonyRecordRef → CeremonyRecordRef → Prop}
    {a b c : Remembered} {entries entries' : List MemoryEntry}
    {relations relations' : List MemoryRelation} (h : Since dated related a b entries relations)
    (h' : Since dated' related' b c entries' relations')
    (hdated : ∀ t, dated t ∨ dated' t → dated'' t)
    (hrelated : ∀ f t, related'' f t ↔ related f t ∨ related' f t) :
    Since dated'' related'' a c (entries ++ entries') (relations ++ relations') where
  entries_eq := by rw [h'.entries_eq, h.entries_eq, List.append_assoc]
  relations_eq := by rw [h'.relations_eq, h.relations_eq, List.append_assoc]
  dates entry hentry := by
    apply hdated
    exact (List.mem_append.mp hentry).imp (h.dates entry) (h'.dates entry)
  sound edge hedge := by
    rcases List.mem_append.mp hedge with hold | hnew
    · obtain ⟨f, t, hr, hends⟩ := h.sound edge hold
      exact ⟨f, t, (hrelated f t).mpr (.inl hr), hends⟩
    · obtain ⟨f, t, hr, hends⟩ := h'.sound edge hnew
      exact ⟨f, t, (hrelated f t).mpr (.inr hr), hends⟩
  complete f t hr := by
    rcases (hrelated f t).mp hr with hr | hr
    · obtain ⟨edge, hedge, hends⟩ := h.complete f t hr
      exact ⟨edge, List.mem_append_left _ hedge, hends⟩
    · obtain ⟨edge, hedge, hends⟩ := h'.complete f t hr
      exact ⟨edge, List.mem_append_right _ hedge, hends⟩

theorem caughtUp_run (events : List Event) (hkept : ∀ e ∈ events, e.Kept) :
    AllSessions CaughtUp (run Event.after events World.new) :=
  @allSessions_run CaughtUp Event.Kept caughtUp_opened
    (fun _ _ _ _ hkept hcommit h => caughtUp_leaves hkept hcommit h) events hkept

/-- Some event of the run gives a reason in this session. -/
def RelatesAmong (early late : List Event) (id : CeremonyId)
    (fromRecord toRecord : CeremonyRecordRef) : Prop :=
  ∃ before e later, late = before ++ e :: later ∧
    RelatesIn (run Event.after (early ++ before) World.new) id e fromRecord toRecord

theorem since_run (early late : List Event) (hkept : ∀ e ∈ early ++ late, e.Kept)
    (id : CeremonyId) : ∃ entries relations,
      Since (fun t => ∃ e ∈ late, t = e.now) (RelatesAmong early late id)
        ((run Event.after early World.new).held id)
        ((run Event.after (early ++ late) World.new).held id) entries relations := by
  induction late using List.reverseRecOn with
  | nil =>
    rw [List.append_nil]
    refine ⟨[], [], since_refl ?_ _⟩
    rintro f t ⟨before, e, later, h, -⟩
    simp at h
  | append_singleton late e ih =>
    have hbefore : ∀ d ∈ early ++ late, d.Kept := by
      intro d hd
      apply hkept
      rw [← List.append_assoc]
      exact List.mem_append_left _ hd
    obtain ⟨entries, relations, hsince⟩ := ih hbefore
    obtain ⟨entries', relations', hlast⟩ := since_after (lawful_run (early ++ late))
      (caughtUp_run (early ++ late) hbefore) (hkept e (by simp)) id
    refine ⟨entries ++ entries', relations ++ relations', ?_⟩
    rw [← List.append_assoc, run_concat]
    apply hsince.trans hlast
    · rintro t (⟨d, hd, ht⟩ | ht)
      · exact ⟨d, List.mem_append_left _ hd, ht⟩
      · exact ⟨e, List.mem_append_right _ (List.mem_singleton_self e), ht⟩
    · intro f t
      exact exists_split_concat

def heldAt (events : List Event) (moment : OffsetDateTime) (id : CeremonyId) : Remembered :=
  (run Event.after (events.filter fun e => e.now ≤ moment) World.new).held id

/-- Memory shows of a session and a moment what was known then, and nothing else. -/
def ShowsWhatWasKnown (events : List Event) (id : CeremonyId) (moment : OffsetDateTime) : Prop :=
  ∀ scope, MemoryScope.ofCeremony id = .ok scope →
    (run Event.after events World.new).memory.asKnownAt scope moment =
      .recalled (heldAt events moment id).entries
        (InProcessSessionMemory.between (heldAt events moment id).relations
          (heldAt events moment id).entries)

section Moments

variable {events early late : List Event} {moment : OffsetDateTime} {id : CeremonyId}

theorem split_at (hclock : events.Pairwise fun a b => a.now ≤ b.now) (moment : OffsetDateTime) :
    ∃ late, events = (events.filter fun e => e.now ≤ moment) ++ late ∧
      ∀ e ∈ late, ¬ e.now ≤ moment := by
  have hclosed : events.Pairwise fun a b =>
      decide (b.now ≤ moment) = true → decide (a.now ≤ moment) = true := by
    refine hclock.imp fun {a b} hle hb => ?_
    rw [decide_eq_true_iff] at hb ⊢
    exact Int.le_trans hle hb
  obtain ⟨late, hsplit, hlate⟩ := filter_append_of_closed hclosed
  exact ⟨late, hsplit, fun e he => of_decide_eq_false (hlate e he)⟩

theorem filter_entries {entries new : List MemoryEntry}
    (hold : ∀ entry ∈ entries, entry.provenance.observedAt ≤ moment)
    (hnew : ∀ entry ∈ new, ¬ entry.provenance.observedAt ≤ moment) :
    ((entries ++ new).filter fun entry => entry.provenance.observedAt ≤ moment) = entries := by
  have hkeeps : (entries.filter fun entry => entry.provenance.observedAt ≤ moment) = entries :=
    List.filter_eq_self.mpr fun entry hentry => decide_eq_true (hold entry hentry)
  have hdrops : (new.filter fun entry => entry.provenance.observedAt ≤ moment) = [] := by
    apply List.filter_eq_nil_iff.mpr
    intro entry hentry h
    exact hnew entry hentry (of_decide_eq_true h)
  rw [List.filter_append, hkeeps, hdrops, List.append_nil]

theorem observed_until (hkept : ∀ e ∈ early, e.Kept) (hearly : ∀ e ∈ early, e.now ≤ moment)
    (id : CeremonyId) : ∀ entry ∈ ((run Event.after early World.new).held id).entries,
      entry.provenance.observedAt ≤ moment := by
  obtain ⟨entries, relations, hsince⟩ := since_run [] early hkept id
  have hnothing : ((run Event.after [] World.new).held id).entries = [] := by
    rw [run_nil, lawful_new.blank id rfl]
    rfl
  have hentries := hsince.entries_eq
  rw [hnothing, List.nil_append, List.nil_append] at hentries
  intro entry hentry
  rw [hentries] at hentry
  obtain ⟨e, he, hnow⟩ := hsince.dates entry hentry
  rw [hnow]
  exact hearly e he

/-- The answer about the moment shows the entries that there were, and of the reasons also
those given later, where their ends are older. -/
theorem asKnownAt_run (hkept : ∀ e ∈ early ++ late, e.Kept)
    (hearly : ∀ e ∈ early, e.now ≤ moment) (hlate : ∀ e ∈ late, ¬ e.now ≤ moment)
    {scope : MemoryScope} (hscope : MemoryScope.ofCeremony id = .ok scope) :
    ∃ entries relations,
      Since (fun t => ∃ e ∈ late, t = e.now) (RelatesAmong early late id)
        ((run Event.after early World.new).held id)
        ((run Event.after (early ++ late) World.new).held id) entries relations ∧
      (run Event.after (early ++ late) World.new).memory.asKnownAt scope moment =
        .recalled ((run Event.after early World.new).held id).entries
          (InProcessSessionMemory.between
            (((run Event.after early World.new).held id).relations ++ relations)
            ((run Event.after early World.new).held id).entries) := by
  obtain ⟨entries, relations, hsince⟩ := since_run early late hkept id
  refine ⟨entries, relations, hsince, ?_⟩
  have hheld : (run Event.after (early ++ late) World.new).memory.held scope =
      (run Event.after (early ++ late) World.new).held id := by
    simp only [World.held, heldOf, hscope]
  have holdDates := observed_until (fun e he => hkept e (List.mem_append_left _ he)) hearly id
  have hnewDates : ∀ entry ∈ entries, ¬ entry.provenance.observedAt ≤ moment := by
    intro entry hentry
    obtain ⟨e, he, hnow⟩ := hsince.dates entry hentry
    rw [hnow]
    exact hlate e he
  rw [InProcessSessionMemory.asKnownAt_eq, hheld, hsince.entries_eq, hsince.relations_eq,
    filter_entries holdDates hnewDates]

theorem between_append (relations later : List MemoryRelation) (visible : List MemoryEntry) :
    InProcessSessionMemory.between (relations ++ later) visible =
      InProcessSessionMemory.between relations visible ++
        InProcessSessionMemory.between later visible := by
  unfold InProcessSessionMemory.between
  exact List.filter_append relations later

/-- Of the reasons given since, none is between visible entries if and only if none was given
between records that have one. -/
theorem between_eq_nil {dated : OffsetDateTime → Prop}
    {related : CeremonyRecordRef → CeremonyRecordRef → Prop} {shelf' visible : Remembered}
    {entries : List MemoryEntry} {relations : List MemoryRelation}
    (h : Since dated related shelf shelf' entries relations) :
    InProcessSessionMemory.between relations visible.entries = [] ↔
      ∀ fromRecord toRecord, related fromRecord toRecord →
        ¬ (Has visible fromRecord ∧ Has visible toRecord) := by
  have hholds {id : MemoryEntryId} :
      visible.Holds id ↔ id ∈ visible.entries.map MemoryEntry.id := List.mem_map.symm
  rw [List.eq_nil_iff_forall_not_mem]
  constructor
  · rintro hnone f t hrelated ⟨hf, ht⟩
    obtain ⟨edge, hedge, hfrom, hto⟩ := h.complete f t hrelated
    rw [has_iff hfrom, hholds] at hf
    rw [has_iff hto, hholds] at ht
    exact hnone edge (InProcessSessionMemory.mem_between.mpr ⟨hedge, hf, ht⟩)
  · intro hnone edge hedge
    obtain ⟨hmem, hf, ht⟩ := InProcessSessionMemory.mem_between.mp hedge
    obtain ⟨f, t, hrelated, hfrom, hto⟩ := h.sound edge hmem
    refine hnone f t hrelated ⟨?_, ?_⟩
    · rwa [has_iff hfrom, hholds]
    · rwa [has_iff hto, hholds]

theorem relatesAmong_iff (hearly : ∀ e ∈ early, e.now ≤ moment)
    (hlate : ∀ e ∈ late, ¬ e.now ≤ moment) {fromRecord toRecord : CeremonyRecordRef} :
    RelatesAmong early late id fromRecord toRecord ↔
      ∃ before v later i, early ++ late = before ++ .calls v :: later ∧ moment < v.now ∧
        v.id = id ∧ (run Event.after before World.new).sessions id = some i ∧
        (v.commits i).isSome = true ∧ Relates i v fromRecord toRecord := by
  constructor
  · rintro ⟨before, e, later, rfl, v, i, rfl, hid, hi, hcommit, hrelates⟩
    refine ⟨early ++ before, v, later, i, (List.append_assoc _ _ _).symm, ?_, hid, hi, hcommit,
      hrelates⟩
    exact Int.not_le.mp (hlate (.calls v) (by simp))
  · rintro ⟨before, v, later, i, hsplit, hafter, hid, hi, hcommit, hrelates⟩
    rcases List.append_eq_append_iff.mp hsplit with ⟨mid, rfl, hmid⟩ | ⟨mid, hmid, hrest⟩
    · exact ⟨mid, .calls v, later, hmid, v, i, rfl, hid, hi, hcommit, hrelates⟩
    · cases mid with
      | nil =>
        rw [List.append_nil] at hmid
        subst hmid
        refine ⟨[], .calls v, later, hrest.symm, v, i, rfl, hid, ?_, hcommit, hrelates⟩
        rwa [List.append_nil]
      | cons e mid =>
        obtain ⟨rfl, -⟩ := List.cons.inj hrest
        have hle : v.now ≤ moment := hearly (.calls v) (by simp [hmid])
        exact absurd hle (Int.not_le.mpr hafter)

end Moments

/-- With a clock that never goes backwards and a memory that takes every write, the answer about
a moment is what was known then, if and only if no reason given since is between two records
that had their entries at that moment. -/
theorem shows_what_was_known_iff (events : List Event) (hkept : ∀ e ∈ events, e.Kept)
    (hclock : events.Pairwise fun a b => a.now ≤ b.now) (id : CeremonyId)
    (moment : OffsetDateTime) :
    ShowsWhatWasKnown events id moment ↔
      ∀ before v later, events = before ++ .calls v :: later → moment < v.now → v.id = id →
        ∀ i, (run Event.after before World.new).sessions id = some i →
          (v.commits i).isSome = true → ∀ fromRecord toRecord, Relates i v fromRecord toRecord →
            ¬ (Has (heldAt events moment id) fromRecord ∧ Has (heldAt events moment id) toRecord) := by
  obtain ⟨late, hsplit, hlate⟩ := split_at hclock moment
  unfold ShowsWhatWasKnown heldAt
  have hearly : ∀ e ∈ events.filter fun e => e.now ≤ moment, e.now ≤ moment :=
    fun e he => of_decide_eq_true (List.mem_filter.mp he).2
  generalize (events.filter fun e => e.now ≤ moment) = early at hsplit hearly
  subst hsplit
  constructor
  · intro h before v later hsplit hafter hid i hi hcommit f t hrelates
    have hscope := hrelates.2.1
    rw [(lawful_run before).own _ _ hi] at hscope
    obtain ⟨scope, hscope⟩ := hscope
    obtain ⟨entries, relations, hsince, hshows⟩ := asKnownAt_run hkept hearly hlate hscope
    have hsame := hshows.symm.trans (h scope hscope)
    rw [between_append] at hsame
    have hnone := List.append_right_eq_self.mp (MemoryRecollection.recalled.inj hsame).2
    apply (between_eq_nil hsince).mp hnone f t
    apply (relatesAmong_iff hearly hlate).mpr
    exact ⟨before, v, later, i, hsplit, hafter, hid, hi, hcommit, hrelates⟩
  · intro h scope hscope
    obtain ⟨entries, relations, hsince, hshows⟩ := asKnownAt_run hkept hearly hlate hscope
    have hnone : InProcessSessionMemory.between relations
        ((run Event.after early World.new).held id).entries = [] := by
      apply (between_eq_nil hsince).mpr
      intro f t hrelated
      obtain ⟨before, v, later, i, hsplit, hafter, hid, hi, hcommit, hrelates⟩ :=
        (relatesAmong_iff hearly hlate).mp hrelated
      exact h before v later hsplit hafter hid i hi hcommit f t hrelates
    rw [hshows, between_append, hnone, List.append_nil]

section Hindsight

open Choreographer.DanglingReasons

/-- The engineer says what was found, approves, and only then says what followed from what. -/
def explained : List Event :=
  [.opens outage blackout CeremonyContext.empty ⟨0, 0⟩ none,
    visit 1 (.request cause engineer .human .investigation .table found none) true,
    visit 2 (.respond cause engineer .human found) true,
    visit 3 (.approve clear engineer .human) true,
    visit 4 (.assertReason engineer .human (.guardDecision clear) (.contribution cause 0)
      .followsFrom "the tree is gone" .high) true]

theorem explained_kept : ∀ e ∈ explained, e.Kept := by
  simp [explained, visit, Event.Kept]

theorem explained_clock : explained.Pairwise fun a b => a.now ≤ b.now := by
  decide

/-- What was held before the approval, and what is shown of the moment of it besides what was
known then. -/
theorem explained_shown :
    ((heldAt explained ⟨2, 0⟩ outage).entries.map fun entry => entry.id.asStr) =
        ["agenda:cause:contribution:0"] ∧
      ((run Event.after explained World.new).memory.asKnownAt outageScope ⟨3, 0⟩).relations.length
        = 1 ∧
      (InProcessSessionMemory.between (heldAt explained ⟨3, 0⟩ outage).relations
        (heldAt explained ⟨3, 0⟩ outage).entries).length = 0 := by decide +kernel

theorem explained_guard : entryId (.guardDecision clear) = .ok ⟨"guard:lines_clear", by decide⟩ :=
  Phrase.new_eq_ok.mpr (by decide)

/-- Of the moment before the approval, nothing is shown that was not known. -/
theorem shows_explained : (∀ e ∈ explained, e.Kept) ∧
    (explained.Pairwise fun a b => a.now ≤ b.now) ∧
    ShowsWhatWasKnown explained outage ⟨2, 0⟩ := by
  refine ⟨explained_kept, explained_clock, ?_⟩
  apply (shows_what_was_known_iff explained explained_kept explained_clock outage ⟨2, 0⟩).mpr
  intro before v later hsplit hafter hid i hi hcommit f t hrelates
  have hmem : Event.calls v ∈ explained := by simp [hsplit]
  obtain ⟨⟨roleId, roleKind, kind, why, confidence, hwork⟩, -⟩ := hrelates
  have hfrom : f = .guardDecision clear := by
    simp only [explained, visit, List.mem_cons, Event.calls.injEq, List.not_mem_nil, or_false,
      reduceCtorEq, false_or] at hmem
    rcases hmem with rfl | rfl | rfl | rfl
    · simp at hwork
    · simp at hwork
    · simp at hwork
    · exact (Work.assertReason.inj hwork).2.2.1.symm
  rintro ⟨hf, -⟩
  rw [hfrom, has_iff explained_guard] at hf
  obtain ⟨entry, hentry, hentryId⟩ := hf
  have hheld := List.mem_map_of_mem (f := fun entry : MemoryEntry => entry.id.asStr) hentry
  rw [explained_shown.1, List.mem_singleton, hentryId] at hheld
  exact absurd hheld (by decide)

/-- Of the moment of the approval, a reason is shown that was given later. -/
theorem hindsight_shown : ¬ ∀ events : List Event, (∀ e ∈ events, e.Kept) →
    (events.Pairwise fun a b => a.now ≤ b.now) → ∀ id moment, ShowsWhatWasKnown events id moment := by
  intro h
  have hshows := h explained explained_kept explained_clock outage ⟨3, 0⟩ outageScope
    ofCeremony_outage
  obtain ⟨-, hone, hknown⟩ := explained_shown
  rw [hshows, MemoryRecollection.relations, hknown] at hone
  exact absurd hone (by decide)

end Hindsight

end Choreographer.TimeTravel
