import Choreographer.SessionJournal

namespace Choreographer.SessionLog

open Choreographer.Lib.SortedMaps Choreographer.Lib.Updates Choreographer.Lib.Programs
open Choreographer.Texts Choreographer.Values Choreographer.Definition Choreographer.Instance
open Choreographer.Operations Choreographer.Audit Choreographer.InMemory
open Choreographer.SessionJournal
open InMemoryCeremonyStore (stored_insert stored_touch commit_conflict commit_refused commit_landed)

variable {ν : Type} {env : Rendering}

def number (s : StoredCeremony) : Nat := (s.revision.map fun r => r.value.val).getD 0

def lastRevision : Nat := 2 ^ 64 - 1

/-- Everything a commit can come to: its facts are another ceremony's, it lost
the race, its facts cannot be sealed, or it lands. -/
inductive Concluded (env : Rendering) (lost : DomainError) (loaded : LoadedSession)
    (facts : List AuditFact) (s : StoredCeremony) :
    Except DomainError LoadedSession → StoredCeremony → Prop
  | foreign (theirs : (facts.any fun fact => fact.ceremonyId ≠ loaded.session.id) = true) :
      Concluded env lost loaded facts s
        (.error (.invariantViolated "a commit cannot carry audit facts from another ceremony")) s
  | conflict (stale : loaded.expected.agrees s.revision = false) :
      Concluded env lost loaded facts s (.error lost) s
  | refused {sealed : List AuditRecord} {e : DomainError}
      (current : loaded.expected.agrees s.revision = true)
      (unsealed : sealFacts env s.journal.getLast? facts = (sealed, .error e)) :
      Concluded env lost loaded facts s (.error e) s
  | landed {sealed : List AuditRecord} (current : loaded.expected.agrees s.revision = true)
      (hsealed : sealFacts env s.journal.getLast? facts = (sealed, .ok ())) :
      Concluded env lost loaded facts s
        (.ok ⟨loaded.session, .exactly loaded.expected.resultingRevision⟩)
        { revision := some loaded.expected.resultingRevision
          session := some loaded.session
          journal := s.journal ++ sealed
          outbox := s.outbox }

theorem storing_concluded (lost : DomainError) (loaded : LoadedSession) (facts : List AuditFact)
    (m : InMemoryCeremonyStore) :
    Concluded env lost loaded facts (m.stored loaded.session.id)
        (storing env lost loaded facts m).1
        ((storing env lost loaded facts m).2.stored loaded.session.id) ∧
      ∀ id ≠ loaded.session.id, (storing env lost loaded facts m).2.stored id = m.stored id := by
  unfold storing CeremonyCommit.new
  split
  · next e he =>
    split at he
    · simp at he
    · next hf =>
      obtain rfl := Except.error.inj he
      exact ⟨.foreign (by simpa using hf), fun _ _ => rfl⟩
  · next c hc =>
    split at hc
    · obtain rfl := Except.ok.inj hc
      cases hag : loaded.expected.agrees (m.stored loaded.session.id).revision with
      | false =>
        rw [commit_conflict hag]
        refine ⟨?_, fun id _ => stored_touch _ id⟩
        rw [stored_touch]
        exact .conflict hag
      | true =>
        rcases hs : sealFacts env (m.stored loaded.session.id).journal.getLast? facts with
          ⟨sealed, _ | ⟨⟨⟩⟩⟩
        · rw [commit_refused hag hs]
          refine ⟨?_, fun id _ => stored_touch _ id⟩
          rw [stored_touch]
          exact .refused hag hs
        · rw [commit_landed hag hs]
          refine ⟨?_, fun id hid => by rw [stored_insert, if_neg hid]⟩
          rw [stored_insert, if_pos rfl]
          have h := @Concluded.landed env lost loaded facts _ _ hag hs
          simpa [InMemoryCeremonyStore.landed] using h
    · simp at hc

theorem Concluded.of_ok {lost : DomainError} {loaded l : LoadedSession} {facts : List AuditFact}
    {s s' : StoredCeremony} (h : Concluded env lost loaded facts s (.ok l) s') :
    loaded.expected.agrees s.revision = true ∧
      l = ⟨loaded.session, .exactly loaded.expected.resultingRevision⟩ ∧
      ∃ sealed, sealFacts env s.journal.getLast? facts = (sealed, .ok ()) ∧
        s' = { revision := some loaded.expected.resultingRevision
               session := some loaded.session
               journal := s.journal ++ sealed
               outbox := s.outbox } := by
  cases h with
  | landed current hsealed => exact ⟨current, rfl, _, hsealed, rfl⟩

def replay (log : List (Entry ν)) : CeremonyId → StoredCeremony :=
  log.foldl (fun stored e => Function.update stored e.ceremony e.after)
    fun _ => StoredCeremony.default

theorem replay_concat (log : List (Entry ν)) (e : Entry ν) :
    replay (log ++ [e]) = Function.update (replay log) e.ceremony e.after := by
  simp [replay]

/-- A log in which every commit met what the ones before it had left, and every
commit that landed was computed from exactly that. -/
inductive Legal (env : Rendering) : List (Entry ν) → Prop
  | nil : Legal env []
  | concat {log : List (Entry ν)} {e : Entry ν} (earlier : Legal env log)
      (met : e.before = replay log e.ceremony)
      (concluded : Concluded env e.lost e.loaded e.facts e.before e.answer e.after)
      (opening : e.base = none → e.loaded.expected = .new)
      (based : e.landed = true → number e.before < lastRevision → e.base = e.before.session) :
      Legal env (log ++ [e])

section Legal

variable {log : List (Entry ν)}

/-- What a legal log leaves of a ceremony: its own session, under a revision if
and only if there is one. -/
structure Kept (id : CeremonyId) (s : StoredCeremony) : Prop where
  paired : s.revision.isSome = s.session.isSome
  own : ∀ i, s.session = some i → i.id = id

theorem Kept.concluded {lost : DomainError} {loaded : LoadedSession} {facts : List AuditFact}
    {s s' : StoredCeremony} {answer : Except DomainError LoadedSession}
    (hs : Kept loaded.session.id s) (h : Concluded env lost loaded facts s answer s') :
    Kept loaded.session.id s' := by
  cases h with
  | foreign | conflict | refused => exact hs
  | landed => exact ⟨rfl, fun i hi => by rw [← Option.some.inj hi]⟩

theorem kept_replay (h : Legal env log) (id : CeremonyId) : Kept id (replay log id) := by
  induction h with
  | nil => exact ⟨rfl, fun i hi => by simp [replay, StoredCeremony.default] at hi⟩
  | concat earlier met concluded opening based ih =>
    rw [replay_concat, Function.update_apply]
    split
    · next hid =>
      subst hid
      rw [← met] at ih
      exact ih.concluded concluded
    · exact ih

end Legal

/-- How what is stored of a ceremony may change under the eyes of a client: it
stays, or its revision goes up, for as long as there is a next one; and it is
always the same session of the same definition. -/
structure Advances (s s' : StoredCeremony) : Prop where
  counted : number s ≤ number s'
  moved : number s < lastRevision → number s' = number s → s' = s
  same : ∀ i, s.session = some i → ∃ i', s'.session = some i' ∧ ident i' = ident i

theorem Advances.refl (s : StoredCeremony) : Advances s s :=
  ⟨le_rfl, fun _ _ => rfl, fun i hi => ⟨i, hi, rfl⟩⟩

theorem number_le (s : StoredCeremony) : number s ≤ lastRevision := by
  unfold number lastRevision
  cases s.revision with
  | none => simp
  | some r =>
    have := r.value.isLt
    simp only [Option.map_some, Option.getD_some]
    omega

theorem number_eq_zero {s : StoredCeremony} (h : s.revision = none) : number s = 0 := by
  simp [number, h]

theorem number_of_some {s : StoredCeremony} {r : CeremonyRevision} (h : s.revision = some r) :
    number s = r.value.val := by
  simp [number, h]

theorem number_landed {expected : ExpectedRevision} {s : StoredCeremony}
    (s' : StoredCeremony) (h : expected.agrees s.revision = true)
    (hs' : s'.revision = some expected.resultingRevision) :
    number s' = min (number s + 1) lastRevision := by
  rw [number_of_some hs']
  rcases ExpectedRevision.agrees_iff.mp h with ⟨rfl, hs⟩ | ⟨r, rfl, hs⟩
  · rw [number_eq_zero hs]
    rfl
  · rw [number_of_some hs]
    rfl

theorem Advances.concluded {lost : DomainError} {loaded : LoadedSession}
    {facts : List AuditFact} {s s' : StoredCeremony} {answer : Except DomainError LoadedSession}
    (h : Concluded env lost loaded facts s answer s')
    (hsame : loaded.expected.agrees s.revision = true →
      ∀ i, s.session = some i → ident loaded.session = ident i) : Advances s s' := by
  cases h with
  | foreign | conflict | refused => exact .refl s
  | @landed sealed current hsealed =>
    have hn := number_landed { s with
      revision := some loaded.expected.resultingRevision
      session := some loaded.session, journal := s.journal ++ sealed } current rfl
    have hle := number_le s
    refine ⟨?_, fun hlt heq => ?_, fun i hi => ⟨_, rfl, hsame current i hi⟩⟩
    · rw [hn]
      omega
    · rw [hn] at heq
      omega

section Landings

variable {log : List (Entry ν)} {e : Entry ν}

def landings (log : List (Entry ν)) (id : CeremonyId) : List (Entry ν) :=
  log.filter fun e => e.landed && decide (e.ceremony = id)

theorem landings_concat (log : List (Entry ν)) (e : Entry ν) (id : CeremonyId) :
    landings (log ++ [e]) id =
      landings log id ++ if e.landed = true ∧ e.ceremony = id then [e] else [] := by
  simp [landings, List.filter_append, List.filter_cons]

theorem landed_iff : e.landed = true ↔ ∃ l, e.answer = .ok l := by
  unfold Entry.landed
  cases e.answer <;> simp

/-- What is known of the last entry of a legal log. -/
structure LegalEntry (env : Rendering) (log : List (Entry ν)) (e : Entry ν) : Prop where
  met : e.before = replay log e.ceremony
  concluded : Concluded env e.lost e.loaded e.facts e.before e.answer e.after
  opening : e.base = none → e.loaded.expected = .new
  based : e.landed = true → number e.before < lastRevision → e.base = e.before.session

theorem legal_concat : Legal env (log ++ [e]) ↔ Legal env log ∧ LegalEntry env log e := by
  constructor
  · intro h
    generalize hl : log ++ [e] = l at h
    cases h with
    | nil => simp at hl
    | concat earlier met concluded opening based =>
      obtain ⟨rfl, he⟩ := List.append_inj' hl rfl
      obtain rfl := List.singleton_inj.mp he
      exact ⟨earlier, met, concluded, opening, based⟩
  · rintro ⟨hlog, met, concluded, opening, based⟩
    exact .concat hlog met concluded opening based

theorem Legal.of_append {later : List (Entry ν)} (h : Legal env (log ++ later)) :
    Legal env log := by
  induction later using List.reverseRecOn with
  | nil => simpa using h
  | append_singleton later e ih =>
    rw [← List.append_assoc] at h
    exact ih (legal_concat.mp h).1

theorem Legal.entry {later : List (Entry ν)} (h : Legal env (log ++ e :: later)) :
    LegalEntry env log e := by
  rw [List.append_cons] at h
  exact (legal_concat.mp h.of_append).2

theorem LegalEntry.unchanged (h : LegalEntry env log e) (hl : e.landed = false) :
    e.after = e.before := by
  have hc := h.concluded
  generalize e.after = s at hc
  generalize ha : e.answer = answer at hc
  cases hc with
  | foreign | conflict | refused => rfl
  | landed => simp [landed_iff.mpr ⟨_, ha⟩] at hl

theorem LegalEntry.stored (h : LegalEntry env log e) (hl : e.landed = true) :
    ∃ sealed, sealFacts env e.before.journal.getLast? e.facts = (sealed, .ok ()) ∧
      e.loaded.expected.agrees e.before.revision = true ∧
      e.after = { revision := some e.loaded.expected.resultingRevision
                  session := some e.loaded.session
                  journal := e.before.journal ++ sealed
                  outbox := e.before.outbox } := by
  obtain ⟨l, hl⟩ := landed_iff.mp hl
  have hc := h.concluded
  rw [hl] at hc
  obtain ⟨hag, -, sealed, hs, hafter⟩ := hc.of_ok
  exact ⟨sealed, hs, hag, hafter⟩

theorem replay_concat_of_not_landed (h : LegalEntry env log e) (hl : e.landed = false) :
    replay (log ++ [e]) = replay log := by
  rw [replay_concat, h.unchanged hl, h.met, Function.update_eq_self]

theorem replay_concat_of_other {id : CeremonyId} (h : LegalEntry env log e)
    (hin : ¬ (e.landed = true ∧ e.ceremony = id)) : replay (log ++ [e]) id = replay log id := by
  cases hl : e.landed with
  | false => rw [replay_concat_of_not_landed h hl]
  | true =>
    rw [replay_concat, Function.update_of_ne]
    exact fun hid => hin ⟨hl, hid.symm⟩

theorem number_replay (h : Legal env log) (id : CeremonyId) :
    number (replay log id) = min (landings log id).length lastRevision := by
  induction log using List.reverseRecOn with
  | nil => rfl
  | append_singleton log e ih =>
    obtain ⟨hlog, he⟩ := legal_concat.mp h
    specialize ih hlog
    rw [landings_concat]
    cases hl : e.landed with
    | false =>
      rw [replay_concat_of_not_landed he hl]
      simpa using ih
    | true =>
      rw [replay_concat, Function.update_apply]
      by_cases hid : e.ceremony = id
      · subst hid
        obtain ⟨sealed, -, hag, hafter⟩ := he.stored hl
        have hn := number_landed e.after hag (by rw [hafter])
        rw [he.met, ih] at hn
        rw [if_pos rfl, if_pos ⟨rfl, rfl⟩, hn, List.length_append, List.length_singleton]
        omega
      · rw [if_neg (Ne.symm hid), if_neg (by simp [hid])]
        simpa using ih

theorem landings_append (log later : List (Entry ν)) (id : CeremonyId) :
    landings (log ++ later) id = landings log id ++ landings later id := List.filter_append ..

theorem landings_cons_of {id : CeremonyId} (hl : e.landed = true) (hid : e.ceremony = id)
    (log : List (Entry ν)) : landings (e :: log) id = e :: landings log id :=
  List.filter_cons_of_pos (by simp [hl, hid])

theorem mem_landings {id : CeremonyId} :
    e ∈ landings log id ↔ e ∈ log ∧ e.landed = true ∧ e.ceremony = id := by
  simp [landings]

theorem based_of_few (later : List (Entry ν)) {id : CeremonyId}
    (h : Legal env (log ++ e :: later)) (hfew : (landings (log ++ e :: later) id).length ≤ lastRevision)
    (hid : e.ceremony = id) (hl : e.landed = true) : e.base = e.before.session := by
  have he := h.entry
  refine he.based hl ?_
  rw [he.met, hid, number_replay h.of_append]
  rw [landings_append, List.length_append] at hfew
  have hpos := List.length_pos_of_mem (mem_landings.mpr ⟨List.mem_cons_self (l := later), hl, hid⟩)
  omega

end Landings

/-- What a client that holds a session knows of the store: a session of that
ceremony is there, of the same definition, and as long as the revision it was
read under is the stored one, so is the session. -/
structure Knows (loaded : LoadedSession) (w : World ν) : Prop where
  there : ∃ i, (w.store.stored loaded.session.id).session = some i ∧
    ident i = ident loaded.session
  fresh : ∀ r, loaded.expected = .exactly r →
    r.value.val ≤ number (w.store.stored loaded.session.id) ∧
      (number (w.store.stored loaded.session.id) = r.value.val → r.value.val < lastRevision →
        (w.store.stored loaded.session.id).session = some loaded.session)

/-- Definitions are only added, publications only where there was none, and what
is on record stays there. -/
structure Grows (w w' : World ν) : Prop where
  definitions : w.definitions <:+ w'.definitions
  publications : w.publications <+: w'.publications
  log : w.log <+: w'.log

theorem Grows.refl (w : World ν) : Grows w w :=
  ⟨List.suffix_rfl, List.prefix_rfl, List.prefix_rfl⟩

/-- What is to be known of every commit that landed, in a world and behind the
commits before it. -/
abbrev Law (ν : Type) := World ν → List (Entry ν) → Entry ν → Prop

def Lawful (law : Law ν) (w : World ν) : Prop :=
  ∀ earlier e later, w.log = earlier ++ e :: later → e.landed = true → law w earlier e

/-- The protocol of the session journal: the log is legal and tells what is
stored, and every commit that landed keeps the law. -/
def protocol (env : Rendering) (law : Law ν) : Protocol (World ν) where
  inv w := (∀ id, w.store.stored id = replay w.log id) ∧ Legal env w.log ∧ Lawful law w
  guar w w' := (∀ id, Advances (w.store.stored id) (w'.store.stored id)) ∧ Grows w w'

section Protocol

variable {law : Law ν}

theorem stable_knows (loaded : LoadedSession) :
    Stable (protocol env law) (Knows loaded) := by
  rintro w w' - - ⟨hadv, -⟩ ⟨⟨i, hi, hident⟩, hfresh⟩
  have ha := hadv loaded.session.id
  obtain ⟨i', hi', hsame⟩ := ha.same i hi
  refine ⟨⟨i', hi', hsame.trans hident⟩, fun r hr => ?_⟩
  obtain ⟨hle, hstored⟩ := hfresh r hr
  refine ⟨hle.trans ha.counted, fun heq hlt => ?_⟩
  have hn : number (w.store.stored loaded.session.id) = r.value.val := by
    have := ha.counted
    omega
  rw [ha.moved (by omega) (by omega)]
  exact hstored hn hlt

theorem guar_refl (w : World ν) : (protocol env law).guar w w :=
  ⟨fun _ => .refl _, .refl w⟩

theorem safe_asking (c : Call ν) {R : c.Answer → World ν → Prop}
    (hs : ∀ a, Stable (protocol env law) (R a))
    (h : ∀ w a w', (protocol env law).inv w → exec env c w a w' → w' = w ∧ R a w) :
    SafeE (exec env) (protocol env law) (fun _ => True) (ask c) R := by
  refine SafeE.lift (safe_call (I := calls ν) c hs fun w a w' hi _ he => ?_)
  obtain ⟨rfl, hr⟩ := h w a w' hi he
  exact ⟨hi, guar_refl _, hr⟩

/-- What may be said of a commit before it is made. -/
def Accounts (base : Option CeremonyInstance) (note : ν) (loaded : LoadedSession)
    (facts : List AuditFact) (e : Entry ν) : Prop :=
  e.base = base ∧ e.note = note ∧ e.loaded = loaded ∧ e.facts = facts

variable (hmono : ∀ w w' earlier e, Grows w w' → law w earlier e → law w' earlier e)

include hmono in
theorem concluded_keeps {w : World ν} (hi : (protocol env law).inv w)
    {base : Option CeremonyInstance} {note : ν} {lost : DomainError} {loaded : LoadedSession}
    {facts : List AuditFact} (hlost : lost = if base.isSome then lostCommit else lostOpening)
    (hopening : base = none → loaded.expected = .new)
    (hbased : loaded.expected.agrees (w.store.stored loaded.session.id).revision = true →
      (number (w.store.stored loaded.session.id) < lastRevision →
        base = (w.store.stored loaded.session.id).session) ∧
      ∀ i, (w.store.stored loaded.session.id).session = some i → ident loaded.session = ident i)
    (hlaw : ∀ e, Accounts base note loaded facts e → law w w.log e) :
    (protocol env law).inv (w.concluded env base note lost loaded facts) ∧
      (protocol env law).guar w (w.concluded env base note lost loaded facts) := by
  obtain ⟨hstored, hlegal, hlawful⟩ := hi
  obtain ⟨hconcluded, hother⟩ := @storing_concluded env lost loaded facts w.store
  have hgrows : Grows w (w.concluded env base note lost loaded facts) :=
    ⟨List.suffix_rfl, List.prefix_rfl, List.prefix_append _ _⟩
  refine ⟨⟨fun id => ?_, ?_, fun earlier e later he hl => ?_⟩, fun id => ?_, hgrows⟩
  · change (storing env lost loaded facts w.store).2.stored id = _
    rw [World.concluded, replay_concat, Function.update_apply]
    split
    · next hid => rw [hid]; rfl
    · next hid => rw [hother id hid, hstored id]
  · refine .concat hlegal (hstored _) (hlost ▸ hconcluded) hopening fun hl hnum => ?_
    change base = (w.store.stored loaded.session.id).session
    have hl : ∃ l, (storing env lost loaded facts w.store).1 = .ok l := by
      unfold Entry.landed at hl
      simp only at hl
      split at hl
      · next l heq => exact ⟨l, heq⟩
      · simp at hl
    obtain ⟨l, hl⟩ := hl
    rw [hl] at hconcluded
    exact (hbased hconcluded.of_ok.1).1 hnum
  · cases later using List.reverseRecOn with
    | nil =>
      obtain ⟨rfl, hlast⟩ := List.append_inj' he rfl
      obtain rfl := List.singleton_inj.mp hlast
      exact hmono w _ _ _ hgrows (hlaw _ ⟨rfl, rfl, rfl, rfl⟩)
    | append_singleton later last =>
      rw [← List.cons_append, ← List.append_assoc] at he
      exact hmono w _ _ _ hgrows (hlawful earlier e later (List.append_inj' he rfl).1 hl)
  · change Advances _ ((storing env lost loaded facts w.store).2.stored id)
    by_cases hid : id = loaded.session.id
    · subst hid
      exact .concluded hconcluded fun current => (hbased current).2
    · rw [hother id hid]
      exact .refl _

/-- Some commit on record landed that is as described. -/
def OnRecord (described : Entry ν → Prop) (w : World ν) : Prop :=
  ∃ e ∈ w.log, e.landed = true ∧ described e

theorem stable_onRecord (described : Entry ν → Prop) :
    Stable (protocol env law) (OnRecord described) := by
  rintro w w' - - ⟨-, hgrows⟩ ⟨e, he, h⟩
  exact ⟨e, hgrows.log.subset he, h⟩

theorem onRecord_of_ok {w : World ν} {base : Option CeremonyInstance} {note : ν}
    {lost : DomainError} {loaded l : LoadedSession} {facts : List AuditFact}
    (h : (storing env lost loaded facts w.store).1 = .ok l) :
    OnRecord (Accounts base note loaded facts) (w.concluded env base note lost loaded facts) :=
  ⟨_, List.mem_append_right _ (List.mem_singleton_self _), landed_iff.mpr ⟨l, h⟩, rfl, rfl, rfl, rfl⟩

theorem knows_of_ok {w : World ν} (base : Option CeremonyInstance) (note : ν) {lost : DomainError}
    {loaded l : LoadedSession} {facts : List AuditFact}
    (h : (storing env lost loaded facts w.store).1 = .ok l) :
    l.session = loaded.session ∧ Knows l (w.concluded env base note lost loaded facts) := by
  obtain ⟨hconcluded, -⟩ := @storing_concluded env lost loaded facts w.store
  have hafter : (w.concluded env base note lost loaded facts).store =
      (storing env lost loaded facts w.store).2 := rfl
  rw [h] at hconcluded
  obtain ⟨-, rfl, sealed, -, hs⟩ := hconcluded.of_ok
  refine ⟨rfl, ⟨loaded.session, ?_, rfl⟩, fun r hr => ?_⟩
  · rw [hafter, hs]
  · obtain rfl := ExpectedRevision.exactly.inj hr
    rw [hafter, hs]
    exact ⟨le_rfl, fun _ _ => rfl⟩

include hmono in
theorem commit_safe (base : LoadedSession) {loaded : LoadedSession} {facts : List AuditFact}
    {note : ν} {K : World ν → Prop} (hexpected : loaded.expected = base.expected)
    (hident : ident loaded.session = ident base.session) (hknows : ∀ w, K w → Knows base w)
    (hlaw : ∀ w, K w → ∀ e, Accounts (some base.session) note loaded facts e → law w w.log e) :
    SafeE (exec env) (protocol env law) K (commit loaded facts base.session note)
      (fun l w => l.session = loaded.session ∧ Knows l w ∧
        OnRecord (Accounts (some base.session) note loaded facts) w) := by
  have hid : loaded.session.id = base.session.id := congrArg Prod.fst hident
  refine ⟨safe_call (I := calls ν) _ (fun a => ?_) fun w a w' hi hk he => ?_⟩
  · cases a with
    | error e => exact stable_true
    | ok l => exact (stable_const _).and ((stable_knows l).and (stable_onRecord _))
  · obtain ⟨rfl, rfl⟩ := he
    obtain ⟨⟨i, hthere, hsame⟩, hfresh⟩ := hknows w hk
    have hbased (hag : loaded.expected.agrees (w.store.stored loaded.session.id).revision = true) :
        (number (w.store.stored loaded.session.id) < lastRevision →
          some base.session = (w.store.stored loaded.session.id).session) ∧
        ∀ j, (w.store.stored loaded.session.id).session = some j →
          ident loaded.session = ident j := by
      rw [hexpected, hid] at hag
      rw [hid, hthere]
      refine ⟨fun hnum => ?_, fun j hj => ?_⟩
      · rcases ExpectedRevision.agrees_iff.mp hag with ⟨-, hnone⟩ | ⟨r, hr, hsome⟩
        · have hkept := kept_replay hi.2.1 base.session.id
          rw [← hi.1] at hkept
          have hp := hkept.paired
          rw [hnone, hthere] at hp
          simp at hp
        · have hn := number_of_some hsome
          have hst := (hfresh r hr).2 hn (hn ▸ hnum)
          exact hst.symm.trans hthere
      · obtain rfl := Option.some.inj hj
        exact hident.trans hsame.symm
    obtain ⟨hinv, hguar⟩ := concluded_keeps hmono hi rfl (by simp) hbased (hlaw w hk)
    refine ⟨hinv, hguar, ?_⟩
    cases ha : (storing env lostCommit loaded facts w.store).1 with
    | error e => trivial
    | ok l =>
      obtain ⟨hsession, hknown⟩ := knows_of_ok (some base.session) note ha
      exact ⟨hsession, hknown, onRecord_of_ok ha⟩

include hmono in
theorem openSession_safe {session : CeremonyInstance} {facts : List AuditFact} {note : ν}
    {K : World ν → Prop}
    (hlaw : ∀ w, K w → ∀ e, Accounts none note ⟨session, .new⟩ facts e → law w w.log e) :
    SafeE (exec env) (protocol env law) K (openSession session facts note)
      (fun l w => l.session = session ∧ Knows l w) := by
  refine ⟨safe_call (I := calls ν) _ (fun a => ?_) fun w a w' hi hk he => ?_⟩
  · cases a with
    | error e => exact stable_true
    | ok l => exact (stable_const _).and (stable_knows l)
  · obtain ⟨rfl, rfl⟩ := he
    have hnil (hag : ExpectedRevision.agrees .new (w.store.stored session.id).revision = true) :
        (w.store.stored session.id).session = none := by
      rcases ExpectedRevision.agrees_iff.mp hag with ⟨-, hnone⟩ | ⟨r, hr, -⟩
      · have hkept := kept_replay hi.2.1 session.id
        rw [← hi.1] at hkept
        simpa [hnone] using hkept.paired.symm
      · simp at hr
    obtain ⟨hinv, hguar⟩ := concluded_keeps hmono hi rfl (fun _ => rfl)
      (fun hag => ⟨fun _ => (hnil hag).symm, fun i hj => by simp [hnil hag] at hj⟩) (hlaw w hk)
    refine ⟨hinv, hguar, ?_⟩
    cases ha : (storing env lostOpening ⟨session, .new⟩ facts w.store).1 with
    | error e => trivial
    | ok l => exact knows_of_ok _ _ ha

/-- Loading a session makes it known. A revision read too early is too low, and
none read at all means a commit that cannot land. -/
theorem load_safe (id : CeremonyId) :
    SafeE (exec env) (protocol env law) (fun _ => True) (load id)
      (fun l w => l.session.id = id ∧ Knows l w) := by
  refine SafeE.bind (R := fun stored w => ∀ r, stored = some r →
    r.value.val ≤ number (w.store.stored id)) ?_ fun stored => ?_
  · refine safe_asking _ (fun a => ?_) fun w a w' hi he => ?_
    · rintro w w' - - ⟨hadv, -⟩ h r hr
      exact (h r hr).trans (hadv id).counted
    · obtain ⟨rfl, rfl⟩ := he
      refine ⟨rfl, fun r hr => ?_⟩
      rw [number_of_some hr]
  · refine SafeE.bind (R := fun session w => session.id = id ∧
      Knows ⟨session, stored.elim .new .exactly⟩ w) ?_ fun session => ?_
    · refine ⟨safe_call (I := calls ν) _ (fun a => ?_) fun w a w' hi hk he => ?_⟩
      · cases a with
        | error e => exact stable_true
        | ok session => exact (stable_const _).and (stable_knows _)
      · obtain ⟨rfl, rfl⟩ := he
        refine ⟨hi, guar_refl _, ?_⟩
        cases hget : w'.store.get id with
        | error e => trivial
        | ok session =>
          have hs : (w'.store.stored id).session = some session := by
            simpa [InMemoryCeremonyStore.get] using hget
          have hkept := kept_replay hi.2.1 id
          rw [← hi.1] at hkept
          obtain rfl := hkept.own session hs
          refine ⟨rfl, ⟨session, hs, rfl⟩, fun r hr => ⟨hk r ?_, fun _ _ => hs⟩⟩
          cases stored with
          | none => simp at hr
          | some q => simpa using hr
    · exact SafeE.pure fun w _ hw => hw

include hmono in
theorem drift_keeps {w w' : World ν} (hi : (protocol env law).inv w) (h : Drift w w') :
    (protocol env law).inv w' ∧ (protocol env law).guar w w' := by
  obtain ⟨hstored, hlegal, hlawful⟩ := hi
  have hkeeps (hs : w'.store = w.store) (hl : w'.log = w.log) (hg : Grows w w') :
      (protocol env law).inv w' ∧ (protocol env law).guar w w' := by
    refine ⟨⟨?_, hl ▸ hlegal, fun earlier e later he hlanded => ?_⟩, fun id => ?_, hg⟩
    · rw [hs, hl]
      exact hstored
    · exact hmono w w' earlier e hg (hlawful earlier e later (hl ▸ he) hlanded)
    · rw [hs]
      exact .refl _
  cases h with
  | mount definition => exact hkeeps rfl rfl ⟨List.suffix_cons _ _, List.prefix_rfl, List.prefix_rfl⟩
  | publish p free => exact hkeeps rfl rfl ⟨List.suffix_rfl, List.prefix_append _ _, List.prefix_rfl⟩

theorem inv_empty : (protocol env law).inv World.empty :=
  ⟨fun _ => rfl, .nil, fun earlier e later he => by simp [World.empty] at he⟩

/-- A client does not wait for anybody to read its answer. -/
def client {α : Type} (p : Session ν α) : Prog (calls ν) Unit := p.run >>= fun _ => pure ()

theorem client_safe {α : Type} {p : Session ν α} {Q : α → World ν → Prop}
    (h : SafeE (exec env) (protocol env law) (fun _ => True) p Q) :
    Safe (exec env) (protocol env law) (fun _ => True) (client p) (fun _ _ => True) :=
  Safe.bind h.run fun _ _ _ _ => trivial

include hmono in
theorem inv_of_clients {spawn : Prog (calls ν) Unit → Prop}
    (hspawn : ∀ p, spawn p →
      Safe (exec env) (protocol env law) (fun _ => True) p (fun _ _ => True))
    {c : Config (calls ν) (World ν)} (hr : Reachable (exec env) spawn Drift World.empty c) :
    (protocol env law).inv c.world :=
  inv_of_reachable hspawn (fun _ _ hi hd => drift_keeps hmono hi hd) inv_empty hr

end Protocol

end Choreographer.SessionLog
