import Choreographer.Lib.Runs
import Choreographer.OutboxClaims
import Choreographer.TamperEvidence

namespace Choreographer.StoreRefinement

open Choreographer.Lib.ByteStrings Choreographer.Lib.SortedMaps Choreographer.Lib.Updates
open Choreographer.Lib.Runs
open Choreographer.Texts Choreographer.Values Choreographer.Audit Choreographer.Instance
open Choreographer.InMemory Choreographer.Redb Choreographer.RedbTables Choreographer.OutboxClaims
open InMemoryCeremonyStore (stored_insert stored_touch landed commit_conflict commit_refused
  commit_landed)

/-- A call of one of the ports that both stores serve. -/
inductive StoreCall
  | commit (commit : CeremonyCommit)
  | append (fact : AuditFact)
  | save (session : CeremonyInstance)
  | get (id : CeremonyId)
  | list
  | doesExist (id : CeremonyId)
  | revision (id : CeremonyId)
  | records (id : CeremonyId)
  | head (id : CeremonyId)
  | claim (limit : Nat) (now : OffsetDateTime) (lease : DurationMs)
  | markDelivered (eventIds : List EventId)
  | markFailed (eventId : EventId)
  | quarantine (eventId : EventId) (reason : OutboxQuarantineReason)
  | quarantined

inductive StoreAnswer
  | outcome (outcome : CommitOutcome)
  | record (record : AuditRecord)
  | done
  | session (session : CeremonyInstance)
  | sessions (sessions : List CeremonyInstance)
  | truth (holds : Bool)
  | revision (revision : Option CeremonyRevision)
  | records (records : List AuditRecord)
  | head (record : Option AuditRecord)
  | messages (messages : List ClaimedOutboxMessage)

abbrev Answered (σ : Type) := Except DomainError StoreAnswer × σ

variable {σ α : Type}

def changing (f : α → StoreAnswer) (r : Except DomainError α × σ) : Answered σ := (r.1.map f, r.2)

def reading (f : α → StoreAnswer) (r : Except DomainError α) (s : σ) : Answered σ := (r.map f, s)

def memoryCall (env : Rendering) : StoreCall → InMemoryCeremonyStore → Answered InMemoryCeremonyStore
  | .commit c, m => changing .outcome (m.commit env c)
  | .append fact, m => changing .record (m.append env fact)
  | .save session, m => (.ok .done, m.save session)
  | .get id, m => reading .session (m.get id) m
  | .list, m => (.ok (.sessions m.list), m)
  | .doesExist id, m => (.ok (.truth (m.doesExist id)), m)
  | .revision id, m => (.ok (.revision (m.revision id)), m)
  | .records id, m => (.ok (.records (m.records id)), m)
  | .head id, m => (.ok (.head (m.head id)), m)
  | .claim limit now lease, m =>
    (.ok (.messages (m.claim limit now lease).1), (m.claim limit now lease).2)
  | .markDelivered eventIds, m => (.ok .done, m.markDelivered eventIds)
  | .markFailed eventId, m => (.ok .done, m.markFailed eventId)
  | .quarantine eventId reason, m => (.ok .done, m.quarantine eventId reason)
  | .quarantined, m => (.ok (.messages m.quarantined), m)

def redbCall (env : Rendering) (codecs : Codecs) :
    StoreCall → RedbCeremonyStore → Answered RedbCeremonyStore
  | .commit c, db => changing .outcome (db.commit env codecs c)
  | .append fact, db => changing .record (db.append env codecs fact)
  | .save session, db => changing (fun _ => .done) (db.save codecs session)
  | .get id, db => reading .session (db.get codecs id) db
  | .list, db => reading .sessions (db.list codecs) db
  | .doesExist id, db => reading .truth (db.doesExist codecs id) db
  | .revision id, db => reading .revision (db.revision codecs id) db
  | .records id, db => reading .records (db.records codecs id) db
  | .head id, db => reading .head (db.head codecs id) db
  | .claim limit now lease, db => changing .messages (db.claim codecs limit now lease)
  | .markDelivered eventIds, db => changing (fun _ => .done) (db.markDelivered codecs eventIds)
  | .markFailed eventId, db => changing (fun _ => .done) (db.markFailed codecs eventId)
  | .quarantine eventId reason, db =>
    changing (fun _ => .done) (db.quarantine codecs eventId reason)
  | .quarantined, db => reading .messages (db.quarantined codecs) db

def answers (call : StoreCall → σ → Answered σ) : List StoreCall → σ →
    List (Except DomainError StoreAnswer) × σ
  | [], s => ([], s)
  | c :: rest, s =>
    let answered := call c s
    let later := answers call rest answered.2
    (answered.1 :: later.1, later.2)

/-- The records a call seals on its way, whether or not they land. -/
def sealedBy (env : Rendering) : StoreCall → InMemoryCeremonyStore → List AuditRecord
  | .commit c, m =>
    if c.expectedRevision.agrees (m.stored c.session.id).revision then
      (sealFacts env (m.stored c.session.id).journal.getLast? c.facts).1
    else []
  | .append fact, m => (sealFacts env (m.stored fact.ceremonyId).journal.getLast? [fact]).1
  | _, _ => []

def rowOf (s : StoredCeremony) : Option CeremonyRow :=
  match s.revision, s.session with
  | some revision, some session => some ⟨revision, session⟩
  | _, _ => none

/-- Everything in the store can be written and read back, and every ordinal fits. -/
structure Storable (codecs : Codecs) (m : InMemoryCeremonyStore) : Prop where
  rows : ∀ id row, rowOf (m.stored id) = some row → RoundTrips codecs.ceremony row
  messages : ∀ id, ∀ e ∈ (m.stored id).outbox, RoundTrips codecs.message e
  records : ∀ id, (m.stored id).journal.length < 2 ^ 64
  ordinals : ∀ id, (m.stored id).outbox.length < 2 ^ 64

/-- The tables hold what the maps hold. -/
structure Refines (codecs : Codecs) (m : InMemoryCeremonyStore) (db : RedbCeremonyStore) :
    Prop where
  rows : ∀ id : CeremonyId, (db.ceremonies.get? (utf8 id.asStr)).map codecs.ceremony.decode =
    (rowOf (m.stored id)).map some
  keyed : ∀ key, db.ceremonies.contains key = true → ∃ id : CeremonyId, key = utf8 id.asStr
  journal : Shows codecs.record 1 db.journal fun id => (m.stored id).journal
  outbox : Shows codecs.message 0 db.outbox fun id => (m.stored id).outbox
  numbered : ∀ id (k : Nat) r, (m.stored id).journal[k]? = some r → r.sequence.value.val = k + 1
  paired : ∀ id, (m.stored id).revision.isSome = (m.stored id).session.isSome

section Stored

variable {m : InMemoryCeremonyStore}

theorem mem_keys_of_stored {id : CeremonyId} (h : m.stored id ≠ StoredCeremony.default) :
    id ∈ OrdMap.keys m := by
  refine OrdMap.mem_keys.mpr ?_
  by_contra hn
  refine h ?_
  have hnone : OrdMap.get? m id = none := by simpa [OrdMap.contains] using hn
  simp [InMemoryCeremonyStore.stored, hnone]

theorem keys_sorted : (OrdMap.keys m).Pairwise (· < ·) := List.pairwise_map.mpr m.sorted

end Stored

section Simulation

variable {env : Rendering} {codecs : Codecs} {m : InMemoryCeremonyStore} {db : RedbCeremonyStore}

theorem refines_empty : Refines codecs OrdMap.empty RedbCeremonyStore.empty where
  rows id := rfl
  keyed key h := by simp [RedbCeremonyStore.empty, OrdMap.contains] at h
  journal := shows_empty
  outbox := shows_empty
  numbered id k r h := by
    simp [InMemoryCeremonyStore.stored, StoredCeremony.default] at h
  paired id := rfl

theorem Refines.of_stored {m' : InMemoryCeremonyStore} (h : Refines codecs m db)
    (hs : ∀ id, m'.stored id = m.stored id) : Refines codecs m' db := by
  have hs' : m'.stored = m.stored := funext hs
  exact ⟨hs' ▸ h.rows, h.keyed, hs' ▸ h.journal, hs' ▸ h.outbox, hs' ▸ h.numbered, hs' ▸ h.paired⟩

theorem Refines.row_eq (h : Refines codecs m db) (id : CeremonyId) :
    db.row codecs id = .ok (rowOf (m.stored id)) := by
  have hrow := h.rows id
  unfold RedbCeremonyStore.row
  cases hget : db.ceremonies.get? (utf8 id.asStr) with
  | none =>
    rw [hget] at hrow
    have hnone : rowOf (m.stored id) = none := by simpa using hrow.symm
    rw [hnone]
  | some bytes =>
    rw [hget] at hrow
    obtain ⟨row, hr, hd⟩ := Option.map_eq_some_iff.mp hrow.symm
    simp only [Redb.decode, ← hd, hr]
    rfl

theorem Refines.journalOf_eq (h : Refines codecs m db) (hm : Storable codecs m) (id : CeremonyId) :
    journalOf codecs db.journal id = .ok (m.stored id).journal :=
  mapM_decode (h.journal.range (fun jd => by have := hm.records jd; omega) id)

theorem Refines.outbox_length (h : Refines codecs m db) (hm : Storable codecs m)
    (id : CeremonyId) :
    (rangeOf db.outbox (scopeRange id)).length = (m.stored id).outbox.length := by
  have hrange := h.outbox.range (fun jd => by have := hm.ordinals jd; omega) id
  simpa using congrArg List.length hrange

theorem Refines.readOutbox_eq (h : Refines codecs m db) (hm : Storable codecs m) :
    readOutbox codecs db.outbox =
      .ok (flat 0 (fun id => (m.stored id).outbox) (OrdMap.keys m)) := by
  have hscan := h.outbox.scan (fun jd => by have := hm.ordinals jd; omega) (keys_sorted (m := m))
    (fun _ => true) (fun id k _ hne => by
      simp only [true_iff]
      exact mem_keys_of_stored fun hd => hne (by rw [hd]; rfl))
  rw [List.filter_true] at hscan
  refine except_mapM_eq_ok ?_
  have hok := congrArg (List.map fun e : List Byte × Option StoredOutboxMessage =>
    (okOr e.2 encodingFailure).map fun stored => (e.1, stored)) hscan
  rw [List.map_map, List.map_map] at hok
  refine Eq.trans (List.map_congr_left fun e _ => ?_) hok
  change (Redb.decode codecs.message e.2 >>= fun stored => pure (e.1, stored)) =
    (Redb.decode codecs.message e.2).map fun stored => (e.1, stored)
  cases Redb.decode codecs.message e.2 <;> rfl

end Simulation

section Writes

variable {env : Rendering} {codecs : Codecs} {db : RedbCeremonyStore}

open RedbCeremonyStore

theorem write_of_succeeds {body : Update DomainError RedbCeremonyStore α} {a : α}
    {db' : RedbCeremonyStore} (h : Succeeds body db a db') : write body db = (.ok a, db') := by
  unfold write
  rw [show body.on db = (.ok a, db') from h]

theorem write_of_refuses {body : Update DomainError RedbCeremonyStore α} {e : DomainError}
    (h : Refuses body db e) : write body db = (.error e, db) := by
  unfold write Refuses at *
  rcases hb : body.on db with ⟨r, db'⟩
  rw [hb] at h
  subst h
  rfl

theorem putRow_succeeds {row : CeremonyRow} (hr : RoundTrips codecs.ceremony row) :
    Succeeds (putRow codecs row) db () { db with
      ceremonies := db.ceremonies.insert (utf8 row.session.id.asStr)
        (bytesOf codecs.ceremony row) } := by
  simp [putRow, hr.encode_eq]

theorem putMessage_succeeds {key : List Byte} {e : StoredOutboxMessage}
    (he : RoundTrips codecs.message e) :
    Succeeds (putMessage codecs key e) db () { db with
      outbox := putEntries codecs.message [(key, e)] db.outbox } := by
  simp [putMessage, he.encode_eq, putEntries]

theorem putRecord_succeeds {id : CeremonyId} {r : AuditRecord} (hr : RoundTrips codecs.record r) :
    Succeeds (putRecord codecs id r) db () { db with
      journal := putEntries codecs.record [(scopedKey id r.sequence.value.val, r)] db.journal } := by
  simp [putRecord, hr.encode_eq, putEntries]

theorem putAll_succeeds {changes : List (List Byte × StoredOutboxMessage)}
    (hc : ∀ c ∈ changes, RoundTrips codecs.message c.2) :
    Succeeds (putAll codecs changes) db () { db with
      outbox := putEntries codecs.message changes db.outbox } := by
  induction changes generalizing db with
  | nil => simp [putAll, putEntries]
  | cons c rest ih =>
    obtain ⟨hhead, hrest⟩ := List.forall_mem_cons.mp hc
    exact succeeds_bind.mpr ⟨(), _, putMessage_succeeds hhead, ih hrest⟩

theorem recordClaims_succeeds {lease : OffsetDateTime} {taken : List (List Byte × StoredOutboxMessage)}
    (ht : ∀ c ∈ taken, RoundTrips codecs.message (c.2.leased lease)) :
    Succeeds (recordClaims codecs lease taken) db (taken.map fun c => c.2.claimed) { db with
      outbox := putEntries codecs.message (taken.map fun c => (c.1, c.2.leased lease)) db.outbox } := by
  induction taken generalizing db with
  | nil => simp [recordClaims, putEntries]
  | cons c rest ih =>
    obtain ⟨hhead, hrest⟩ := List.forall_mem_cons.mp ht
    refine succeeds_bind.mpr ⟨(), _, putMessage_succeeds hhead, ?_⟩
    exact succeeds_bind.mpr ⟨_, _, ih hrest, by simp; rfl⟩

theorem enqueue_succeeds {id : CeremonyId} {ordinal : Nat} {messages : List OutboxMessage}
    (hm : ∀ e ∈ messages, RoundTrips codecs.message (StoredOutboxMessage.enqueued e)) :
    Succeeds (enqueue codecs id ordinal messages) db () { db with
      outbox := putEntries codecs.message
        (entriesAt id ordinal (messages.map StoredOutboxMessage.enqueued)) db.outbox } := by
  induction messages generalizing db ordinal with
  | nil => simp [enqueue, putEntries, entriesAt]
  | cons e rest ih =>
    obtain ⟨hhead, hrest⟩ := List.forall_mem_cons.mp hm
    exact succeeds_bind.mpr ⟨(), _, putMessage_succeeds hhead,
      by simpa [entriesAt, putEntries] using ih hrest⟩

def journalEntry (id : CeremonyId) (r : AuditRecord) : List Byte × AuditRecord :=
  (scopedKey id r.sequence.value.val, r)

theorem putFacts_succeeds {id : CeremonyId} {head : Option AuditRecord} {facts : List AuditFact}
    {sealed : List AuditRecord} (hs : sealFacts env head facts = (sealed, .ok ()))
    (hr : ∀ r ∈ sealed, RoundTrips codecs.record r) :
    Succeeds (putFacts env codecs id head facts) db sealed { db with
      journal := putEntries codecs.record (sealed.map (journalEntry id)) db.journal } := by
  induction facts generalizing db head sealed with
  | nil =>
    obtain ⟨rfl, -⟩ := Prod.mk.inj hs
    simp [putFacts, putEntries]
  | cons fact rest ih =>
    unfold sealFacts at hs
    cases hb : sealBehind env head fact with
    | error e => simp [hb] at hs
    | ok r =>
      simp only [hb, Prod.mk.injEq] at hs
      obtain ⟨rfl, hok⟩ := hs
      obtain ⟨hhead, hrest⟩ := List.forall_mem_cons.mp hr
      refine succeeds_bind.mpr ⟨r, db, by simp [hb], ?_⟩
      refine succeeds_bind.mpr ⟨(), _, putRecord_succeeds hhead, ?_⟩
      exact succeeds_bind.mpr ⟨_, _, ih (Prod.ext rfl hok) hrest, by simp; rfl⟩

theorem putFacts_refuses {id : CeremonyId} {head : Option AuditRecord} {facts : List AuditFact}
    {sealed : List AuditRecord} {e : DomainError}
    (hs : sealFacts env head facts = (sealed, .error e))
    (hr : ∀ r ∈ sealed, RoundTrips codecs.record r) :
    Refuses (putFacts env codecs id head facts) db e := by
  induction facts generalizing db head sealed with
  | nil => simp [sealFacts] at hs
  | cons fact rest ih =>
    unfold sealFacts at hs
    cases hb : sealBehind env head fact with
    | error e' =>
      simp only [hb, Prod.mk.injEq, Except.error.injEq] at hs
      exact refuses_bind.mpr (.inl (refuses_check.mpr (hs.2 ▸ hb)))
    | ok r =>
      simp only [hb, Prod.mk.injEq] at hs
      obtain ⟨rfl, hok⟩ := hs
      obtain ⟨hhead, hrest⟩ := List.forall_mem_cons.mp hr
      refine refuses_bind.mpr (.inr ⟨r, db, by simp [hb], ?_⟩)
      refine refuses_bind.mpr (.inr ⟨(), _, putRecord_succeeds hhead, ?_⟩)
      exact refuses_bind.mpr (.inl (ih (Prod.ext rfl hok) hrest))

end Writes

section Numbers

variable {env : Rendering}

def lastNumber (head : Option AuditRecord) : Nat := (head.map fun r => r.sequence.value.val).getD 0

theorem sealBehind_number {head : Option AuditRecord} {fact : AuditFact} {r : AuditRecord}
    (h : sealBehind env head fact = .ok r) (hfit : lastNumber head + 1 < 2 ^ 64) :
    r.sequence.value.val = lastNumber head + 1 := by
  have hseal {n : AuditSequence} {p : Option AuditRecordHash}
      (hs : AuditRecord.sealAt env fact n p = .ok r) : r.sequence = n := by
    simp only [AuditRecord.sealAt, except_bind_eq_ok] at hs
    obtain ⟨_, -, hs⟩ := hs
    rw [← Except.ok.inj hs]
  cases head with
  | none =>
    rw [hseal h]
    rfl
  | some previous =>
    simp only [sealBehind, AuditRecord.following, except_bind_eq_ok] at h
    obtain ⟨_, -, h⟩ := h
    rw [hseal h, AuditSequence.next, saturatingSucc_val]
    simp only [lastNumber, Option.map_some, Option.getD_some] at hfit ⊢
    omega

theorem sealFacts_numbers {head : Option AuditRecord} {facts : List AuditFact}
    (hfit : lastNumber head + (sealFacts env head facts).1.length < 2 ^ 64) (k : Nat) (r : AuditRecord)
    (h : (sealFacts env head facts).1[k]? = some r) :
    r.sequence.value.val = lastNumber head + k + 1 := by
  induction facts generalizing head k with
  | nil => simp [sealFacts] at h
  | cons fact rest ih =>
    unfold sealFacts at h hfit
    cases hb : sealBehind env head fact with
    | error e => simp [hb] at h
    | ok first =>
      simp only [hb, List.length_cons] at h hfit
      have hfirst := sealBehind_number hb (by omega)
      have hlast : lastNumber (some first) = lastNumber head + 1 := hfirst
      cases k with
      | zero =>
        obtain rfl : first = r := by simpa using h
        exact hfirst
      | succ k =>
        have hk := @ih (some first) (by omega) k (by simpa using h)
        omega

theorem lastNumber_getLast? {journal : List AuditRecord}
    (h : ∀ (k : Nat) r, journal[k]? = some r → r.sequence.value.val = k + 1) :
    lastNumber journal.getLast? = journal.length := by
  rcases List.eq_nil_or_concat journal with rfl | ⟨before, last, rfl⟩
  · rfl
  · have hl := h before.length last (by simp)
    simp [lastNumber, hl]

end Numbers

section Calls

variable {env : Rendering} {codecs : Codecs} {m : InMemoryCeremonyStore} {db : RedbCeremonyStore}

/-- Both stores gave the same answer and still hold the same. -/
def Agree (codecs : Codecs) (a : Answered InMemoryCeremonyStore) (b : Answered RedbCeremonyStore) :
    Prop := a.1 = b.1 ∧ Refines codecs a.2 b.2

theorem rowOf_revision {s : StoredCeremony} (h : s.revision.isSome = s.session.isSome) :
    (rowOf s).map CeremonyRow.revision = s.revision := by
  unfold rowOf
  cases hr : s.revision <;> cases hi : s.session <;> simp_all

theorem rowOf_session {s : StoredCeremony} (h : s.revision.isSome = s.session.isSome) :
    (rowOf s).map CeremonyRow.session = s.session := by
  unfold rowOf
  cases hr : s.revision <;> cases hi : s.session <;> simp_all

theorem Refines.put_row (h : Refines codecs m db) {revision : CeremonyRevision}
    {session : CeremonyInstance} {s : StoredCeremony} (hrow : rowOf s = some ⟨revision, session⟩)
    (hround : RoundTrips codecs.ceremony ⟨revision, session⟩) :
    (∀ id : CeremonyId, ((db.ceremonies.insert (utf8 session.id.asStr)
        (bytesOf codecs.ceremony ⟨revision, session⟩)).get? (utf8 id.asStr)).map
          codecs.ceremony.decode =
        (rowOf (InMemoryCeremonyStore.stored (OrdMap.insert session.id s m) id)).map some) ∧
      ∀ key, (db.ceremonies.insert (utf8 session.id.asStr)
        (bytesOf codecs.ceremony ⟨revision, session⟩)).contains key = true →
        ∃ id : CeremonyId, key = utf8 id.asStr := by
  refine ⟨fun id => ?_, fun key hkey => ?_⟩
  · rw [stored_insert, OrdMap.get?_insert]
    by_cases hid : id = session.id
    · rw [if_pos (by rw [hid]), if_pos hid, hrow]
      simp [hround.decode_eq]
    · have hne : utf8 id.asStr ≠ utf8 session.id.asStr :=
        fun he => hid (Text.ext (utf8_injective he))
      rw [if_neg hne, if_neg hid, h.rows id]
  · rcases OrdMap.contains_insert_iff.mp hkey with rfl | hkey
    · exact ⟨session.id, rfl⟩
    · exact h.keyed key hkey

theorem journal_insert (id : CeremonyId) (s : StoredCeremony) :
    (fun jd => (InMemoryCeremonyStore.stored (OrdMap.insert id s m) jd).journal) =
      Function.update (fun jd => (m.stored jd).journal) id s.journal := by
  funext jd
  rw [stored_insert, Function.update_apply]
  split <;> rfl

theorem outbox_insert (id : CeremonyId) (s : StoredCeremony) :
    (fun jd => (InMemoryCeremonyStore.stored (OrdMap.insert id s m) jd).outbox) =
      Function.update (fun jd => (m.stored jd).outbox) id s.outbox := by
  funext jd
  rw [stored_insert, Function.update_apply]
  split <;> rfl

theorem journalEntries_eq {id : CeremonyId} {n : Nat} {sealed : List AuditRecord}
    (h : ∀ (k : Nat) r, sealed[k]? = some r → r.sequence.value.val = n + k + 1) :
    sealed.map (journalEntry id) = entriesAt id (1 + n) sealed := by
  refine List.ext_getElem? fun k => ?_
  rw [List.getElem?_map, entriesAt, List.getElem?_map, List.getElem?_zipIdx, Option.map_map]
  cases hk : sealed[k]? with
  | none => rfl
  | some r =>
    have hn : n + k + 1 = 1 + n + k := by omega
    simp [journalEntry, h k r hk, hn]

theorem numbered_append {journal sealed : List AuditRecord}
    (hj : ∀ (k : Nat) r, journal[k]? = some r → r.sequence.value.val = k + 1)
    (hs : ∀ (k : Nat) r, sealed[k]? = some r → r.sequence.value.val = journal.length + k + 1)
    (k : Nat) (r : AuditRecord) (h : (journal ++ sealed)[k]? = some r) :
    r.sequence.value.val = k + 1 := by
  rw [List.getElem?_append] at h
  split at h
  · exact hj k r h
  · rw [hs _ r h]
    omega

theorem landed_agrees (h : Refines codecs m db) (hm : Storable codecs m) {c : CeremonyCommit}
    {sealed : List AuditRecord}
    (hag : c.expectedRevision.agrees (m.stored c.session.id).revision = true)
    (hs : sealFacts env (m.stored c.session.id).journal.getLast? c.facts = (sealed, .ok ()))
    (hsealed : ∀ r ∈ sealed, RoundTrips codecs.record r)
    (hm' : Storable codecs (OrdMap.insert c.session.id (landed (m.stored c.session.id) c sealed) m)) :
    Agree codecs
      (.ok (.outcome (.committed c.expectedRevision.resultingRevision sealed)),
        OrdMap.insert c.session.id (landed (m.stored c.session.id) c sealed) m)
      (changing .outcome (db.commit env codecs c)) := by
  have hself : InMemoryCeremonyStore.stored
      (OrdMap.insert c.session.id (landed (m.stored c.session.id) c sealed) m) c.session.id =
        landed (m.stored c.session.id) c sealed := by rw [stored_insert, if_pos rfl]
  have hrow : rowOf (landed (m.stored c.session.id) c sealed) =
      some ⟨c.expectedRevision.resultingRevision, c.session⟩ := rfl
  have hround := hm'.rows c.session.id _ (hself ▸ hrow)
  have hcount : (m.stored c.session.id).journal.length + sealed.length < 2 ^ 64 := by
    have hlen := hm'.records c.session.id
    rw [hself] at hlen
    simpa [landed] using hlen
  have hordinals : (m.stored c.session.id).outbox.length + c.messages.length < 2 ^ 64 := by
    have hlen := hm'.ordinals c.session.id
    rw [hself] at hlen
    simpa [landed] using hlen
  have hqueued : ∀ e ∈ c.messages.map StoredOutboxMessage.enqueued, RoundTrips codecs.message e :=
    fun e he => hm'.messages c.session.id e (by rw [hself]; exact List.mem_append_right _ he)
  have hnumbers : ∀ (k : Nat) r, sealed[k]? = some r →
      r.sequence.value.val = (m.stored c.session.id).journal.length + k + 1 := by
    have hn := @sealFacts_numbers env (m.stored c.session.id).journal.getLast? c.facts
    rw [hs, lastNumber_getLast? (h.numbered c.session.id)] at hn
    exact hn hcount
  have hdb : db.commit env codecs c = (.ok (.committed c.expectedRevision.resultingRevision sealed),
      { ceremonies := db.ceremonies.insert (utf8 c.session.id.asStr)
          (bytesOf codecs.ceremony ⟨c.expectedRevision.resultingRevision, c.session⟩)
        journal := putEntries codecs.record (sealed.map (journalEntry c.session.id)) db.journal
        outbox := putEntries codecs.message (entriesAt c.session.id
          (m.stored c.session.id).outbox.length
          (c.messages.map StoredOutboxMessage.enqueued)) db.outbox }) := by
    refine write_of_succeeds
      (succeeds_bind.mpr ⟨_, db, succeeds_check.mpr ⟨h.row_eq c.session.id, rfl⟩, ?_⟩)
    simp only [rowOf_revision (h.paired c.session.id), hag, if_true]
    refine succeeds_bind.mpr ⟨_, db, succeeds_check.mpr ⟨h.journalOf_eq hm c.session.id, rfl⟩, ?_⟩
    refine succeeds_bind.mpr ⟨_, _, putFacts_succeeds hs hsealed, ?_⟩
    refine succeeds_bind.mpr ⟨_, _, succeeds_get.mpr ⟨rfl, rfl⟩, ?_⟩
    refine succeeds_bind.mpr ⟨_, _, enqueue_succeeds (by simpa using hqueued), ?_⟩
    refine succeeds_bind.mpr ⟨_, _, putRow_succeeds hround, ?_⟩
    simp [h.outbox_length hm]
  rw [hdb]
  obtain ⟨hrows, hkeyed⟩ := h.put_row hrow hround
  refine ⟨rfl, hrows, hkeyed, ?_, ?_, fun id k r hk => ?_, fun id => ?_⟩
  · rw [journal_insert, journalEntries_eq hnumbers]
    exact h.journal.extend _ _ (by omega) hsealed
  · rw [outbox_insert]
    have hext := h.outbox.extend c.session.id
      (c.messages.map StoredOutboxMessage.enqueued) (by simp; omega) hqueued
    rwa [Nat.zero_add] at hext
  · rw [stored_insert] at hk
    split at hk
    · exact numbered_append (h.numbered c.session.id) hnumbers k r hk
    · exact h.numbered id k r hk
  · rw [stored_insert]
    split
    · rfl
    · exact h.paired id

theorem commit_agrees (h : Refines codecs m db) (hm : Storable codecs m) {c : CeremonyCommit}
    (hsealed : ∀ r ∈ sealedBy env (.commit c) m, RoundTrips codecs.record r)
    (hm' : Storable codecs (memoryCall env (.commit c) m).2) :
    Agree codecs (memoryCall env (.commit c) m) (redbCall env codecs (.commit c) db) := by
  have hrow := h.row_eq c.session.id
  have hrevision := rowOf_revision (h.paired c.session.id)
  have hjournal := h.journalOf_eq hm c.session.id
  simp only [memoryCall, redbCall, sealedBy] at hsealed hm' ⊢
  cases hag : c.expectedRevision.agrees (m.stored c.session.id).revision with
  | false =>
    have hdb : db.commit env codecs c =
        (.ok (.conflict c.expectedRevision (m.stored c.session.id).revision), db) := by
      refine write_of_succeeds (succeeds_bind.mpr ⟨_, db, succeeds_check.mpr ⟨hrow, rfl⟩, ?_⟩)
      simp [hrevision, hag]
    rw [hdb, commit_conflict hag]
    exact ⟨rfl, h.of_stored (stored_touch _)⟩
  | true =>
    rw [if_pos hag] at hsealed
    rcases hs : sealFacts env (m.stored c.session.id).journal.getLast? c.facts with ⟨sealed, res⟩
    rw [hs] at hsealed
    cases res with
    | error e =>
      have hdb : db.commit env codecs c = (.error e, db) := by
        refine write_of_refuses
          (refuses_bind.mpr (.inr ⟨_, db, succeeds_check.mpr ⟨hrow, rfl⟩, ?_⟩))
        simp only [hrevision, hag, if_true]
        refine refuses_bind.mpr (.inr ⟨_, db, succeeds_check.mpr ⟨hjournal, rfl⟩, ?_⟩)
        exact refuses_bind.mpr (.inl (putFacts_refuses hs hsealed))
      rw [hdb, commit_refused hag hs]
      exact ⟨rfl, h.of_stored (stored_touch _)⟩
    | ok u =>
      rw [commit_landed hag hs] at hm' ⊢
      exact landed_agrees h hm hag hs hsealed hm'

theorem append_agrees (h : Refines codecs m db) (hm : Storable codecs m) {fact : AuditFact}
    (hsealed : ∀ r ∈ sealedBy env (.append fact) m, RoundTrips codecs.record r)
    (hm' : Storable codecs (memoryCall env (.append fact) m).2) :
    Agree codecs (memoryCall env (.append fact) m) (redbCall env codecs (.append fact) db) := by
  have hjournal := h.journalOf_eq hm fact.ceremonyId
  simp only [memoryCall, redbCall, sealedBy, InMemoryCeremonyStore.append] at hsealed hm' ⊢
  cases hb : sealBehind env (m.stored fact.ceremonyId).journal.getLast? fact with
  | error e =>
    have hdb : db.append env codecs fact = (.error e, db) := by
      refine write_of_refuses
        (refuses_bind.mpr (.inr ⟨_, db, succeeds_check.mpr ⟨hjournal, rfl⟩, ?_⟩))
      exact refuses_bind.mpr (.inl (refuses_check.mpr hb))
    rw [hdb]
    exact ⟨rfl, h.of_stored (stored_touch _)⟩
  | ok r =>
    have hround : RoundTrips codecs.record r := hsealed r (by simp [sealFacts, hb])
    rw [hb] at hm'
    simp only [changing, OrdMap.insert_insert] at hm' ⊢
    have hcount : (m.stored fact.ceremonyId).journal.length + 1 < 2 ^ 64 := by
      have hlen := hm'.records fact.ceremonyId
      rw [stored_insert, if_pos rfl] at hlen
      simpa using hlen
    have hnumber : ∀ (k : Nat) s, [r][k]? = some s →
        s.sequence.value.val = (m.stored fact.ceremonyId).journal.length + k + 1 := by
      intro k s hk
      obtain ⟨rfl, rfl⟩ : k = 0 ∧ r = s := by
        cases k <;> simp_all
      have hlast := lastNumber_getLast? (h.numbered fact.ceremonyId)
      rw [sealBehind_number hb (by omega), hlast]
    have hdb : db.append env codecs fact = (.ok r, { db with
        journal := putEntries codecs.record ([r].map (journalEntry fact.ceremonyId)) db.journal }) := by
      refine write_of_succeeds (succeeds_bind.mpr ⟨_, db, succeeds_check.mpr ⟨hjournal, rfl⟩, ?_⟩)
      refine succeeds_bind.mpr ⟨_, db, succeeds_check.mpr ⟨hb, rfl⟩, ?_⟩
      exact succeeds_bind.mpr ⟨_, _, putRecord_succeeds hround, by simp; rfl⟩
    rw [hdb]
    refine ⟨rfl, fun id => ?_, h.keyed, ?_, ?_, fun id k s hk => ?_, fun id => ?_⟩
    · rw [stored_insert, h.rows id]
      split
      · next hid => rw [hid]; rfl
      · rfl
    · rw [journal_insert, journalEntries_eq hnumber]
      exact h.journal.extend _ _ (by simp; omega) (by simpa using hround)
    · rw [outbox_insert, Function.update_eq_self]
      exact h.outbox
    · rw [stored_insert] at hk
      split at hk
      · exact numbered_append (h.numbered fact.ceremonyId) hnumber k s hk
      · exact h.numbered id k s hk
    · rw [stored_insert]
      split
      · exact h.paired _
      · exact h.paired id

theorem save_agrees (h : Refines codecs m db) {session : CeremonyInstance}
    (hm' : Storable codecs (memoryCall env (.save session) m).2) :
    Agree codecs (memoryCall env (.save session) m) (redbCall env codecs (.save session) db) := by
  simp only [memoryCall, redbCall, InMemoryCeremonyStore.save] at hm' ⊢
  have hrevision : (((rowOf (m.stored session.id)).map fun row => row.revision.next).getD
      CeremonyRevision.initial) =
      ((m.stored session.id).revision.map CeremonyRevision.next).getD CeremonyRevision.initial := by
    rw [← rowOf_revision (h.paired session.id), Option.map_map]
    rfl
  have hround := hm'.rows session.id _ (by rw [stored_insert, if_pos rfl]; rfl)
  have hdb : db.save codecs session = (.ok (), { db with
      ceremonies := db.ceremonies.insert (utf8 session.id.asStr) (bytesOf codecs.ceremony
        ⟨((m.stored session.id).revision.map CeremonyRevision.next).getD CeremonyRevision.initial,
          session⟩) }) := by
    refine write_of_succeeds
      (succeeds_bind.mpr ⟨_, db, succeeds_check.mpr ⟨h.row_eq session.id, rfl⟩, ?_⟩)
    rw [hrevision]
    exact putRow_succeeds hround
  rw [hdb]
  obtain ⟨hrows, hkeyed⟩ := h.put_row (s := { m.stored session.id with
    revision := some (((m.stored session.id).revision.map CeremonyRevision.next).getD
      CeremonyRevision.initial)
    session := some session }) rfl hround
  refine ⟨rfl, hrows, hkeyed, ?_, ?_, fun id k r hk => ?_, fun id => ?_⟩
  · rw [journal_insert, Function.update_eq_self]
    exact h.journal
  · rw [outbox_insert, Function.update_eq_self]
    exact h.outbox
  · rw [stored_insert] at hk
    split at hk
    · exact h.numbered _ k r hk
    · exact h.numbered id k r hk
  · rw [stored_insert]
    split
    · rfl
    · exact h.paired id

theorem Refines.rows_eq (h : Refines codecs m db) :
    (db.ceremonies.entries.map fun e => (e.1, codecs.ceremony.decode e.2)) =
      (OrdMap.entries m).filterMap fun e =>
        (rowOf e.2).map fun row => (utf8 e.1.asStr, some row) := by
  refine OrdMap.entries_ext ?_ ?_ ?_
  · exact OrdMap.sorted_of_keys (by simp [Function.comp_def]) db.ceremonies.sorted
  · refine List.pairwise_filterMap.mpr (m.sorted.imp fun {a b} hab x hx y hy => ?_)
    obtain ⟨_, -, rfl⟩ := Option.map_eq_some_iff.mp hx
    obtain ⟨_, -, rfl⟩ := Option.map_eq_some_iff.mp hy
    exact Text.lt_iff.mp hab
  rintro ⟨key, value⟩
  simp only [List.mem_map, List.mem_filterMap, Prod.exists, Prod.mk.injEq, OrdMap.mem_entries]
  constructor
  · rintro ⟨_, bytes, hget, rfl, rfl⟩
    obtain ⟨id, rfl⟩ := h.keyed _ (OrdMap.contains_iff.mpr ⟨bytes, hget⟩)
    have hrow := h.rows id
    rw [hget] at hrow
    obtain ⟨row, hr, hd⟩ := Option.map_eq_some_iff.mp hrow.symm
    have hmem := @mem_keys_of_stored m id fun hd => by
      simp [hd, rowOf, StoredCeremony.default] at hr
    obtain ⟨s, hs⟩ := OrdMap.contains_iff.mp (OrdMap.mem_keys.mp hmem)
    have hstored : m.stored id = s := stored_of_mem (OrdMap.mem_entries.mpr hs)
    exact ⟨id, s, hs, by rw [← hstored, hr, ← hd]; rfl⟩
  · rintro ⟨id, s, hs, he⟩
    obtain ⟨row, hr, hrow⟩ := Option.map_eq_some_iff.mp he
    obtain ⟨rfl, rfl⟩ := Prod.mk.inj hrow
    have hstored : m.stored id = s := stored_of_mem (OrdMap.mem_entries.mpr hs)
    have hrows := h.rows id
    rw [hstored, hr] at hrows
    obtain ⟨bytes, hget, hd⟩ := Option.map_eq_some_iff.mp hrows
    exact ⟨_, bytes, hget, rfl, hd⟩

theorem Refines.list_eq (h : Refines codecs m db) : db.list codecs = .ok m.list := by
  refine except_mapM_eq_ok ?_
  have hok := congrArg (List.map fun e : List Byte × Option CeremonyRow =>
    (okOr e.2 encodingFailure).map CeremonyRow.session) h.rows_eq
  rw [List.map_map] at hok
  refine Eq.trans (List.map_congr_left fun e _ => ?_) (hok.trans ?_)
  · change (Redb.decode codecs.ceremony e.2 >>= fun row => pure row.session) =
      (Redb.decode codecs.ceremony e.2).map CeremonyRow.session
    cases Redb.decode codecs.ceremony e.2 <;> rfl
  · rw [List.map_filterMap, InMemoryCeremonyStore.list, OrdMap.values, List.filterMap_map,
      List.map_filterMap]
    refine List.filterMap_congr fun e he => ?_
    have hstored : m.stored e.1 = e.2 := stored_of_mem he
    have hsession := rowOf_session (h.paired e.1)
    rw [hstored] at hsession
    rw [Function.comp_apply, ← hsession, Option.map_map, Option.map_map]
    rfl

theorem claim_agrees (h : Refines codecs m db) (hm : Storable codecs m) {limit : Nat}
    {now : OffsetDateTime} {lease : DurationMs}
    (hm' : Storable codecs (memoryCall env (.claim limit now lease) m).2) :
    Agree codecs (memoryCall env (.claim limit now lease) m)
      (redbCall env codecs (.claim limit now lease) db) := by
  simp only [memoryCall, redbCall] at hm' ⊢
  have hsorted := @picks_sorted limit now m.entries m.sorted
  have htaken : RedbCeremonyStore.takeHeads limit now
      (flat 0 (fun id => (m.stored id).outbox) (OrdMap.keys m)) [] none =
        (picks limit now (OrdMap.entries m)).map Pick.entry :=
    takeHeads_flat m.sorted (fun e he => by rw [stored_of_mem he]) [] (fun e _ => by simp)
  have hpicked : ∀ p ∈ picks limit now (OrdMap.entries m),
      (m.stored p.ceremony).outbox[p.index]? = some p.message ∧
        ((m.claim limit now lease).2.stored p.ceremony).outbox[p.index]? =
          some (p.message.leased (now.plus lease)) := by
    intro p hp
    obtain ⟨s, hs, hmsg⟩ := pick_mem hp
    have hstored : m.stored p.ceremony = s := stored_of_mem hs
    refine ⟨hstored ▸ hmsg, ?_⟩
    rw [stored_claim, leasedIn, pickOf_of_mem hsorted hp, hstored]
    simp [(List.getElem?_eq_some_iff.mp hmsg).1]
  have hround : ∀ c ∈ (picks limit now (OrdMap.entries m)).map Pick.entry,
      RoundTrips codecs.message (c.2.leased (now.plus lease)) := by
    intro c hc
    obtain ⟨p, hp, rfl⟩ := List.mem_map.mp hc
    exact hm'.messages p.ceremony _ (List.mem_of_getElem? (hpicked p hp).2)
  have hdb : db.claim codecs limit now lease =
      (.ok (((picks limit now (OrdMap.entries m)).map Pick.entry).map fun c => c.2.claimed), { db with
        outbox := putEntries codecs.message (((picks limit now (OrdMap.entries m)).map Pick.entry).map
          fun c => (c.1, c.2.leased (now.plus lease))) db.outbox }) := by
    refine write_of_succeeds
      (succeeds_bind.mpr ⟨_, db, succeeds_check.mpr ⟨h.readOutbox_eq hm, rfl⟩, ?_⟩)
    rw [htaken]
    exact recordClaims_succeeds hround
  have hclaimed : (m.claim limit now lease).1 =
      ((picks limit now (OrdMap.entries m)).map Pick.entry).map fun c => c.2.claimed := by
    rw [List.map_map]
    exact claim_picks limit now lease
  rw [hdb, hclaimed]
  refine ⟨rfl, fun id => ?_, h.keyed, ?_, ?_, fun id k r hk => ?_, fun id => ?_⟩
  · rw [stored_claim]
    exact h.rows id
  · simp only [stored_claim]
    exact h.journal
  · refine h.outbox.put (fun c hc => ?_) (fun id k hk hnone => ?_)
    · obtain ⟨_, hc', rfl⟩ := List.mem_map.mp hc
      obtain ⟨p, hp, rfl⟩ := List.mem_map.mp hc'
      have hlt := (List.getElem?_eq_some_iff.mp (hpicked p hp).1).1
      have hfit := hm.ordinals p.ceremony
      exact ⟨hround _ hc', p.ceremony, p.index, by omega, by simp [Pick.entry], (hpicked p hp).2⟩
    · rw [stored_claim]
      unfold leasedIn
      cases hp : pickOf (picks limit now (OrdMap.entries m)) id with
      | none => rfl
      | some p =>
        have hmem := List.mem_of_find?_eq_some hp
        have hid : p.ceremony = id := by simpa using List.find?_some hp
        refine List.getElem?_set_ne fun hpk => hnone (p.message.leased (now.plus lease)) ?_
        refine List.mem_map.mpr ⟨p.entry, List.mem_map_of_mem hmem, ?_⟩
        simp [Pick.entry, hid, hpk]
  · rw [stored_claim] at hk
    exact h.numbered id k r hk
  · rw [stored_claim]
    exact h.paired id

/-- A change of messages that says truly whether it changed anything. -/
def Tells (change : StoredOutboxMessage → StoredOutboxMessage × Bool) : Prop :=
  ∀ e, (change e).2 = false → (change e).1 = e

theorem updateMessages_agrees (h : Refines codecs m db) (hm : Storable codecs m)
    {change : StoredOutboxMessage → StoredOutboxMessage × Bool} (htells : Tells change)
    (hm' : Storable codecs (m.updateMessages change)) :
    Agree codecs (.ok .done, m.updateMessages change)
      (changing (fun _ => .done) (db.updateMessages codecs change)) := by
  have hround : ∀ c ∈ (flat 0 (fun id => (m.stored id).outbox) (OrdMap.keys m)).filterMap
      (fun e => if (change e.2).2 then some (e.1, (change e.2).1) else none),
      RoundTrips codecs.message c.2 ∧ ∃ id k, 0 + k < 2 ^ 64 ∧ c.1 = scopedKey id (0 + k) ∧
        ((m.updateMessages change).stored id).outbox[k]? = some c.2 := by
    intro c hc
    obtain ⟨e, he, hce⟩ := List.mem_filterMap.mp hc
    obtain ⟨id, -, k, hk, hkey⟩ := mem_flat.mp he
    split at hce
    · obtain rfl := Option.some.inj hce
      have hlt := (List.getElem?_eq_some_iff.mp hk).1
      have hfit := hm.ordinals id
      have hnew : ((m.updateMessages change).stored id).outbox[k]? = some (change e.2).1 := by
        simp [stored_updateMessages, hk]
      exact ⟨hm'.messages id _ (List.mem_of_getElem? hnew), id, k, by omega, hkey, hnew⟩
    · simp at hce
  have hdb : db.updateMessages codecs change = (.ok (), { db with
      outbox := putEntries codecs.message
        ((flat 0 (fun id => (m.stored id).outbox) (OrdMap.keys m)).filterMap
          fun e => if (change e.2).2 then some (e.1, (change e.2).1) else none) db.outbox }) := by
    refine write_of_succeeds
      (succeeds_bind.mpr ⟨_, db, succeeds_check.mpr ⟨h.readOutbox_eq hm, rfl⟩, ?_⟩)
    exact putAll_succeeds fun c hc => (hround c hc).1
  rw [hdb]
  refine ⟨rfl, fun id => ?_, h.keyed, ?_, ?_, fun id k r hk => ?_, fun id => ?_⟩
  · rw [stored_updateMessages]
    exact h.rows id
  · simp only [stored_updateMessages]
    exact h.journal
  · refine h.outbox.put hround (fun id k hk hnone => ?_)
    rw [stored_updateMessages, List.getElem?_map]
    cases he : (m.stored id).outbox[k]? with
    | none => rfl
    | some e =>
      cases hc : (change e).2 with
      | false => rw [Option.map_some, htells e hc]
      | true =>
        refine absurd (List.mem_filterMap.mpr ⟨(scopedKey id (0 + k), e), ?_, ?_⟩)
          (hnone (change e).1)
        · refine mem_flat.mpr ⟨id, mem_keys_of_stored fun hd => ?_, k, he, rfl⟩
          simp [hd, StoredCeremony.default] at he
        · simp [hc]
  · rw [stored_updateMessages] at hk
    exact h.numbered id k r hk
  · rw [stored_updateMessages]
    exact h.paired id

theorem Refines.quarantined_eq (h : Refines codecs m db) (hm : Storable codecs m) :
    db.quarantined codecs = .ok m.quarantined := by
  have hvalues : (flat 0 (fun id => (m.stored id).outbox) (OrdMap.keys m)).map Prod.snd =
      (OrdMap.values m).flatMap StoredCeremony.outbox := by
    rw [flat_values, OrdMap.keys, OrdMap.values, List.flatMap_map, List.flatMap_map]
    refine List.flatMap_congr fun e he => ?_
    rw [stored_of_mem he]
  unfold RedbCeremonyStore.quarantined InMemoryCeremonyStore.quarantined
  rw [h.readOutbox_eq hm, ← hvalues, List.filter_map, List.map_map]
  rfl

theorem tells_markDelivered (eventIds : List EventId) :
    Tells (StoredOutboxMessage.markDelivered eventIds) := by
  intro e he
  unfold StoredOutboxMessage.markDelivered at he ⊢
  split_ifs at he ⊢
  rfl

theorem tells_markFailed (eventId : EventId) : Tells (StoredOutboxMessage.markFailed eventId) := by
  intro e he
  unfold StoredOutboxMessage.markFailed at he ⊢
  split_ifs at he ⊢
  rfl

theorem tells_quarantined (eventId : EventId) (reason : OutboxQuarantineReason) :
    Tells (StoredOutboxMessage.quarantined eventId reason) := by
  intro e he
  unfold StoredOutboxMessage.quarantined at he ⊢
  split_ifs at he ⊢
  rfl

theorem call_agrees (h : Refines codecs m db) (hm : Storable codecs m) (call : StoreCall)
    (hsealed : ∀ r ∈ sealedBy env call m, RoundTrips codecs.record r)
    (hm' : Storable codecs (memoryCall env call m).2) :
    Agree codecs (memoryCall env call m) (redbCall env codecs call db) := by
  cases call with
  | commit c => exact commit_agrees h hm hsealed hm'
  | append fact => exact append_agrees h hm hsealed hm'
  | save session => exact save_agrees h hm'
  | get id =>
    refine ⟨?_, h⟩
    simp only [memoryCall, redbCall, reading, InMemoryCeremonyStore.get, RedbCeremonyStore.get,
      h.row_eq, ← rowOf_session (h.paired id)]
    rfl
  | list =>
    refine ⟨?_, h⟩
    simp only [memoryCall, redbCall, reading, h.list_eq]
    rfl
  | doesExist id =>
    refine ⟨?_, h⟩
    simp only [memoryCall, redbCall, reading, InMemoryCeremonyStore.doesExist,
      RedbCeremonyStore.doesExist, h.row_eq, ← rowOf_session (h.paired id), Option.isSome_map]
    rfl
  | revision id =>
    refine ⟨?_, h⟩
    simp only [memoryCall, redbCall, reading, InMemoryCeremonyStore.revision,
      RedbCeremonyStore.revision, h.row_eq, ← rowOf_revision (h.paired id)]
    rfl
  | records id =>
    refine ⟨?_, h⟩
    simp only [memoryCall, redbCall, reading, RedbCeremonyStore.records, h.journalOf_eq hm]
    rfl
  | head id =>
    refine ⟨?_, h⟩
    simp only [memoryCall, redbCall, reading, RedbCeremonyStore.head, RedbCeremonyStore.records,
      h.journalOf_eq hm]
    rfl
  | claim limit now lease => exact claim_agrees h hm hm'
  | markDelivered eventIds => exact updateMessages_agrees h hm (tells_markDelivered eventIds) hm'
  | markFailed eventId => exact updateMessages_agrees h hm (tells_markFailed eventId) hm'
  | quarantine eventId reason =>
    exact updateMessages_agrees h hm (tells_quarantined eventId reason) hm'
  | quarantined =>
    refine ⟨?_, h⟩
    simp only [memoryCall, redbCall, reading, h.quarantined_eq hm]
    rfl

def memoryAfter (env : Rendering) (calls : List StoreCall) : InMemoryCeremonyStore :=
  (answers (memoryCall env) calls OrdMap.empty).2

theorem answers_append (call : StoreCall → σ → Answered σ) (before after : List StoreCall) (s : σ) :
    answers call (before ++ after) s =
      ((answers call before s).1 ++ (answers call after (answers call before s).2).1,
        (answers call after (answers call before s).2).2) := by
  induction before generalizing s with
  | nil => rfl
  | cons c before ih => simp [answers, ih]

/-- What the calls put into the stores can be written down and read back. -/
structure Fits (env : Rendering) (codecs : Codecs) (calls : List StoreCall) : Prop where
  sealed : ∀ before call after, calls = before ++ call :: after →
    ∀ r ∈ sealedBy env call (memoryAfter env before), RoundTrips codecs.record r
  stored : ∀ before, before <+: calls → Storable codecs (memoryAfter env before)

theorem Fits.of_append {before after : List StoreCall} (h : Fits env codecs (before ++ after)) :
    Fits env codecs before where
  sealed b c a he := h.sealed b c (a ++ after) (by simp [he])
  stored b hb := h.stored b (hb.trans (List.prefix_append _ _))

theorem memoryAfter_concat (env : Rendering) (before : List StoreCall) (call : StoreCall) :
    memoryAfter env (before ++ [call]) = (memoryCall env call (memoryAfter env before)).2 := by
  simp [memoryAfter, answers_append, answers]

theorem answers_agree (calls : List StoreCall) (h : Fits env codecs calls) :
    (answers (memoryCall env) calls OrdMap.empty).1 =
        (answers (redbCall env codecs) calls RedbCeremonyStore.empty).1 ∧
      Refines codecs (memoryAfter env calls)
        (answers (redbCall env codecs) calls RedbCeremonyStore.empty).2 := by
  induction calls using List.reverseRecOn with
  | nil => exact ⟨rfl, refines_empty⟩
  | append_singleton before call ih =>
    obtain ⟨hsame, href⟩ := ih h.of_append
    have hm' := h.stored (before ++ [call]) List.prefix_rfl
    rw [memoryAfter_concat] at hm' ⊢
    obtain ⟨hanswer, hnext⟩ := call_agrees href (h.stored before (List.prefix_append _ _)) call
      (h.sealed before call [] rfl) hm'
    rw [answers_append, answers_append]
    refine ⟨?_, hnext⟩
    simp only [answers, hsame]
    rw [← hanswer]
    rfl

/-- The durable store answers every sequence of calls as the map store does. -/
theorem durable_refines_memory (env : Rendering) (codecs : Codecs) (calls : List StoreCall)
    (h : Fits env codecs calls) :
    (answers (redbCall env codecs) calls RedbCeremonyStore.empty).1 =
      (answers (memoryCall env) calls OrdMap.empty).1 :=
  (answers_agree calls h).1.symm

end Calls

section Example

open TamperEvidence (opening move table)

def openingJson : String :=
  "\x7b\"event_id\":\"c1:ceremony_instance_started:session\"," ++
    "\"event_type\":\"ceremony_instance_started\",\"schema_version\":1," ++
    "\"ceremony_id\":\"c1\",\"definition_name\":\"release\"," ++
    "\"definition_version\":\"1\",\"sequence\":1,\"occurred_at\":\"1970-01-01T00:00:00Z\"," ++
    "\"actor\":\x7b\"actor_id\":\"choreographer\",\"kind\":\"engine\",\"role_id\":null\x7d," ++
    "\"correlation_id\":null,\"causation_id\":null,\"trace_id\":null," ++
    "\"previous_record_hash\":null,\"record_hash\":[91,133,71,148,51,13,187," ++
    "226,97,107,133,120,36,131,153," ++
    "144,131,237,34,216,58,182,206,3,226,220,187,2,98,251,50,109]\x7d"

def moveJson : String :=
  "\x7b\"event_id\":\"c1:transition_applied:transition:1\",\"event_type\":\"transition_applied\"," ++
    "\"schema_version\":1,\"ceremony_id\":\"c1\",\"definition_name\":\"release\"," ++
    "\"definition_version\":\"1\",\"sequence\":2,\"occurred_at\":\"1970-01-01T00:00:01Z\"," ++
    "\"actor\":\x7b\"actor_id\":\"lead\",\"kind\":\"human\",\"role_id\":\"lead\"\x7d," ++
    "\"correlation_id\":null,\"causation_id\":null,\"trace_id\":null,\"previous_record_hash\":[91," ++
    "133,71,148,51,13,187,226,97,107,133,120,36,131,153,144,131,237,34,216," ++
    "58,182,206,3,226,220,187,2,98,251,50,109],\"record_hash\":[135,7,61,36," ++
    "194,201,117,131,230,69,46,172,97,152,12,0,89,113,138,227,186,89,92,55," ++
    "136,67,69,217,73,121,149,248]\x7d"

def released : CeremonyInstance where
  id := ⟨"c1", by decide⟩
  definitionName := ⟨"release", by decide⟩
  definitionVersion := versionOne
  currentState := ⟨"planned", by decide⟩
  stepRecords := OrdMap.empty
  interventions := []
  guardDeferrals := []
  guardApprovals := []
  transitions := []
  reasons := []
  participantBindings := OrdMap.empty
  context := CeremonyContext.empty
  idempotencyKeys := OrdSet.ofList []
  createdAt := ⟨0, 0⟩
  updatedAt := ⟨0, 0⟩
  completedAt := none
  boundDefinition := none

def releasedRow : CeremonyRow := ⟨CeremonyRevision.initial, released⟩

def rowJson : String :=
  "\x7b\"revision\":1,\"instance\":\x7b\"id\":\"c1\",\"definition_name\":\"release\"," ++
    "\"definition_version\":\"1\",\"current_state\":\"planned\",\"step_records\":\x7b\x7d," ++
    "\"interventions\":[],\"guard_deferrals\":[],\"guard_approvals\":[],\"transitions\":[]," ++
    "\"reasons\":[],\"participant_bindings\":\x7b\x7d,\"context\":\x7b\x7d,\"idempotency_keys\":[]," ++
    "\"created_at\":\"1970-01-01T00:00:00Z\",\"updated_at\":\"1970-01-01T00:00:00Z\"," ++
    "\"completed_at\":null,\"bound_definition\":null\x7d\x7d"

def notice : OutboxMessage where
  eventId := ⟨"c1:opened", by decide⟩
  subject := ⟨"release.opened", by decide⟩
  payload := .string "c1"
  enqueuedAt := ⟨0, 0⟩
  notNull := rfl

def noon : OffsetDateTime := ⟨2000000000, 0⟩
def afternoon : OffsetDateTime := ⟨3000000000, 0⟩

def enqueued : StoredOutboxMessage := .enqueued notice
def claimed : StoredOutboxMessage := enqueued.leased afternoon
def delivered : StoredOutboxMessage := { enqueued with delivered := true }

def messageJson (claimedUntil delivered : String) : String :=
  "\x7b\"message\":\x7b\"event_id\":\"c1:opened\",\"subject\":\"release.opened\"," ++
    "\"payload\":\"c1\",\"enqueued_at\":\"1970-01-01T00:00:00Z\"\x7d,\"attempt\":0," ++
    "\"claimed_until\":" ++ claimedUntil ++ ",\"delivered\":" ++ delivered ++
    ",\"quarantine\":null\x7d"

def enqueuedJson : String := messageJson "null" "false"
def claimedJson : String := messageJson "\"1970-01-01T00:00:03Z\"" "false"
def deliveredJson : String := messageJson "null" "true"

/-- The JSON of two records, of the session and of the notice as it goes out. Nothing else is
stored below. -/
def releaseJson : Codecs where
  ceremony :=
    { encode := fun _ => some (utf8 rowJson)
      decode := fun bytes => if bytes = utf8 rowJson then some releasedRow else none }
  record :=
    { encode := fun r => if r = opening then some (utf8 openingJson)
        else if r = move then some (utf8 moveJson) else none
      decode := fun bytes => if bytes = utf8 openingJson then some opening
        else if bytes = utf8 moveJson then some move else none }
  message :=
    { encode := fun e => some (utf8 (if e.delivered then deliveredJson
        else if e.claimedUntil.isSome then claimedJson else enqueuedJson))
      decode := fun bytes => if bytes = utf8 enqueuedJson then some enqueued
        else if bytes = utf8 claimedJson then some claimed
        else if bytes = utf8 deliveredJson then some delivered else none }

def openingFact : AuditFact where
  eventId := ⟨"c1:ceremony_instance_started:session", by decide⟩
  eventType := .ceremonyInstanceStarted
  ceremonyId := ⟨"c1", by decide⟩
  definitionName := ⟨"release", by decide⟩
  definitionVersion := versionOne
  occurredAt := ⟨0, 0⟩
  actor := opening.actor
  correlationId := none
  causationId := none
  trace := none

def moveFact : AuditFact where
  eventId := ⟨"c1:transition_applied:transition:1", by decide⟩
  eventType := .transitionApplied
  ceremonyId := ⟨"c1", by decide⟩
  definitionName := ⟨"release", by decide⟩
  definitionVersion := versionOne
  occurredAt := ⟨1000000000, 0⟩
  actor := move.actor
  correlationId := none
  causationId := none
  trace := none

def openingCommit : StoreCall := .commit ⟨released, .new, [openingFact], [notice], rfl⟩

/-- The session is opened with a notice of it and moves on, and the notice is published. -/
def release : List StoreCall :=
  [openingCommit, .append moveFact, .claim 8 noon ⟨1000⟩, .markDelivered [notice.eventId],
    .records released.id]

def holding (journal : List AuditRecord) (message : StoredOutboxMessage) : InMemoryCeremonyStore :=
  OrdMap.insert released.id ⟨some CeremonyRevision.initial, some released, journal, [message]⟩
    OrdMap.empty

theorem stored_holding (journal : List AuditRecord) (message : StoredOutboxMessage)
    (id : CeremonyId) : (holding journal message).stored id =
      if id = released.id then ⟨some CeremonyRevision.initial, some released, journal, [message]⟩
      else StoredCeremony.default := by
  rw [holding, stored_insert]
  rfl

theorem opening_sealed : sealBehind table none openingFact = .ok opening := by decide +kernel

theorem move_sealed : sealBehind table (some opening) moveFact = .ok move := by decide +kernel

theorem record_roundTrips {r : AuditRecord} (h : r ∈ [opening, move]) :
    RoundTrips releaseJson.record r := by
  simp only [List.mem_cons, List.not_mem_nil, or_false] at h
  obtain rfl | rfl := h
  · exact ⟨utf8 openingJson, by decide +kernel, by decide +kernel⟩
  · exact ⟨utf8 moveJson, by decide +kernel, by decide +kernel⟩

theorem messages_apart : utf8 claimedJson ≠ utf8 enqueuedJson ∧
    utf8 deliveredJson ≠ utf8 enqueuedJson ∧ utf8 deliveredJson ≠ utf8 claimedJson := by
  decide +kernel

theorem message_roundTrips {message : StoredOutboxMessage}
    (h : message ∈ [enqueued, claimed, delivered]) : RoundTrips releaseJson.message message := by
  obtain ⟨hclaimed, hdelivered, hlast⟩ := messages_apart
  simp only [List.mem_cons, List.not_mem_nil, or_false] at h
  obtain rfl | rfl | rfl := h
  · exact ⟨utf8 enqueuedJson, rfl, by simp [releaseJson]⟩
  · refine ⟨utf8 claimedJson, rfl, ?_⟩
    simp [releaseJson, hclaimed]
  · refine ⟨utf8 deliveredJson, rfl, ?_⟩
    simp [releaseJson, hdelivered, hlast]

theorem storable_empty : Storable releaseJson OrdMap.empty := by
  have hstored (id : CeremonyId) : InMemoryCeremonyStore.stored OrdMap.empty id =
      StoredCeremony.default := rfl
  refine ⟨fun id row hr => ?_, fun id e he => ?_, fun id => ?_, fun id => ?_⟩
  · simp [hstored, rowOf, StoredCeremony.default] at hr
  · simp [hstored, StoredCeremony.default] at he
  · simp [hstored, StoredCeremony.default]
  · simp [hstored, StoredCeremony.default]

theorem storable_holding {journal : List AuditRecord} {message : StoredOutboxMessage}
    (hjournal : journal.length ≤ 2) (hmessage : message ∈ [enqueued, claimed, delivered]) :
    Storable releaseJson (holding journal message) := by
  refine ⟨fun id row hr => ?_, fun id e he => ?_, fun id => ?_, fun id => ?_⟩
  all_goals rw [stored_holding] at *
  · split_ifs at hr
    · obtain rfl := Option.some.inj hr
      exact ⟨utf8 rowJson, rfl, by simp [releaseJson, releasedRow]⟩
    · cases hr
  · split_ifs at he
    · obtain rfl := List.mem_singleton.mp he
      exact message_roundTrips hmessage
    · cases he
  · split_ifs
    · exact lt_of_le_of_lt hjournal (by decide)
    · decide
  · split_ifs
    · exact (by decide : 1 < 2 ^ 64)
    · decide

theorem commit_released :
    (memoryCall table openingCommit OrdMap.empty).2 = holding [opening] enqueued := by
  have hseal : sealFacts table none [openingFact] = ([opening], .ok ()) := by
    simp [sealFacts, opening_sealed]
  have hland := @commit_landed table OrdMap.empty ⟨released, .new, [openingFact], [notice], rfl⟩
    [opening] rfl hseal
  simp only [openingCommit, memoryCall, changing, hland]
  rfl

theorem append_move : (memoryCall table (.append moveFact) (holding [opening] enqueued)).2 =
    holding [opening, move] enqueued := by
  have hid : moveFact.ceremonyId = released.id := rfl
  simp only [memoryCall, changing, InMemoryCeremonyStore.append, hid, stored_holding, if_pos]
  rw [show [opening].getLast? = some opening from rfl, move_sealed]
  simp only [holding, OrdMap.insert_insert]
  rfl

theorem claim_notice :
    (memoryCall table (.claim 8 noon ⟨1000⟩) (holding [opening, move] enqueued)).2 =
      holding [opening, move] claimed := rfl

theorem mark_notice :
    (memoryCall table (.markDelivered [notice.eventId]) (holding [opening, move] claimed)).2 =
      holding [opening, move] delivered := rfl

/-- Calls that fit and lead to this store. -/
structure Leads (calls : List StoreCall) (m : InMemoryCeremonyStore) : Prop where
  fits : Fits table releaseJson calls
  after : memoryAfter table calls = m

theorem Leads.concat {before : List StoreCall} {call : StoreCall} {m m' : InMemoryCeremonyStore}
    (h : Leads before m)
    (hsealed : sealedBy table call m ⊆ [opening, move])
    (hcall : (memoryCall table call m).2 = m') (hstored : Storable releaseJson m') :
    Leads (before ++ [call]) m' := by
  obtain ⟨hfits, rfl⟩ := h
  have hafter : memoryAfter table (before ++ [call]) = m' := by rw [memoryAfter_concat, hcall]
  refine ⟨⟨?_, fun b hb => ?_⟩, hafter⟩
  · exact forall_split_concat.mpr ⟨hfits.sealed, fun r hr => record_roundTrips (hsealed hr)⟩
  · rcases List.prefix_concat_iff.mp hb with rfl | hb
    · exact hafter ▸ hstored
    · exact hfits.stored b hb

theorem release_leads : Leads release (holding [opening, move] delivered) := by
  have hstart : Leads [] OrdMap.empty := by
    refine ⟨⟨forall_split_nil, fun b hb => ?_⟩, rfl⟩
    obtain rfl := List.prefix_nil.mp hb
    exact storable_empty
  have hopening : sealedBy table openingCommit OrdMap.empty ⊆ [opening, move] := by
    have hseal : sealedBy table openingCommit OrdMap.empty = [opening] := by
      change (sealFacts table none [openingFact]).1 = _
      simp [sealFacts, opening_sealed]
    simp [hseal]
  have hmove : sealedBy table (.append moveFact) (holding [opening] enqueued) ⊆ [opening, move] := by
    have hid : moveFact.ceremonyId = released.id := rfl
    simp [sealedBy, stored_holding, hid, sealFacts, move_sealed]
  have hcommitted := hstart.concat hopening commit_released (storable_holding (by decide) (by simp))
  have hmoved := hcommitted.concat hmove append_move (storable_holding (by decide) (by simp))
  have hclaimed := hmoved.concat (List.nil_subset _) claim_notice
    (storable_holding (by decide) (by simp))
  have hmarked := hclaimed.concat (List.nil_subset _) mark_notice
    (storable_holding (by decide) (by simp))
  exact hmarked.concat (List.nil_subset _) rfl (storable_holding (by decide) (by simp))

/-- Both stores answer all of it alike. -/
theorem durable_refines_memory_release :
    memoryAfter table release = holding [opening, move] delivered ∧
      (answers (redbCall table releaseJson) release RedbCeremonyStore.empty).1 =
        (answers (memoryCall table) release OrdMap.empty).1 :=
  ⟨release_leads.after, durable_refines_memory table releaseJson release release_leads.fits⟩

end Example

end Choreographer.StoreRefinement
