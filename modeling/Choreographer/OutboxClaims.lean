import Choreographer.RedbTables

namespace Choreographer.OutboxClaims

open Choreographer.Lib.ByteStrings Choreographer.Lib.SortedMaps Choreographer.Lib.Updates
open Choreographer.Texts Choreographer.Values Choreographer.InMemory Choreographer.Redb
open Choreographer.RedbTables

/-- A message that is handed out, and where it lies. -/
structure Pick where
  ceremony : CeremonyId
  index : Nat
  message : StoredOutboxMessage

/-- The message at the head of a queue, if it can be claimed, and its index. -/
def headOf (now : OffsetDateTime) : List StoredOutboxMessage → Option (Nat × StoredOutboxMessage)
  | [] => none
  | entry :: rest =>
    if entry.delivered then (headOf now rest).map fun p => (p.1 + 1, p.2)
    else if entry.isClaimable now then some (0, entry)
    else none

def pickFrom (now : OffsetDateTime) (id : CeremonyId) (queue : List StoredOutboxMessage) :
    Option Pick :=
  (headOf now queue).map fun p => ⟨id, p.1, p.2⟩

/-- The heads of the queues in ceremony order, as long as there is room. -/
def picks (room : Nat) (now : OffsetDateTime) : List (CeremonyId × StoredCeremony) → List Pick
  | [] => []
  | (id, stored) :: rest =>
    if room = 0 then []
    else match pickFrom now id stored.outbox with
      | none => picks room now rest
      | some p => p :: picks (room - 1) now rest

theorem picks_zero (now : OffsetDateTime) (l : List (CeremonyId × StoredCeremony)) :
    picks 0 now l = [] := by
  cases l <;> rfl

theorem picks_cons (room : Nat) (now : OffsetDateTime) (id : CeremonyId) (s : StoredCeremony)
    (rest : List (CeremonyId × StoredCeremony)) :
    picks room now ((id, s) :: rest) = if room = 0 then [] else
      match pickFrom now id s.outbox with
      | none => picks room now rest
      | some p => p :: picks (room - 1) now rest := rfl

theorem claimHead_eq (now lease : OffsetDateTime) (queue : List StoredOutboxMessage) :
    InMemoryCeremonyStore.claimHead now lease queue = match headOf now queue with
      | none => (none, queue)
      | some (k, e) => (some e.claimed, queue.set k (e.leased lease)) := by
  induction queue with
  | nil => rfl
  | cons entry rest ih =>
    unfold InMemoryCeremonyStore.claimHead headOf
    split_ifs
    · rw [ih]
      cases headOf now rest <;> rfl
    · rfl
    · rfl

theorem headOf_spec {now : OffsetDateTime} {queue : List StoredOutboxMessage} {k : Nat}
    {e : StoredOutboxMessage} (h : headOf now queue = some (k, e)) :
    queue[k]? = some e ∧ e.isClaimable now = true ∧
      ∀ j < k, ∀ d, queue[j]? = some d → d.delivered = true := by
  induction queue generalizing k with
  | nil => simp [headOf] at h
  | cons entry rest ih =>
    unfold headOf at h
    split_ifs at h with hdelivered hclaimable
    · obtain ⟨⟨j, d⟩, hj, he⟩ := Option.map_eq_some_iff.mp h
      obtain ⟨rfl, rfl⟩ := Prod.mk.inj he
      obtain ⟨hget, hc, hbefore⟩ := ih hj
      refine ⟨by simpa using hget, hc, fun i hi d hd => ?_⟩
      cases i with
      | zero => rwa [← Option.some.inj hd]
      | succ i => exact hbefore i (Nat.lt_of_succ_lt_succ hi) d (by simpa using hd)
    · obtain ⟨rfl, rfl⟩ := Prod.mk.inj (Option.some.inj h)
      exact ⟨rfl, hclaimable, fun j hj => absurd hj (Nat.not_lt_zero j)⟩

theorem pick_head {room : Nat} {now : OffsetDateTime} {l : List (CeremonyId × StoredCeremony)}
    {p : Pick} (h : p ∈ picks room now l) :
    ∃ s, (p.ceremony, s) ∈ l ∧ headOf now s.outbox = some (p.index, p.message) := by
  induction l generalizing room with
  | nil => simp [picks] at h
  | cons entry rest ih =>
    obtain ⟨id, s⟩ := entry
    rw [picks_cons] at h
    split_ifs at h
    · simp at h
    cases hp : pickFrom now id s.outbox with
    | none =>
      rw [hp] at h
      obtain ⟨t, ht, hm⟩ := ih h
      exact ⟨t, List.mem_cons_of_mem _ ht, hm⟩
    | some q =>
      rw [hp] at h
      rcases List.mem_cons.mp h with rfl | h
      · obtain ⟨⟨k, e⟩, hk, rfl⟩ := Option.map_eq_some_iff.mp hp
        exact ⟨s, List.mem_cons_self, hk⟩
      · obtain ⟨t, ht, hm⟩ := ih h
        exact ⟨t, List.mem_cons_of_mem _ ht, hm⟩

theorem pick_mem {room : Nat} {now : OffsetDateTime} {l : List (CeremonyId × StoredCeremony)}
    {p : Pick} (h : p ∈ picks room now l) :
    ∃ s, (p.ceremony, s) ∈ l ∧ s.outbox[p.index]? = some p.message := by
  obtain ⟨s, hs, hp⟩ := pick_head h
  exact ⟨s, hs, (headOf_spec hp).1⟩

theorem picks_sorted {room : Nat} {now : OffsetDateTime} {l : List (CeremonyId × StoredCeremony)}
    (hl : l.Pairwise fun a b => a.1 < b.1) :
    (picks room now l).Pairwise fun p q => p.ceremony < q.ceremony := by
  induction l generalizing room with
  | nil => exact List.Pairwise.nil
  | cons entry rest ih =>
    obtain ⟨id, s⟩ := entry
    obtain ⟨hid, hrest⟩ := List.pairwise_cons.mp hl
    rw [picks_cons]
    split_ifs
    · exact List.Pairwise.nil
    cases hp : pickFrom now id s.outbox with
    | none => exact ih hrest
    | some q =>
      obtain ⟨_, -, rfl⟩ := Option.map_eq_some_iff.mp hp
      refine List.pairwise_cons.mpr ⟨fun p hmem => ?_, ih hrest⟩
      obtain ⟨t, ht, -⟩ := pick_mem hmem
      exact hid _ ht

def pickOf (ps : List Pick) (id : CeremonyId) : Option Pick :=
  ps.find? fun p => p.ceremony = id

theorem pickOf_some {ps : List Pick} {id : CeremonyId} {p : Pick} (h : pickOf ps id = some p) :
    p ∈ ps ∧ p.ceremony = id := by
  have hid := List.find?_some h
  exact ⟨List.mem_of_find?_eq_some h, of_decide_eq_true hid⟩

theorem pickOf_of_mem {ps : List Pick} (hs : ps.Pairwise fun p q => p.ceremony < q.ceremony)
    {p : Pick} (h : p ∈ ps) : pickOf ps p.ceremony = some p := by
  induction ps with
  | nil => simp at h
  | cons q rest ih =>
    obtain ⟨hq, hrest⟩ := List.pairwise_cons.mp hs
    rcases List.mem_cons.mp h with rfl | h
    · simp [pickOf]
    · have hne : q.ceremony ≠ p.ceremony := (hq p h).ne
      simpa [pickOf, hne] using ih hrest h

def leasedIn (lease : OffsetDateTime) (ps : List Pick) (id : CeremonyId)
    (queue : List StoredOutboxMessage) : List StoredOutboxMessage :=
  match pickOf ps id with
  | none => queue
  | some p => queue.set p.index (p.message.leased lease)

section Memory

variable {limit : Nat} {now lease : OffsetDateTime}

theorem claimFrom_eq (claimed : List ClaimedOutboxMessage) (id : CeremonyId) (s : StoredCeremony) :
    InMemoryCeremonyStore.claimFrom limit now lease claimed s =
      if limit - claimed.length = 0 then (claimed, s)
      else match pickFrom now id s.outbox with
        | none => (claimed, s)
        | some p => (claimed ++ [p.message.claimed],
            { s with outbox := s.outbox.set p.index (p.message.leased lease) }) := by
  unfold InMemoryCeremonyStore.claimFrom
  by_cases hroom : claimed.length ≥ limit
  · rw [if_pos hroom, if_pos (by omega)]
  · rw [if_neg hroom, if_neg (by omega), claimHead_eq, pickFrom]
    cases headOf now s.outbox <;> simp

theorem scan_claimed (claimed : List ClaimedOutboxMessage)
    (l : List (CeremonyId × StoredCeremony)) :
    (OrdMap.scanEntries (InMemoryCeremonyStore.claimFrom limit now lease) claimed l).1 =
      claimed ++ (picks (limit - claimed.length) now l).map fun p => p.message.claimed := by
  induction l generalizing claimed with
  | nil => simp [OrdMap.scanEntries, picks]
  | cons entry rest ih =>
    obtain ⟨id, s⟩ := entry
    rw [OrdMap.scanEntries, picks_cons, claimFrom_eq claimed id s]
    split_ifs with hroom
    · rw [ih, hroom, picks_zero, List.map_nil]
    · cases hp : pickFrom now id s.outbox with
      | none => exact ih claimed
      | some p =>
        rw [ih, List.length_append, List.length_singleton, Nat.sub_add_eq]
        simp

theorem scan_stored {l : List (CeremonyId × StoredCeremony)}
    (hl : l.Pairwise fun a b => a.1 < b.1) (claimed : List ClaimedOutboxMessage) (id : CeremonyId) :
    OrdMap.lookup id
      (OrdMap.scanEntries (InMemoryCeremonyStore.claimFrom limit now lease) claimed l).2 =
      (OrdMap.lookup id l).map fun s => { s with
        outbox := leasedIn lease (picks (limit - claimed.length) now l) id s.outbox } := by
  induction l generalizing claimed with
  | nil => rfl
  | cons entry rest ih =>
    obtain ⟨jd, s⟩ := entry
    obtain ⟨hjd, hrest⟩ := List.pairwise_cons.mp hl
    have hout {room : Nat} : pickOf (picks room now rest) jd = none := by
      refine List.find?_eq_none.mpr fun p hp => ?_
      obtain ⟨t, ht, -⟩ := pick_mem hp
      simpa using (hjd _ ht).ne'
    rw [OrdMap.scanEntries, picks_cons, claimFrom_eq claimed jd s]
    split_ifs with hroom
    · by_cases hid : id = jd
      · simp [OrdMap.lookup, hid, leasedIn, pickOf]
      · simp [OrdMap.lookup, hid, ih hrest, hroom, picks_zero]
    · cases hp : pickFrom now jd s.outbox with
      | none =>
        by_cases hid : id = jd
        · simp [OrdMap.lookup, hid, leasedIn, hout]
        · simp [OrdMap.lookup, hid, ih hrest]
      | some p =>
        obtain ⟨⟨k, e⟩, -, rfl⟩ := Option.map_eq_some_iff.mp hp
        by_cases hid : id = jd
        · subst hid
          simp [OrdMap.lookup, leasedIn, pickOf]
        · have hne : jd ≠ id := Ne.symm hid
          simp [OrdMap.lookup, hid, ih hrest, leasedIn, pickOf, hne, Nat.sub_add_eq]

end Memory

section Stored

variable {m : InMemoryCeremonyStore}

theorem stored_of_mem {id : CeremonyId} {s : StoredCeremony} (h : (id, s) ∈ OrdMap.entries m) :
    m.stored id = s := by
  simp [InMemoryCeremonyStore.stored, OrdMap.mem_entries.mp h]

theorem stored_updateMessages (change : StoredOutboxMessage → StoredOutboxMessage × Bool)
    (id : CeremonyId) : (m.updateMessages change).stored id =
      { m.stored id with outbox := (m.stored id).outbox.map fun e => (change e).1 } := by
  unfold InMemoryCeremonyStore.updateMessages InMemoryCeremonyStore.stored
  rw [OrdMap.get?_mapValues]
  cases OrdMap.get? m id <;> rfl

theorem stored_claim (limit : Nat) (now : OffsetDateTime) (lease : DurationMs) (id : CeremonyId) :
    (m.claim limit now lease).2.stored id = { m.stored id with
      outbox := leasedIn (now.plus lease) (picks limit now m.entries) id (m.stored id).outbox } := by
  have hlookup := @scan_stored limit now (now.plus lease) m.entries m.sorted [] id
  have hget : OrdMap.get? (m.claim limit now lease).2 id = (OrdMap.get? m id).map fun s => { s with
      outbox := leasedIn (now.plus lease) (picks limit now m.entries) id s.outbox } := hlookup
  unfold InMemoryCeremonyStore.stored
  rw [hget]
  cases hm : OrdMap.get? m id with
  | some s => rfl
  | none =>
    have hnil : pickOf (picks limit now m.entries) id = none := by
      refine List.find?_eq_none.mpr fun p hp hid => ?_
      obtain ⟨s, hs, -⟩ := pick_mem hp
      have hsome := OrdMap.mem_entries.mp hs
      rw [of_decide_eq_true hid, hm] at hsome
      exact absurd hsome (by simp)
    simp [leasedIn, hnil, StoredCeremony.default]

theorem claim_picks (limit : Nat) (now : OffsetDateTime) (lease : DurationMs) :
    (m.claim limit now lease).1 = (picks limit now m.entries).map fun p => p.message.claimed := by
  rw [InMemoryCeremonyStore.claim, OrdMap.scan, scan_claimed]
  rfl

/-- Where the messages lie that a claim hands out, in the order it hands them out. -/
def places (limit : Nat) (now : OffsetDateTime) (m : InMemoryCeremonyStore) :
    List (CeremonyId × Nat) :=
  (picks limit now m.entries).map fun p => (p.ceremony, p.index)

theorem claim_places (limit : Nat) (now : OffsetDateTime) (lease : DurationMs) :
    (m.claim limit now lease).1.zip (places limit now m) =
      (picks limit now m.entries).map fun p => (p.message.claimed, (p.ceremony, p.index)) := by
  rw [claim_picks, places, List.zip_map']

theorem stored_pick {limit : Nat} {now : OffsetDateTime} {p : Pick}
    (h : p ∈ picks limit now m.entries) :
    headOf now (m.stored p.ceremony).outbox = some (p.index, p.message) := by
  obtain ⟨s, hs, hp⟩ := pick_head h
  rwa [stored_of_mem hs]

/-- Whether the claim hands out the message at this place. -/
def taken (ps : List Pick) (id : CeremonyId) (k : Nat) : Prop :=
  ∃ p ∈ ps, p.ceremony = id ∧ p.index = k

theorem getElem?_claim_taken {limit : Nat} {now : OffsetDateTime} (lease : DurationMs)
    {id : CeremonyId} {k : Nat} (h : taken (picks limit now m.entries) id k) :
    ((m.claim limit now lease).2.stored id).outbox[k]? =
      (m.stored id).outbox[k]?.map (StoredOutboxMessage.leased (now.plus lease)) := by
  obtain ⟨p, hp, rfl, rfl⟩ := h
  obtain ⟨hget, -⟩ := headOf_spec (stored_pick hp)
  rw [stored_claim]
  simp only [leasedIn, pickOf_of_mem (picks_sorted m.sorted) hp]
  rw [List.getElem?_set_self (List.getElem?_eq_some_iff.mp hget).1, hget]
  rfl

theorem getElem?_claim_other {limit : Nat} {now : OffsetDateTime} (lease : DurationMs)
    {id : CeremonyId} {k : Nat} (h : ¬ taken (picks limit now m.entries) id k) :
    ((m.claim limit now lease).2.stored id).outbox[k]? = (m.stored id).outbox[k]? := by
  rw [stored_claim]
  simp only [leasedIn]
  cases hp : pickOf (picks limit now m.entries) id with
  | none => rfl
  | some p =>
    obtain ⟨hmem, hid⟩ := pickOf_some hp
    refine List.getElem?_set_ne fun hk => ?_
    exact h ⟨p, hmem, hid, hk⟩

end Stored

section Durable

variable {limit : Nat} {now : OffsetDateTime}

open RedbCeremonyStore (takeHeads)

theorem takeHeads_decided (id : CeremonyId) (base : Nat) (queue : List StoredOutboxMessage)
    (rest taken : List (List Byte × StoredOutboxMessage)) :
    takeHeads limit now (entriesAt id base queue ++ rest) taken (some (utf8 id.asStr)) =
      takeHeads limit now rest taken (some (utf8 id.asStr)) := by
  induction queue generalizing base with
  | nil => rfl
  | cons e queue ih =>
    rw [entriesAt_cons, List.cons_append, takeHeads, ceremonyOf_scopedKey]
    simpa using ih (base + 1)

def Pick.entry (p : Pick) : List Byte × StoredOutboxMessage := (scopedKey p.ceremony p.index, p.message)

theorem takeHeads_queue (limit : Nat) (now : OffsetDateTime) (id : CeremonyId) (base : Nat)
    (queue : List StoredOutboxMessage) (rest taken : List (List Byte × StoredOutboxMessage))
    {decided : Option (List Byte)} (hd : decided ≠ some (utf8 id.asStr)) :
    ∃ d, (d = decided ∨ d = some (utf8 id.asStr)) ∧
      takeHeads limit now (entriesAt id base queue ++ rest) taken decided =
        takeHeads limit now rest (taken ++ if limit - taken.length = 0 then [] else
          ((headOf now queue).map fun p => (scopedKey id (base + p.1), p.2)).toList) d := by
  induction queue generalizing base with
  | nil => exact ⟨decided, .inl rfl, by simp [entriesAt, headOf]⟩
  | cons e queue ih =>
    rw [entriesAt_cons, List.cons_append, takeHeads, ceremonyOf_scopedKey, Option.getD_some]
    simp only [hd, if_false]
    unfold headOf
    by_cases hdel : e.delivered = true
    · obtain ⟨d, hdd, ht⟩ := ih (base + 1)
      refine ⟨d, hdd, ?_⟩
      rw [if_pos hdel, if_pos hdel, ht]
      simp [Function.comp_def, Nat.add_comm, Nat.add_left_comm]
    · refine ⟨_, .inr rfl, ?_⟩
      rw [if_neg hdel, if_neg hdel]
      by_cases hroom : limit - taken.length = 0
      · have hge : taken.length ≥ limit := by omega
        simp [hge, hroom, takeHeads_decided]
      · have hlt : ¬ taken.length ≥ limit := by omega
        by_cases hc : e.isClaimable now = true
        · simp [hc, hroom, hlt, takeHeads_decided]
        · simp [hc, takeHeads_decided]

theorem takeHeads_flat {lists : CeremonyId → List StoredOutboxMessage}
    {l : List (CeremonyId × StoredCeremony)} (hl : l.Pairwise fun a b => a.1 < b.1)
    (hlists : ∀ e ∈ l, lists e.1 = e.2.outbox)
    (taken : List (List Byte × StoredOutboxMessage)) {decided : Option (List Byte)}
    (hd : ∀ e ∈ l, decided ≠ some (utf8 e.1.asStr)) :
    takeHeads limit now (flat 0 lists (l.map Prod.fst)) taken decided =
      taken ++ (picks (limit - taken.length) now l).map Pick.entry := by
  induction l generalizing taken decided with
  | nil => simp [flat, takeHeads, picks]
  | cons entry rest ih =>
    obtain ⟨id, s⟩ := entry
    obtain ⟨hid, hrest⟩ := List.pairwise_cons.mp hl
    have hs : lists id = s.outbox := hlists (id, s) List.mem_cons_self
    have hq : flat 0 lists (((id, s) :: rest).map Prod.fst) =
        entriesAt id 0 s.outbox ++ flat 0 lists (rest.map Prod.fst) := by
      simp [flat, entriesAt, hs]
    obtain ⟨d, hdd, ht⟩ := takeHeads_queue limit now id 0 s.outbox
      (flat 0 lists (rest.map Prod.fst)) taken (hd (id, s) List.mem_cons_self)
    have hd' : ∀ e ∈ rest, d ≠ some (utf8 e.1.asStr) := by
      intro e he
      rcases hdd with rfl | rfl
      · exact hd e (List.mem_cons_of_mem _ he)
      · intro heq
        exact (hid e he).ne (Text.ext (utf8_injective (Option.some.inj heq)))
    rw [hq, ht, ih hrest (fun e he => hlists e (List.mem_cons_of_mem _ he)) _ hd']
    rw [picks_cons]
    by_cases hroom : limit - taken.length = 0
    · simp [hroom, picks_zero]
    · cases hh : headOf now s.outbox with
      | none => simp [hroom, hh, pickFrom]
      | some p => simp [hroom, hh, pickFrom, Pick.entry, Nat.sub_add_eq]

end Durable

end Choreographer.OutboxClaims
