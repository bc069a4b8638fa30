import Choreographer.Lib.Runs
import Choreographer.HumanGuards
import Choreographer.PublishOutbox
import Choreographer.TamperEvidence

namespace Choreographer.OutboxDelivery

open Choreographer.Lib.SortedMaps Choreographer.Lib.Programs Choreographer.Lib.Runs
open Choreographer.Texts Choreographer.Values Choreographer.Audit
open Choreographer.InMemory Choreographer.OutboxClaims Choreographer.PublishOutbox
open InMemoryCeremonyStore (stored_insert stored_touch commit_conflict commit_refused commit_landed)

variable {env : Rendering} {ticks : OffsetDateTime → OffsetDateTime → Prop}
  {store store' : InMemoryCeremonyStore} {log : List Event} {m : OutboxMessage}

def committed (store : InMemoryCeremonyStore) (id : CeremonyId) : List OutboxMessage :=
  (store.stored id).outbox.map StoredOutboxMessage.message

/-- No two committed messages have the same event id. -/
def Distinct (store : InMemoryCeremonyStore) : Prop :=
  ∀ id jd (j k : Nat) (m n : OutboxMessage), (committed store id)[j]? = some m →
    (committed store jd)[k]? = some n → m.eventId = n.eventId → id = jd ∧ j = k

def marks : Deed → EventId → Prop
  | .delivered eventIds, x => x ∈ eventIds
  | _, _ => False

def quarantines : Deed → EventId → Prop
  | .quarantined y _, x => y = x
  | _, _ => False

def fails : Deed → EventId → Bool
  | .failed y, x => y = x
  | _, _ => false

def Marked (log : List Event) (x : EventId) : Prop := ∃ e ∈ log, marks e.deed x

def Quarantined (log : List Event) (x : EventId) : Prop := ∃ e ∈ log, quarantines e.deed x

def failures (log : List Event) (x : EventId) : Nat := log.countP fun e => fails e.deed x

def Confirmed (log : List Event) (m : OutboxMessage) : Prop := ∃ e ∈ log, e.deed = .confirmed m

/-- The message is the one at this place, and everything committed before it for
its ceremony has been marked delivered. -/
def DueAt (store : InMemoryCeremonyStore) (log : List Event) (id : CeremonyId) (k : Nat)
    (m : OutboxMessage) : Prop :=
  (committed store id)[k]? = some m ∧
    ∀ j < k, ∀ n, (committed store id)[j]? = some n → Marked log n.eventId

def Due (store : InMemoryCeremonyStore) (log : List Event) (m : OutboxMessage) : Prop :=
  ∃ id k, DueAt store log id k m

/-- What a deed needs of what was done before it. -/
def Lawful (store : InMemoryCeremonyStore) (before : List Event) : Deed → Prop
  | .claimed answer _ _ => ∀ c ∈ answer, Due store before c.message ∧
      ¬ Marked before c.message.eventId ∧ ¬ Quarantined before c.message.eventId
  | .confirmed m => Due store before m
  | .refused _ => True
  | .failed _ => True
  | .delivered eventIds => ∀ x ∈ eventIds,
      ∃ m, m.eventId = x ∧ Confirmed before m ∧ Due store before m
  | .quarantined x limit => limit.val ≤ failures before x ∧ ∃ m, m.eventId = x ∧ Due store before m

/-- What the store knows of a message is what was done about it. -/
structure Kept (log : List Event) (e : StoredOutboxMessage) : Prop where
  delivered : e.delivered = true ↔ Marked log e.message.eventId
  quarantined : e.quarantine.isSome = true ↔ Quarantined log e.message.eventId
  attempts : e.attempt.value.val ≤ failures log e.message.eventId

structure Good (w : World) : Prop where
  kept : ∀ id, ∀ e ∈ (w.store.stored id).outbox, Kept w.log e
  lawful : ∀ before e after, w.log = before ++ e :: after → Lawful w.store before e.deed

/-- Messages are only ever added, behind those that are there. -/
def Grown (store store' : InMemoryCeremonyStore) : Prop :=
  ∀ id, committed store id <+: committed store' id

def protocol : Protocol World where
  inv w := Distinct w.store → Good w
  guar w w' := Grown w.store w'.store ∧ w.log <+: w'.log

section Growth

theorem Grown.refl (store : InMemoryCeremonyStore) : Grown store store := fun _ => List.prefix_rfl

theorem grown_of_same (h : ∀ id, committed store' id = committed store id) : Grown store store' :=
  fun id => h id ▸ List.prefix_rfl

theorem Grown.getElem? (h : Grown store store') {id : CeremonyId} {k : Nat}
    (hk : (committed store id)[k]? = some m) : (committed store' id)[k]? = some m := by
  obtain ⟨rest, hrest⟩ := h id
  rw [← hrest, List.getElem?_append_left (List.getElem?_eq_some_iff.mp hk).1]
  exact hk

theorem Grown.distinct (h : Grown store store') (hd : Distinct store') : Distinct store :=
  fun id jd j k m n hm hn => hd id jd j k m n (h.getElem? hm) (h.getElem? hn)

theorem Marked.mono {log' : List Event} {x : EventId} (hl : log <+: log') (h : Marked log x) :
    Marked log' x := by
  obtain ⟨e, he, hx⟩ := h
  exact ⟨e, hl.subset he, hx⟩

theorem Confirmed.mono {log' : List Event} (hl : log <+: log') (h : Confirmed log m) :
    Confirmed log' m := by
  obtain ⟨e, he, hx⟩ := h
  exact ⟨e, hl.subset he, hx⟩

theorem failures_mono {log' : List Event} (hl : log <+: log') (x : EventId) :
    failures log x ≤ failures log' x := by
  obtain ⟨rest, rfl⟩ := hl
  simp [failures]

theorem DueAt.mono {log' : List Event} {id : CeremonyId} {k : Nat} (hg : Grown store store')
    (hl : log <+: log') (h : DueAt store log id k m) : DueAt store' log' id k m := by
  obtain ⟨hk, hbefore⟩ := h
  refine ⟨hg.getElem? hk, fun j hj n hn => ?_⟩
  have hlt : j < (committed store id).length := hj.trans (List.getElem?_eq_some_iff.mp hk).1
  have hold := List.getElem?_eq_getElem hlt
  obtain rfl := Option.some.inj ((hg.getElem? hold).symm.trans hn)
  exact (hbefore j hj _ hold).mono hl

theorem Due.mono {log' : List Event} (hg : Grown store store') (hl : log <+: log')
    (h : Due store log m) : Due store' log' m := by
  obtain ⟨id, k, h⟩ := h
  exact ⟨id, k, h.mono hg hl⟩

theorem Lawful.mono {deed : Deed} (hg : Grown store store') (h : Lawful store log deed) :
    Lawful store' log deed := by
  cases deed with
  | claimed answer places leaseUntil =>
    intro c hc
    obtain ⟨hdue, hopen⟩ := h c hc
    exact ⟨hdue.mono hg List.prefix_rfl, hopen⟩
  | confirmed m => exact Due.mono hg List.prefix_rfl h
  | refused m => trivial
  | failed x => trivial
  | delivered eventIds =>
    intro x hx
    obtain ⟨m, hm, hconfirmed, hdue⟩ := h x hx
    exact ⟨m, hm, hconfirmed, hdue.mono hg List.prefix_rfl⟩
  | quarantined x limit =>
    obtain ⟨hlimit, m, hm, hdue⟩ := h
    exact ⟨hlimit, m, hm, hdue.mono hg List.prefix_rfl⟩

end Growth

section Log

variable {e : Event} {x : EventId}

theorem marked_concat : Marked (log ++ [e]) x ↔ Marked log x ∨ marks e.deed x := by
  simp [Marked, or_and_right, exists_or]

theorem quarantined_concat :
    Quarantined (log ++ [e]) x ↔ Quarantined log x ∨ quarantines e.deed x := by
  simp [Quarantined, or_and_right, exists_or]

theorem failures_concat :
    failures (log ++ [e]) x = failures log x + if fails e.deed x = true then 1 else 0 := by
  simp [failures, List.countP_append, List.countP_singleton]

theorem committed_of_marked {w : World} (hw : Good w) (h : Marked w.log x) :
    ∃ id, ∃ k : Nat, ∃ m : OutboxMessage, (committed w.store id)[k]? = some m ∧ m.eventId = x := by
  obtain ⟨d, hd, hx⟩ := h
  obtain ⟨before, after, hsplit⟩ := List.append_of_mem hd
  have hlawful := hw.lawful before d after hsplit
  cases hdeed : d.deed with
  | delivered eventIds =>
    rw [hdeed] at hx hlawful
    obtain ⟨m, hm, -, id, k, hk, -⟩ := hlawful x hx
    exact ⟨id, k, m, hk, hm⟩
  | claimed | confirmed | refused | failed | quarantined => simp [hdeed, marks] at hx

theorem committed_of_quarantined {w : World} (hw : Good w) (h : Quarantined w.log x) :
    ∃ id, ∃ k : Nat, ∃ m : OutboxMessage, (committed w.store id)[k]? = some m ∧ m.eventId = x := by
  obtain ⟨d, hd, hx⟩ := h
  obtain ⟨before, after, hsplit⟩ := List.append_of_mem hd
  have hlawful := hw.lawful before d after hsplit
  cases hdeed : d.deed with
  | quarantined y limit =>
    rw [hdeed] at hx hlawful
    obtain ⟨-, m, hm, id, k, hk, -⟩ := hlawful
    exact ⟨id, k, m, hk, hm.trans hx⟩
  | claimed | confirmed | refused | failed | delivered => simp [hdeed, quarantines] at hx

end Log

section Steps

variable {w : World} {x : EventId}

theorem committed_updateMessages {change : StoredOutboxMessage → StoredOutboxMessage × Bool}
    (h : ∀ e, (change e).1.message = e.message) (id : CeremonyId) :
    committed (store.updateMessages change) id = committed store id := by
  simp [committed, stored_updateMessages, Function.comp_def, h]

theorem markDelivered_message (eventIds : List EventId) (e : StoredOutboxMessage) :
    (e.markDelivered eventIds).1.message = e.message := by
  unfold StoredOutboxMessage.markDelivered
  split <;> rfl

theorem markFailed_message (x : EventId) (e : StoredOutboxMessage) :
    (e.markFailed x).1.message = e.message := by
  unfold StoredOutboxMessage.markFailed
  split <;> rfl

theorem quarantined_message (x : EventId) (reason : OutboxQuarantineReason)
    (e : StoredOutboxMessage) : (e.quarantined x reason).1.message = e.message := by
  unfold StoredOutboxMessage.quarantined
  split <;> rfl

theorem committed_claim (limit : Nat) (now : OffsetDateTime) (lease : DurationMs)
    (id : CeremonyId) : committed (store.claim limit now lease).2 id = committed store id := by
  apply List.ext_getElem?
  intro k
  simp only [committed, List.getElem?_map]
  by_cases h : taken (picks limit now store.entries) id k
  · rw [getElem?_claim_taken lease h, Option.map_map]
    rfl
  · rw [getElem?_claim_other lease h]

theorem recorded_keeps (hi : protocol.inv w) (claim : Nat) (deed : Deed)
    (hsame : ∀ id, committed store id = committed w.store id)
    (hlawful : Distinct w.store → Good w → Lawful w.store w.log deed)
    (hkept : Good w → ∀ id, ∀ e ∈ (store.stored id).outbox,
      Kept (w.log ++ [⟨claim, w.clock, deed⟩]) e) :
    protocol.inv (w.recorded claim deed store) ∧ protocol.guar w (w.recorded claim deed store) := by
  have hg : Grown w.store store := grown_of_same hsame
  refine ⟨fun hd => ?_, hg, List.prefix_append _ _⟩
  have hold := hg.distinct hd
  have hgood := hi hold
  refine ⟨hkept hgood, forall_split_concat.mpr ⟨fun before e after h => ?_, ?_⟩⟩
  · exact (hgood.lawful before e after h).mono hg
  · exact (hlawful hold hgood).mono hg

theorem Kept.of_other {e : StoredOutboxMessage} {d : Event} (h : Kept log e)
    (hmarks : ¬ marks d.deed e.message.eventId)
    (hquarantines : ¬ quarantines d.deed e.message.eventId) : Kept (log ++ [d]) e where
  delivered := by rw [marked_concat, or_iff_left hmarks]; exact h.delivered
  quarantined := by rw [quarantined_concat, or_iff_left hquarantines]; exact h.quarantined
  attempts := h.attempts.trans (failures_mono (List.prefix_append _ _) _)

theorem Kept.markDelivered {e : StoredOutboxMessage} {claim : Nat} {time : OffsetDateTime}
    {eventIds : List EventId} (h : Kept log e) :
    Kept (log ++ [⟨claim, time, .delivered eventIds⟩]) (e.markDelivered eventIds).1 := by
  unfold StoredOutboxMessage.markDelivered
  split
  · next hx =>
    refine ⟨?_, ?_, h.attempts.trans (failures_mono (List.prefix_append _ _) _)⟩
    · simp [marked_concat, marks, hx]
    · rw [quarantined_concat, or_iff_left (by simp [quarantines])]
      exact h.quarantined
  · next hx => exact h.of_other (by simpa [marks] using hx) (by simp [quarantines])

theorem Kept.markFailed {e : StoredOutboxMessage} {claim : Nat} {time : OffsetDateTime}
    (h : Kept log e) : Kept (log ++ [⟨claim, time, .failed x⟩]) (e.markFailed x).1 := by
  unfold StoredOutboxMessage.markFailed
  split
  · next hx =>
    have hother := h.of_other (d := ⟨claim, time, .failed x⟩) (by simp [marks]) (by simp [quarantines])
    refine ⟨hother.delivered, hother.quarantined, ?_⟩
    rw [failures_concat, if_pos (by simp [fails, hx])]
    have hle := h.attempts
    have hnext := saturatingSucc_val e.attempt.value
    simp only [OutboxAttempt.next]
    omega
  · exact h.of_other (by simp [marks]) (by simp [quarantines])

theorem Kept.quarantine {e : StoredOutboxMessage} {claim : Nat} {time : OffsetDateTime}
    {limit : U32} {reason : OutboxQuarantineReason} (h : Kept log e) :
    Kept (log ++ [⟨claim, time, .quarantined x limit⟩]) (e.quarantined x reason).1 := by
  unfold StoredOutboxMessage.quarantined
  split
  · next hx =>
    refine ⟨?_, ?_, h.attempts.trans (failures_mono (List.prefix_append _ _) _)⟩
    · rw [marked_concat, or_iff_left (by simp [marks])]
      exact h.delivered
    · simp [quarantined_concat, quarantines, hx]
  · next hx => exact h.of_other (by simp [marks]) (by simpa [quarantines] using Ne.symm hx)

theorem kept_updateMessages {change : StoredOutboxMessage → StoredOutboxMessage × Bool}
    {log' : List Event} (h : ∀ id, ∀ e ∈ (store.stored id).outbox, Kept log e)
    (hchange : ∀ e, Kept log e → Kept log' (change e).1) (id : CeremonyId)
    (e : StoredOutboxMessage) (he : e ∈ ((store.updateMessages change).stored id).outbox) :
    Kept log' e := by
  rw [stored_updateMessages] at he
  obtain ⟨d, hd, rfl⟩ := List.mem_map.mp he
  exact hchange d (h id d hd)

theorem claim_lawful (hw : Good w) (limit : Nat) (now leaseUntil : OffsetDateTime)
    (lease : DurationMs) (places : List (CeremonyId × Nat)) :
    Lawful w.store w.log (.claimed (w.store.claim limit now lease).1 places leaseUntil) := by
  intro c hc
  rw [claim_picks] at hc
  obtain ⟨p, hp, rfl⟩ := List.mem_map.mp hc
  obtain ⟨hget, hclaimable, hbefore⟩ := headOf_spec (stored_pick hp)
  have hkept := hw.kept p.ceremony p.message (List.mem_of_getElem? hget)
  simp only [StoredOutboxMessage.isClaimable, Bool.and_eq_true, Bool.not_eq_true',
    Option.isNone_iff_eq_none] at hclaimable
  obtain ⟨⟨hdelivered, hquarantine⟩, -⟩ := hclaimable
  have hplace : (committed w.store p.ceremony)[p.index]? = some p.message.message := by
    simp [committed, hget]
  refine ⟨⟨p.ceremony, p.index, hplace, fun j hj n hn => ?_⟩, ?_, ?_⟩
  · simp only [committed, List.getElem?_map, Option.map_eq_some_iff] at hn
    obtain ⟨d, hd, rfl⟩ := hn
    exact (hw.kept _ d (List.mem_of_getElem? hd)).delivered.mp (hbefore j hj d hd)
  · intro hmarked
    exact absurd (hkept.delivered.mpr hmarked) (by simp [hdelivered])
  · intro hquarantined
    exact absurd (hkept.quarantined.mpr hquarantined) (by simp [hquarantine])

theorem kept_claim (hw : Good w) {claim : Nat} (limit : Nat) (now : OffsetDateTime)
    (lease : DurationMs) {answer : List ClaimedOutboxMessage} {places : List (CeremonyId × Nat)}
    {leaseUntil : OffsetDateTime} (id : CeremonyId)
    (e : StoredOutboxMessage) (he : e ∈ ((w.store.claim limit now lease).2.stored id).outbox) :
    Kept (w.log ++ [⟨claim, w.clock, .claimed answer places leaseUntil⟩]) e := by
  obtain ⟨k, hk⟩ := List.getElem?_of_mem he
  have hother (d : StoredOutboxMessage) (hd : (w.store.stored id).outbox[k]? = some d) :
      Kept (w.log ++ [⟨claim, w.clock, .claimed answer places leaseUntil⟩]) d :=
    (hw.kept id d (List.mem_of_getElem? hd)).of_other (by simp [marks]) (by simp [quarantines])
  by_cases h : taken (picks limit now w.store.entries) id k
  · rw [getElem?_claim_taken lease h] at hk
    obtain ⟨d, hd, rfl⟩ := Option.map_eq_some_iff.mp hk
    have hkept := hother d hd
    exact ⟨hkept.delivered, hkept.quarantined, hkept.attempts⟩
  · rw [getElem?_claim_other lease h] at hk
    exact hother e hk

theorem drift_outbox {w' : World} (h : Drift env w w') (id : CeremonyId) :
    ∃ added : List OutboxMessage, (w'.store.stored id).outbox =
      (w.store.stored id).outbox ++ added.map StoredOutboxMessage.enqueued := by
  cases h with
  | commit c =>
    cases hag : c.expectedRevision.agrees (w.store.stored c.session.id).revision with
    | false =>
      rw [commit_conflict hag]
      exact ⟨[], by simp [stored_touch]⟩
    | true =>
      obtain ⟨sealed, hs | ⟨e, hs⟩⟩ : ∃ sealed,
          sealFacts env (w.store.stored c.session.id).journal.getLast? c.facts = (sealed, .ok ()) ∨
          ∃ e, sealFacts env (w.store.stored c.session.id).journal.getLast? c.facts =
            (sealed, .error e) := by
        obtain ⟨sealed, outcome⟩ := sealFacts env _ c.facts
        cases outcome with
        | ok u => exact ⟨sealed, .inl rfl⟩
        | error e => exact ⟨sealed, .inr ⟨e, rfl⟩⟩
      · rw [commit_landed hag hs]
        simp only [stored_insert]
        split
        · next hid => exact ⟨c.messages, by rw [hid]; rfl⟩
        · exact ⟨[], by simp⟩
      · rw [commit_refused hag hs]
        exact ⟨[], by simp [stored_touch]⟩
  | append fact =>
    refine ⟨[], ?_⟩
    simp only [InMemoryCeremonyStore.append]
    split
    · simp [stored_touch]
    · simp only [stored_insert]
      split
      · next hid => simp [hid]
      · simp
  | save session =>
    refine ⟨[], ?_⟩
    simp only [InMemoryCeremonyStore.save, stored_insert]
    split
    · next hid => simp [hid]
    · simp

theorem drift_keeps {w' : World} (hi : protocol.inv w) (h : Drift env w w') :
    protocol.inv w' ∧ protocol.guar w w' := by
  have hlog : w'.log = w.log := by cases h <;> rfl
  have hg : Grown w.store w'.store := by
    intro id
    obtain ⟨added, hadded⟩ := drift_outbox h id
    simp [committed, hadded]
  refine ⟨fun hd => ?_, hg, hlog ▸ List.prefix_rfl⟩
  have hgood := hi (hg.distinct hd)
  -- an event id on record belongs to an older message, so a new one has another
  have hfresh {id : CeremonyId} {m : OutboxMessage} {k : Nat}
      (hk : (committed w'.store id)[k]? = some m) (hnew : (committed w.store id).length ≤ k)
      (hold : ∃ jd, ∃ j : Nat, ∃ n : OutboxMessage,
        (committed w.store jd)[j]? = some n ∧ n.eventId = m.eventId) : False := by
    obtain ⟨jd, j, n, hj, hid⟩ := hold
    obtain ⟨rfl, rfl⟩ := hd _ _ _ _ _ _ (hg.getElem? hj) hk hid
    have hlt := (List.getElem?_eq_some_iff.mp hj).1
    omega
  refine ⟨fun id e he => ?_, fun before e after hsplit => ?_⟩
  · rw [hlog]
    obtain ⟨added, hadded⟩ := drift_outbox h id
    rw [hadded] at he
    rcases List.mem_append.mp he with he | he
    · exact hgood.kept id e he
    · obtain ⟨m, hm, rfl⟩ := List.mem_map.mp he
      obtain ⟨j, hj⟩ := List.getElem?_of_mem hm
      have hcommitted : committed w'.store id = committed w.store id ++ added := by
        simp [committed, hadded, Function.comp_def, StoredOutboxMessage.enqueued]
      have hk : (committed w'.store id)[(committed w.store id).length + j]? = some m := by
        rw [hcommitted, List.getElem?_append_right (Nat.le_add_right _ _), Nat.add_sub_cancel_left]
        exact hj
      refine ⟨iff_of_false (by simp [StoredOutboxMessage.enqueued]) fun hmarked => ?_,
        iff_of_false (by simp [StoredOutboxMessage.enqueued]) fun hquarantined => ?_,
        Nat.zero_le _⟩
      · exact hfresh hk (Nat.le_add_right _ _) (committed_of_marked hgood hmarked)
      · exact hfresh hk (Nat.le_add_right _ _) (committed_of_quarantined hgood hquarantined)
  · rw [hlog] at hsplit
    exact (hgood.lawful before e after hsplit).mono hg

end Steps

section Publisher

/-- What a publisher knows of a message it has claimed. -/
def InHand (c : ClaimedOutboxMessage) (w : World) : Prop :=
  Distinct w.store →
    Due w.store w.log c.message ∧ c.attempt.value.val ≤ failures w.log c.message.eventId

/-- What a publisher knows of a message whose delivery was confirmed. -/
def Arrived (x : EventId) (w : World) : Prop :=
  Distinct w.store → ∃ m, m.eventId = x ∧ Confirmed w.log m ∧ Due w.store w.log m

theorem stable_inHand (c : ClaimedOutboxMessage) : Stable protocol (InHand c) := by
  rintro w w' - - ⟨hg, hl⟩ h hd
  obtain ⟨hdue, hle⟩ := h (hg.distinct hd)
  exact ⟨hdue.mono hg hl, hle.trans (failures_mono hl _)⟩

theorem stable_arrived (x : EventId) : Stable protocol (Arrived x) := by
  rintro w w' - - ⟨hg, hl⟩ h hd
  obtain ⟨m, hm, hconfirmed, hdue⟩ := h (hg.distinct hd)
  exact ⟨m, hm, hconfirmed.mono hl, hdue.mono hg hl⟩

/-- What a publisher knows in the middle of its round. -/
def Working (ms : List ClaimedOutboxMessage) (delivered : List EventId) (w : World) : Prop :=
  (∀ c, c ∈ ms → InHand c w) ∧ ∀ x, x ∈ delivered → Arrived x w

theorem stable_working (ms : List ClaimedOutboxMessage) (delivered : List EventId) :
    Stable protocol (Working ms delivered) := by
  refine Stable.and (stable_forall fun c => ?_) (stable_forall fun x => ?_)
  · exact fun w w' hi hi' hg h hm => stable_inHand c w w' hi hi' hg (h hm)
  · exact fun w w' hi hi' hg h hm => stable_arrived x w w' hi hi' hg (h hm)

variable {K : World → Prop}

theorem markFailed_safe (hK : Stable protocol K) (x : EventId) (claim : Nat) :
    SafeE (exec ticks) protocol K (ExceptT.mk (Prog.call (I := calls) (.markFailed x claim)))
      (fun _ => K) := by
  refine ⟨safe_call (I := calls) _ (fun a => ?_) fun w a w' hi hk he => ?_⟩
  · cases a with
    | error e => exact stable_true
    | ok u => exact hK
  · obtain ⟨rfl, rfl⟩ := he
    obtain ⟨hi', hg⟩ := recorded_keeps hi claim (.failed x)
      (committed_updateMessages (markFailed_message x)) (fun _ _ => trivial)
      (fun hw => kept_updateMessages hw.kept fun e => Kept.markFailed)
    exact ⟨hi', hg, hK _ _ hi hi' hg hk⟩

theorem quarantine_safe (hK : Stable protocol K) {c : ClaimedOutboxMessage} {limit : U32}
    (claim : Nat) (hhand : ∀ w, K w → InHand c w) (hlimit : isExhausted c.attempt limit = true) :
    SafeE (exec ticks) protocol K (quarantine claim c limit) (fun _ => K) := by
  refine SafeE.ofExcept fun reason _ => ⟨safe_call (I := calls) _ (fun a => ?_) ?_⟩
  · cases a with
    | error e => exact stable_true
    | ok u => exact hK
  · intro w a w' hi hk he
    obtain ⟨rfl, rfl⟩ := he
    obtain ⟨hi', hg⟩ := recorded_keeps hi claim (.quarantined c.message.eventId limit)
      (committed_updateMessages (quarantined_message c.message.eventId reason))
      (fun hd _ => by
        obtain ⟨hdue, hle⟩ := hhand w hk hd
        have hreached : limit.val ≤ c.attempt.value.val := by simpa [isExhausted] using hlimit
        exact ⟨hreached.trans hle, c.message, rfl, hdue⟩)
      (fun hw => kept_updateMessages hw.kept fun e => Kept.quarantine)
    exact ⟨hi', hg, hK _ _ hi hi' hg hk⟩

theorem deliver_safe (hK : Stable protocol K) {c : ClaimedOutboxMessage} (claim : Nat)
    (hhand : ∀ w, K w → InHand c w) :
    SafeE (exec ticks) protocol K (ask (.deliver c.message claim))
      (fun a w => K w ∧ ∀ u, a = .ok u → Arrived c.message.eventId w) := by
  refine SafeE.lift (safe_call (I := calls) _ (fun a => ?_) fun w a w' hi hk he => ?_)
  · refine hK.and (stable_forall fun u => ?_)
    exact fun w w' hi hi' hg h ha => stable_arrived _ w w' hi hi' hg (h ha)
  · cases a with
    | ok u =>
      obtain rfl : w' = w.recorded claim (.confirmed c.message) w.store := he
      obtain ⟨hi', hg⟩ := recorded_keeps hi claim (.confirmed c.message) (fun _ => rfl)
        (fun hd _ => (hhand w hk hd).1)
        (fun hw id e he => (hw.kept id e he).of_other (by simp [marks]) (by simp [quarantines]))
      refine ⟨hi', hg, hK _ _ hi hi' hg hk, fun u _ hd => ?_⟩
      refine ⟨c.message, rfl, ⟨_, List.mem_append_right _ (List.mem_singleton_self _), rfl⟩, ?_⟩
      exact (hhand w hk hd).1.mono hg.1 hg.2
    | error err =>
      obtain rfl : w' = w.recorded claim (.refused c.message) w.store := he
      obtain ⟨hi', hg⟩ := recorded_keeps hi claim (.refused c.message) (fun _ => rfl)
        (fun _ _ => trivial)
        (fun hw id e he => (hw.kept id e he).of_other (by simp [marks]) (by simp [quarantines]))
      exact ⟨hi', hg, hK _ _ hi hi' hg hk, by simp⟩

theorem deliverAll_safe (input : PublishOutboxInput) (claim : Nat)
    (ms : List ClaimedOutboxMessage) (delivered : List EventId) (round : PublishOutboxRound) :
    SafeE (exec ticks) protocol (Working ms delivered)
      (deliverAll input claim ms delivered round) (fun r => Working [] r.1) := by
  induction ms generalizing delivered round with
  | nil => exact SafeE.pure fun w _ hw => hw
  | cons c rest ih =>
    have hK := stable_working (c :: rest) delivered
    have hhand (w : World) (hw : Working (c :: rest) delivered w) : InHand c w :=
      hw.1 c List.mem_cons_self
    have hrest (w : World) (hw : Working (c :: rest) delivered w) : Working rest delivered w :=
      ⟨fun d hd => hw.1 d (List.mem_cons_of_mem c hd), hw.2⟩
    unfold deliverAll
    split
    · next hlimit =>
      refine SafeE.bind (quarantine_safe hK claim hhand hlimit) fun _ => ?_
      exact (ih delivered _).mono (fun w _ hw => hrest w hw) (fun _ _ _ h => h)
    · refine SafeE.bind (deliver_safe hK claim hhand) fun outcome => ?_
      cases outcome with
      | ok u =>
        refine (ih _ _).mono (fun w _ hw => ⟨(hrest w hw.1).1, fun x hx => ?_⟩) (fun _ _ _ h => h)
        rcases List.mem_append.mp hx with hx | hx
        · exact hw.1.2 x hx
        · rw [List.mem_singleton.mp hx]
          exact hw.2 u rfl
      | error err =>
        refine SafeE.bind ((markFailed_safe hK _ claim).mono (fun w _ hw => hw.1)
          (fun _ _ _ h => h)) fun _ => ?_
        exact (ih delivered _).mono (fun w _ hw => hrest w hw) (fun _ _ _ h => h)

theorem markDelivered_safe (claim : Nat) (delivered : List EventId) :
    SafeE (exec ticks) protocol (Working [] delivered) (markDelivered claim delivered)
      (fun _ _ => True) := by
  unfold markDelivered
  split
  · exact SafeE.pure fun _ _ _ => trivial
  · refine ⟨safe_call (I := calls) _ (fun a => ?_) fun w a w' hi hk he => ?_⟩
    · cases a with
      | error e => exact stable_true
      | ok u => exact stable_true
    · obtain ⟨rfl, rfl⟩ := he
      obtain ⟨hi', hg⟩ := recorded_keeps hi claim (.delivered delivered)
        (committed_updateMessages (markDelivered_message delivered))
        (fun hd _ x hx => hk.2 x hx hd)
        (fun hw => kept_updateMessages hw.kept fun e => Kept.markDelivered)
      exact ⟨hi', hg, trivial⟩

theorem now_safe :
    SafeE (exec ticks) protocol (fun _ => True) (ask .now) (fun _ _ => True) := by
  refine SafeE.lift (safe_call (I := calls) _ (fun _ => stable_true) fun w a w' hi _ he => ?_)
  obtain ⟨-, rfl⟩ := he
  refine ⟨fun hd => ?_, ⟨Grown.refl _, List.prefix_rfl⟩, trivial⟩
  obtain ⟨hkept, hlawful⟩ := hi hd
  exact ⟨hkept, hlawful⟩

theorem claim_safe (limit : Nat) (now : OffsetDateTime) (lease : DurationMs) :
    SafeE (exec ticks) protocol (fun _ => True)
      (ExceptT.mk (Prog.call (I := calls) (.claim limit now lease))) (fun r => Working r.2 []) := by
  refine ⟨safe_call (I := calls) _ (fun a => ?_) fun w a w' hi _ he => ?_⟩
  · cases a with
    | error e => exact stable_true
    | ok r => exact stable_working r.2 []
  · obtain ⟨rfl, rfl⟩ := he
    obtain ⟨hi', hg⟩ := recorded_keeps hi w.log.length (.claimed _ _ _)
      (committed_claim limit now lease)
      (fun _ hw => claim_lawful hw limit now (now.plus lease) lease _)
      (fun hw => kept_claim hw limit now lease)
    refine ⟨hi', hg, fun c hc hd => ?_, by simp⟩
    have hold := hg.1.distinct hd
    have hw := hi hold
    obtain ⟨hdue, -⟩ := claim_lawful hw limit now (now.plus lease) lease [] c hc
    rw [claim_picks] at hc
    obtain ⟨p, hp, rfl⟩ := List.mem_map.mp hc
    have hget := (headOf_spec (stored_pick hp)).1
    refine ⟨hdue.mono hg.1 hg.2, ?_⟩
    exact (hw.kept _ _ (List.mem_of_getElem? hget)).attempts.trans (failures_mono hg.2 _)

theorem publishOutbox_safe (input : PublishOutboxInput) :
    SafeE (exec ticks) protocol (fun _ => True) (publishOutbox input) (fun _ _ => True) := by
  refine SafeE.bind now_safe fun now => ?_
  refine SafeE.bind (claim_safe input.batchSize now input.lease) fun r => ?_
  refine SafeE.bind (deliverAll_safe input r.1 r.2 [] _) fun s => ?_
  refine SafeE.bind (markDelivered_safe r.1 s.1) fun _ => ?_
  exact SafeE.pure fun _ _ _ => trivial

theorem good_of_runs {c : Config calls World} (h : Runs env ticks c)
    (hd : Distinct c.world.store) : Good c.world := by
  refine inv_of_reachable (P := protocol) (fun p hp => ?_) (fun w w' => drift_keeps)
    (fun _ => ⟨fun id e he => ?_, fun before e after hsplit => ?_⟩) h hd
  · obtain ⟨input⟩ := hp
    exact Safe.bind (publishOutbox_safe input).run fun _ _ _ _ => trivial
  · simp [World.empty, InMemoryCeremonyStore.stored, StoredCeremony.default] at he
  · simp [World.empty] at hsplit

end Publisher

section Independence

variable {now : OffsetDateTime}

/-- The earliest message of a ceremony that is not delivered is quarantined. -/
def Stalled (store : InMemoryCeremonyStore) (id : CeremonyId) : Prop :=
  ∃ (k : Nat) (e : StoredOutboxMessage), (store.stored id).outbox[k]? = some e ∧
    e.delivered = false ∧ e.quarantine.isSome = true ∧
    ∀ j < k, ∀ d, (store.stored id).outbox[j]? = some d → d.delivered = true

def silenced (id : CeremonyId) (store : InMemoryCeremonyStore) : InMemoryCeremonyStore :=
  OrdMap.insert id { store.stored id with outbox := [] } store

theorem headOf_stalled {queue : List StoredOutboxMessage} {k : Nat} {e : StoredOutboxMessage}
    (he : queue[k]? = some e) (hopen : e.delivered = false) (hq : e.quarantine.isSome = true)
    (hbefore : ∀ j < k, ∀ d, queue[j]? = some d → d.delivered = true) :
    headOf now queue = none := by
  induction queue generalizing k with
  | nil => rfl
  | cons d rest ih =>
    unfold headOf
    cases k with
    | zero =>
      obtain rfl : d = e := Option.some.inj he
      rw [if_neg (by simp [hopen]), if_neg]
      simp only [StoredOutboxMessage.isClaimable, Bool.and_eq_true, Option.isNone_iff_eq_none]
      rintro ⟨⟨-, hnone⟩, -⟩
      simp [hnone] at hq
    | succ k =>
      rw [if_pos (hbefore 0 (Nat.succ_pos k) d rfl), Option.map_eq_none_iff]
      refine ih (k := k) (by simpa using he) fun j hj c hc => ?_
      exact hbefore (j + 1) (Nat.succ_lt_succ hj) c (by simpa using hc)

theorem picks_insertEntry {room : Nat} {id : CeremonyId} {s : StoredCeremony}
    {l : List (CeremonyId × StoredCeremony)} (hs : headOf now s.outbox = none)
    (hl : ∀ t, (id, t) ∈ l → headOf now t.outbox = none) :
    picks room now (OrdMap.insertEntry id s l) = picks room now l := by
  induction l generalizing room with
  | nil =>
    simp only [OrdMap.insertEntry, picks_cons, pickFrom, hs]
    simp [picks]
  | cons entry rest ih =>
    obtain ⟨jd, t⟩ := entry
    unfold OrdMap.insertEntry
    split_ifs with hlt heq
    · simp only [picks_cons room now id s, pickFrom, hs, Option.map_none]
      split
      · next hroom => rw [hroom, picks_zero]
      · rfl
    · subst heq
      have ht := hl t List.mem_cons_self
      simp only [picks_cons, pickFrom, hs, ht]
    · simp only [picks_cons]
      have hrest (t : StoredCeremony) (ht : (id, t) ∈ rest) : headOf now t.outbox = none :=
        hl t (List.mem_cons_of_mem _ ht)
      split
      · rfl
      · cases pickFrom now jd t.outbox with
        | none => exact ih hrest
        | some p => exact congrArg (p :: ·) (ih hrest)

theorem claim_silenced {id : CeremonyId} (h : Stalled store id) (limit : Nat)
    (now : OffsetDateTime) (lease : DurationMs) :
    (store.claim limit now lease).1 = ((silenced id store).claim limit now lease).1 ∧
      ∀ jd ≠ id, (store.claim limit now lease).2.stored jd =
        ((silenced id store).claim limit now lease).2.stored jd := by
  obtain ⟨k, e, he, hopen, hq, hbefore⟩ := h
  have hhead : headOf now (store.stored id).outbox = none := headOf_stalled he hopen hq hbefore
  have hpicks : picks limit now (OrdMap.entries (silenced id store)) =
      picks limit now (OrdMap.entries store) := by
    refine picks_insertEntry rfl fun t ht => ?_
    rwa [← stored_of_mem ht]
  refine ⟨by rw [claim_picks, claim_picks, hpicks], fun jd hjd => ?_⟩
  rw [stored_claim, stored_claim, hpicks, silenced, stored_insert, if_neg hjd]

end Independence

/-- Order and no loss: the transport confirms before a message is marked delivered,
a ceremony's messages go out one behind the other and none twice once it is marked,
giving up needs failures, and a message given up on stops its own ceremony only. -/
structure InOrder (w : World) : Prop where
  recorded : ∀ id, ∀ e ∈ (w.store.stored id).outbox, Kept w.log e
  confirmedFirst : ∀ id (k : Nat) m, (committed w.store id)[k]? = some m →
    ∀ (before : List Event) (e : Event) (after : List Event), w.log = before ++ e :: after →
    marks e.deed m.eventId → Confirmed before m
  ordered : ∀ id (k : Nat) m, (committed w.store id)[k]? = some m →
    ∀ (before : List Event) (e : Event) (after : List Event), w.log = before ++ e :: after →
    e.deed = .confirmed m →
    ∀ j < k, ∀ n, (committed w.store id)[j]? = some n → Marked before n.eventId
  neverAgain : ∀ (before : List Event) (e : Event) (after : List Event) answer places leaseUntil,
    w.log = before ++ e :: after → e.deed = .claimed answer places leaseUntil →
    ∀ c ∈ answer, ¬ Marked before c.message.eventId
  exhausted : ∀ (before : List Event) (e : Event) (after : List Event) x limit,
    w.log = before ++ e :: after → e.deed = .quarantined x limit → limit.val ≤ failures before x
  stalled : ∀ id (k : Nat) m, (committed w.store id)[k]? = some m →
    ∀ (before : List Event) (e : Event) (after : List Event) answer places leaseUntil,
    w.log = before ++ e :: after → e.deed = .claimed answer places leaseUntil →
    (∀ j < k, ∀ n, (committed w.store id)[j]? = some n → Marked before n.eventId) →
    ¬ Marked before m.eventId → Quarantined before m.eventId →
    ∀ c ∈ answer, ∀ n ∈ committed w.store id, c.message.eventId ≠ n.eventId
  independent : ∀ id, Stalled w.store id → ∀ limit now lease,
    (w.store.claim limit now lease).1 = ((silenced id w.store).claim limit now lease).1 ∧
      ∀ jd ≠ id, (w.store.claim limit now lease).2.stored jd =
        ((silenced id w.store).claim limit now lease).2.stored jd

theorem Distinct.same (hd : Distinct store) {id jd : CeremonyId} {j k : Nat} {n : OutboxMessage}
    (hm : (committed store id)[j]? = some m) (hn : (committed store jd)[k]? = some n)
    (h : m.eventId = n.eventId) : id = jd ∧ j = k ∧ m = n := by
  obtain ⟨rfl, rfl⟩ := hd _ _ _ _ _ _ hm hn h
  exact ⟨rfl, rfl, Option.some.inj (hm.symm.trans hn)⟩

theorem outbox_in_order {c : Config calls World} (h : Runs env ticks c)
    (hd : Distinct c.world.store) : InOrder c.world := by
  have hw := good_of_runs h hd
  refine ⟨hw.kept, ?_, ?_, ?_, ?_, ?_, fun id => claim_silenced⟩
  · intro id k m hm before e after hsplit hmarks
    have hlawful := hw.lawful before e after hsplit
    cases hdeed : e.deed with
    | delivered eventIds =>
      rw [hdeed] at hlawful hmarks
      obtain ⟨n, hn, hconfirmed, jd, j, hj, -⟩ := hlawful _ hmarks
      obtain ⟨-, -, rfl⟩ := hd.same hj hm hn
      exact hconfirmed
    | claimed | confirmed | refused | failed | quarantined => simp [hdeed, marks] at hmarks
  · intro id k m hm before e after hsplit hdeed
    have hlawful := hw.lawful before e after hsplit
    rw [hdeed] at hlawful
    obtain ⟨jd, j, hj, hbefore⟩ := hlawful
    obtain ⟨rfl, rfl, -⟩ := hd.same hj hm rfl
    exact hbefore
  · intro before e after answer places leaseUntil hsplit hdeed c hc
    have hlawful := hw.lawful before e after hsplit
    rw [hdeed] at hlawful
    exact (hlawful c hc).2.1
  · intro before e after x limit hsplit hdeed
    have hlawful := hw.lawful before e after hsplit
    rw [hdeed] at hlawful
    exact hlawful.1
  · intro id k m hm before e after answer places leaseUntil hsplit hdeed hbefore hopen hq c hc n hn
      hsame
    have hlawful := hw.lawful before e after hsplit
    rw [hdeed] at hlawful
    obtain ⟨⟨jd, i, hplace, hearlier⟩, hcopen, hcclear⟩ := hlawful c hc
    obtain ⟨j, hj⟩ := List.getElem?_of_mem hn
    obtain ⟨rfl, rfl, rfl⟩ := hd.same hj hplace hsame.symm
    -- the claimed message is the earliest that is not marked, and so is the quarantined one
    rcases Nat.lt_trichotomy j k with hlt | rfl | hgt
    · exact hcopen (hbefore _ hlt _ hplace)
    · obtain rfl := Option.some.inj (hplace.symm.trans hm)
      exact hcclear hq
    · exact hopen (hearlier k hgt m hm)

section Example

open Choreographer.Instance
open HumanGuards (release)

def sessionId : CeremonyId := ⟨"o1", by decide⟩

def session : CeremonyInstance :=
  CeremonyInstance.opened sessionId release CeremonyContext.empty ⟨0, 0⟩ none

def notice : OutboxMessage where
  eventId := ⟨"o1:opened", by decide⟩
  subject := ⟨"ceremony.opened", by decide⟩
  payload := .string "the release is open"
  enqueuedAt := ⟨0, 0⟩
  notNull := rfl

def invitation : OutboxMessage where
  eventId := ⟨"o1:invited", by decide⟩
  subject := ⟨"ceremony.invited", by decide⟩
  payload := .array [.string "captain", .string "pilot"]
  enqueuedAt := ⟨0, 0⟩
  notNull := rfl

/-- A session is stored together with a notice of it and whom it invites. -/
def opening : CeremonyCommit := ⟨session, .new, [], [notice, invitation], rfl⟩

def patient : PublishOutboxInput := ⟨8, 3, ⟨1000⟩, by decide, by decide, by decide⟩

def lost : Except DomainError Unit := .error (.invariantViolated "transport refused")

def arrived : Except DomainError Unit := .ok ()

theorem committed_opening {env : Rendering} (id : CeremonyId) :
    committed (InMemoryCeremonyStore.commit env opening OrdMap.empty).2 id =
      if id = sessionId then [notice, invitation] else [] := by
  have hland := @commit_landed env OrdMap.empty opening [] rfl rfl
  have hsession : opening.session.id = sessionId := rfl
  rw [hland, committed, stored_insert, hsession]
  split
  · rfl
  · rfl

theorem distinct_of_opening
    (h : ∀ id, committed store id = if id = sessionId then [notice, invitation] else []) :
    Distinct store := by
  have hids : ([notice, invitation].map OutboxMessage.eventId).Nodup := by decide
  intro id jd j k m n hm hn hsame
  rw [h] at hm hn
  split at hm
  · split at hn
    · next hid hjd =>
      refine ⟨hid.trans hjd.symm, ?_⟩
      have hlt : j < ([notice, invitation].map OutboxMessage.eventId).length := by
        simpa using (List.getElem?_eq_some_iff.mp hm).1
      refine (List.getElem?_inj hlt hids).mp ?_
      rw [List.getElem?_map, List.getElem?_map, hm, hn, Option.map_some, Option.map_some, hsame]
    · simp at hn
  · simp at hm

/-- Somebody opens a session. The notice of it is lost in the first round and arrives in the
second, and the invitation behind it arrives in the third. -/
theorem opening_runs : ∃ c, Runs TamperEvidence.table (fun _ _ => True) c ∧
    (∀ id, committed c.world.store id = if id = sessionId then [notice, invitation] else []) ∧
    failures c.world.log notice.eventId = 1 ∧ Marked c.world.log notice.eventId ∧
    Marked c.world.log invitation.eventId := by
  have h₀ : Runs TamperEvidence.table (fun _ _ => True) ⟨World.empty, []⟩ := .refl
  have h₁ := h₀.tail (.drift (.commit opening))
  have h₂ := h₁.tail (.arrive (.publish patient))
  have h₃ := h₂.tail (.advance (i := 0) (a := (⟨5, 0⟩ : OffsetDateTime)) rfl ⟨trivial, rfl⟩)
  have h₄ := h₃.tail (.advance (i := 0) rfl ⟨rfl, rfl⟩)
  have h₅ := h₄.tail (.advance (i := 0) (a := lost) rfl rfl)
  have h₆ := h₅.tail (.advance (i := 0) rfl ⟨rfl, rfl⟩)
  have h₇ := h₆.tail (.arrive (.publish patient))
  have h₈ := h₇.tail (.advance (i := 1) (a := (⟨6, 0⟩ : OffsetDateTime)) rfl ⟨trivial, rfl⟩)
  have h₉ := h₈.tail (.advance (i := 1) rfl ⟨rfl, rfl⟩)
  have h₁₀ := h₉.tail (.advance (i := 1) (a := arrived) rfl rfl)
  have h₁₁ := h₁₀.tail (.advance (i := 1) rfl ⟨rfl, rfl⟩)
  have h₁₂ := h₁₁.tail (.arrive (.publish patient))
  have h₁₃ := h₁₂.tail (.advance (i := 2) (a := (⟨7, 0⟩ : OffsetDateTime)) rfl ⟨trivial, rfl⟩)
  have h₁₄ := h₁₃.tail (.advance (i := 2) rfl ⟨rfl, rfl⟩)
  have h₁₅ := h₁₄.tail (.advance (i := 2) (a := arrived) rfl rfl)
  have h₁₆ := h₁₅.tail (.advance (i := 2) rfl ⟨rfl, rfl⟩)
  refine ⟨_, h₁₆, fun id => ?_, rfl, ?_, ?_⟩
  · rw [← @committed_opening TamperEvidence.table id]
    iterate 2
      refine (committed_updateMessages (markDelivered_message _) id).trans ?_
      refine (committed_claim _ _ _ id).trans ?_
    refine (committed_updateMessages (markFailed_message _) id).trans ?_
    exact committed_claim _ _ _ id
  · exact ⟨⟨3, ⟨6, 0⟩, .delivered [notice.eventId]⟩, .tail _ (.tail _ (.tail _ (.tail _ (.tail _
      (.head _))))), List.mem_singleton_self _⟩
  · exact ⟨_, List.mem_append_right _ (List.mem_singleton_self _), List.mem_singleton_self _⟩

theorem outbox_in_order_opening : ∃ c, Runs TamperEvidence.table (fun _ _ => True) c ∧
    Distinct c.world.store ∧ failures c.world.log notice.eventId = 1 ∧
    Marked c.world.log notice.eventId ∧ Marked c.world.log invitation.eventId ∧
    InOrder c.world := by
  obtain ⟨c, hruns, hcommitted, hfailed, hnotice, hinvitation⟩ := opening_runs
  have hd := distinct_of_opening hcommitted
  exact ⟨c, hruns, hd, hfailed, hnotice, hinvitation, outbox_in_order hruns hd⟩

end Example

end Choreographer.OutboxDelivery
