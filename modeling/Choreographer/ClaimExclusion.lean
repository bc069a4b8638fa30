import Choreographer.OutboxDelivery

namespace Choreographer.ClaimExclusion

open Choreographer.Lib.SortedMaps Choreographer.Lib.Programs Choreographer.Lib.Runs
open Choreographer.Texts Choreographer.Values Choreographer.Audit
open Choreographer.InMemory Choreographer.OutboxClaims Choreographer.PublishOutbox
open OutboxDelivery (marks quarantines fails drift_outbox)

variable {env : Rendering} {log : List Event} {e : Event} {n : Nat} {w : World}
  {c : ClaimedOutboxMessage} {place : CeremonyId × Nat} {time leaseUntil : OffsetDateTime}
  {x : EventId}

/-- The claim of this number answered with the message, which lies at this place. -/
def Handed (log : List Event) (n : Nat) (c : ClaimedOutboxMessage) (place : CeremonyId × Nat)
    (leaseUntil : OffsetDateTime) : Prop :=
  ∃ e answer places, log[n]? = some e ∧ e.deed = .claimed answer places leaseUntil ∧
    (c, place) ∈ answer.zip places

/-- The publisher who made this claim has said what became of the message. -/
def Reported (log : List Event) (n : Nat) (x : EventId) : Prop :=
  ∃ e ∈ log, e.claim = n ∧ (fails e.deed x = true ∨ marks e.deed x ∨ quarantines e.deed x)

/-- A claim on a message that is neither reported on nor expired. -/
def Live (log : List Event) (time : OffsetDateTime) (n : Nat) (c : ClaimedOutboxMessage)
    (place : CeremonyId × Nat) : Prop :=
  ∃ leaseUntil, Handed log n c place leaseUntil ∧ ¬ Reported log n c.message.eventId ∧
    ¬ leaseUntil ≤ time

/-- No claim returns a message on which another claim is live. -/
def Exclusive (log : List Event) : Prop :=
  ∀ before e after answer places leaseUntil, log = before ++ e :: after →
    e.deed = .claimed answer places leaseUntil → ∀ c place, (c, place) ∈ answer.zip places →
      ∀ n c', ¬ Live before e.time n c' place

/-- Whoever records a failure has the only live claim on a message of that id, if
there is one. -/
def Considerate (log : List Event) : Prop :=
  ∀ before e after x, log = before ++ e :: after → e.deed = .failed x →
    ∀ n c place, Live before e.time n c place → c.message.eventId = x → n = e.claim

/-- The store still holds a message for a claim, or will not hand it out again. -/
def Holds (leaseUntil : OffsetDateTime) (c : ClaimedOutboxMessage) (e : StoredOutboxMessage) :
    Prop :=
  e.message = c.message ∧
    (e.delivered = true ∨ e.quarantine.isSome = true ∨ e.claimedUntil = some leaseUntil)

def HeldIn (store : InMemoryCeremonyStore) (leaseUntil : OffsetDateTime) (c : ClaimedOutboxMessage)
    (place : CeremonyId × Nat) : Prop :=
  ∃ e, (store.stored place.1).outbox[place.2]? = some e ∧ Holds leaseUntil c e

structure Guarded (w : World) : Prop where
  held : ∀ n c place leaseUntil, Handed w.log n c place leaseUntil →
    ¬ Reported w.log n c.message.eventId → ¬ leaseUntil ≤ w.clock →
    HeldIn w.store leaseUntil c place
  exclusive : Exclusive w.log

def protocol : Protocol World where
  inv w := Considerate w.log → Guarded w
  guar w w' := w.clock ≤ w'.clock ∧ w.log <+: w'.log

section Log

theorem handed_concat : Handed (log ++ [e]) n c place leaseUntil ↔
    Handed log n c place leaseUntil ∨ n = log.length ∧ ∃ answer places,
      e.deed = .claimed answer places leaseUntil ∧ (c, place) ∈ answer.zip places := by
  constructor
  · rintro ⟨d, answer, places, hd, hdeed, hc⟩
    rw [List.getElem?_append] at hd
    split at hd
    · exact .inl ⟨d, answer, places, hd, hdeed, hc⟩
    · have hn : n - log.length = 0 := by
        have hlt := (List.getElem?_eq_some_iff.mp hd).1
        simp only [List.length_singleton] at hlt
        omega
      rw [hn] at hd
      obtain rfl : e = d := Option.some.inj hd
      exact .inr ⟨by omega, answer, places, hdeed, hc⟩
  · rintro (⟨d, answer, places, hd, hdeed, hc⟩ | ⟨rfl, answer, places, hdeed, hc⟩)
    · refine ⟨d, answer, places, ?_, hdeed, hc⟩
      rw [List.getElem?_append_left (List.getElem?_eq_some_iff.mp hd).1]
      exact hd
    · exact ⟨e, answer, places, by simp, hdeed, hc⟩

theorem Reported.mono {log' : List Event} (hl : log <+: log') (h : Reported log n x) :
    Reported log' n x := by
  obtain ⟨d, hd, h⟩ := h
  exact ⟨d, hl.subset hd, h⟩

theorem Considerate.mono {log' : List Event} (hl : log <+: log') (h : Considerate log') :
    Considerate log := by
  obtain ⟨rest, rfl⟩ := hl
  intro before d after y hsplit
  exact h before d (after ++ rest) y (by rw [hsplit, List.append_assoc, List.cons_append])

end Log

section Steps

variable {store : InMemoryCeremonyStore}

theorem HeldIn.not_taken {now : OffsetDateTime} (h : HeldIn store leaseUntil c place) (limit : Nat)
    (hlive : ¬ leaseUntil ≤ now) : ¬ taken (picks limit now store.entries) place.1 place.2 := by
  rintro ⟨p, hp, hid, hk⟩
  obtain ⟨d, hd, -, hholds⟩ := h
  obtain ⟨hget, hclaimable, -⟩ := headOf_spec (stored_pick hp)
  rw [hid, hk] at hget
  obtain rfl := Option.some.inj (hget.symm.trans hd)
  simp only [StoredOutboxMessage.isClaimable, Bool.and_eq_true, Bool.not_eq_true',
    Option.isNone_iff_eq_none] at hclaimable
  obtain ⟨⟨hopen, hclear⟩, hfree⟩ := hclaimable
  rcases hholds with hdelivered | hquarantined | huntil
  · simp [hopen] at hdelivered
  · simp [hclear] at hquarantined
  · rw [huntil] at hfree
    exact hlive (by simpa using hfree)

/-- A deed other than a claim keeps the protocol if every claim that is still live
afterwards is still held. -/
theorem recorded_keeps (hi : protocol.inv w) (claim : Nat) (deed : Deed)
    (hdeed : ∀ answer places leaseUntil, deed ≠ .claimed answer places leaseUntil)
    (hheld : Considerate (w.log ++ [⟨claim, w.clock, deed⟩]) → ∀ n c place leaseUntil,
      Live w.log w.clock n c place →
      ¬ Reported (w.log ++ [⟨claim, w.clock, deed⟩]) n c.message.eventId →
      HeldIn w.store leaseUntil c place → HeldIn store leaseUntil c place) :
    protocol.inv (w.recorded claim deed store) ∧ protocol.guar w (w.recorded claim deed store) := by
  refine ⟨fun hc => ?_, Int.le_refl _, List.prefix_append _ _⟩
  obtain ⟨hold, hexclusive⟩ := hi (hc.mono (List.prefix_append _ _))
  refine ⟨fun n c place leaseUntil hhanded hopen hlive => ?_,
    fun before e after answer places leaseUntil hsplit => ?_⟩
  · rcases handed_concat.mp hhanded with hhanded | ⟨-, answer, places, hclaimed, -⟩
    · have hold_open : ¬ Reported w.log n c.message.eventId :=
        fun h => hopen (h.mono (List.prefix_append _ _))
      exact hheld hc n c place leaseUntil ⟨leaseUntil, hhanded, hold_open, hlive⟩ hopen
        (hold n c place leaseUntil hhanded hold_open hlive)
    · exact absurd hclaimed (hdeed answer places leaseUntil)
  · refine forall_split_concat (P := fun before e => e.deed = .claimed answer places leaseUntil →
        ∀ c place, (c, place) ∈ answer.zip places → ∀ n c', ¬ Live before e.time n c' place).mpr
      ⟨?_, ?_⟩ before e after hsplit
    · exact fun before e after h => hexclusive before e after answer places leaseUntil h
    · exact fun hclaimed => absurd hclaimed (hdeed answer places leaseUntil)

theorem heldIn_updateMessages {change : StoredOutboxMessage → StoredOutboxMessage × Bool}
    (hchange : ∀ d, Holds leaseUntil c d → Holds leaseUntil c (change d).1)
    (h : HeldIn store leaseUntil c place) :
    HeldIn (store.updateMessages change) leaseUntil c place := by
  obtain ⟨d, hd, hholds⟩ := h
  exact ⟨(change d).1, by simp [stored_updateMessages, hd], hchange d hholds⟩

theorem Holds.markDelivered (eventIds : List EventId) {d : StoredOutboxMessage}
    (h : Holds leaseUntil c d) : Holds leaseUntil c (d.markDelivered eventIds).1 := by
  unfold StoredOutboxMessage.markDelivered
  split
  · exact ⟨h.1, .inl rfl⟩
  · exact h

theorem Holds.quarantine (x : EventId) (reason : OutboxQuarantineReason) {d : StoredOutboxMessage}
    (h : Holds leaseUntil c d) : Holds leaseUntil c (d.quarantined x reason).1 := by
  unfold StoredOutboxMessage.quarantined
  split
  · exact ⟨h.1, .inr (.inl rfl)⟩
  · exact h

theorem Holds.markFailed {d : StoredOutboxMessage} (hx : c.message.eventId ≠ x)
    (h : Holds leaseUntil c d) : Holds leaseUntil c (d.markFailed x).1 := by
  unfold StoredOutboxMessage.markFailed
  split
  · next heq =>
    refine absurd ?_ hx
    rw [← heq, h.1]
  · exact h

theorem claim_keeps (hi : protocol.inv w) (limit : Nat) {now : OffsetDateTime} (lease : DurationMs)
    (hnow : now ≤ w.clock) :
    let w' := w.recorded w.log.length (.claimed (w.store.claim limit now lease).1
      (places limit now w.store) (now.plus lease)) (w.store.claim limit now lease).2
    protocol.inv w' ∧ protocol.guar w w' := by
  refine ⟨fun hc => ?_, Int.le_refl _, List.prefix_append _ _⟩
  obtain ⟨hold, hexclusive⟩ := hi (hc.mono (List.prefix_append _ _))
  have hlate {leaseUntil : OffsetDateTime} (h : ¬ leaseUntil ≤ w.clock) : ¬ leaseUntil ≤ now :=
    fun hle => h (Int.le_trans hle hnow)
  refine ⟨fun n c place leaseUntil hhanded hopen hlive => ?_,
    fun before e after answer answered leaseUntil hsplit => ?_⟩
  · rcases handed_concat.mp hhanded with hhanded | ⟨-, answer, answered, hclaimed, hq⟩
    · obtain ⟨d, hd, hholds⟩ := hold n c place leaseUntil hhanded
        (fun h => hopen (h.mono (List.prefix_append _ _))) hlive
      have hother := HeldIn.not_taken ⟨d, hd, hholds⟩ limit (hlate hlive)
      exact ⟨d, (getElem?_claim_other lease hother).trans hd, hholds⟩
    · obtain ⟨rfl, rfl, rfl⟩ := Deed.claimed.inj hclaimed
      rw [claim_places] at hq
      obtain ⟨p, hp, heq⟩ := List.mem_map.mp hq
      obtain ⟨rfl, rfl⟩ := Prod.mk.inj heq
      obtain ⟨hget, -⟩ := headOf_spec (stored_pick hp)
      refine ⟨p.message.leased (now.plus lease), ?_, rfl, .inr (.inr rfl)⟩
      refine (getElem?_claim_taken lease ⟨p, hp, rfl, rfl⟩).trans ?_
      rw [hget]
      rfl
  · refine forall_split_concat (P := fun before e => e.deed = .claimed answer answered leaseUntil →
        ∀ c place, (c, place) ∈ answer.zip answered → ∀ n c', ¬ Live before e.time n c' place).mpr
      ⟨fun before e after h => hexclusive before e after answer answered leaseUntil h, ?_⟩
      before e after hsplit
    rintro hclaimed c place hc n c' ⟨t, hhanded, hopen, hlive⟩
    obtain ⟨rfl, rfl, rfl⟩ := Deed.claimed.inj hclaimed
    rw [claim_places] at hc
    obtain ⟨p, hp, heq⟩ := List.mem_map.mp hc
    obtain ⟨rfl, rfl⟩ := Prod.mk.inj heq
    exact (hold n c' _ t hhanded hopen hlive).not_taken limit (hlate hlive) ⟨p, hp, rfl, rfl⟩

theorem drift_keeps {w' : World} (hi : protocol.inv w) (h : Drift env w w') :
    protocol.inv w' ∧ protocol.guar w w' := by
  have hlog : w'.log = w.log := by cases h <;> rfl
  have hclock : w'.clock = w.clock := by cases h <;> rfl
  refine ⟨fun hc => ?_, hclock ▸ Int.le_refl _, hlog ▸ List.prefix_rfl⟩
  obtain ⟨hold, hexclusive⟩ := hi (hlog ▸ hc)
  refine ⟨fun n c place leaseUntil hhanded hopen hlive => ?_, hlog ▸ hexclusive⟩
  rw [hlog] at hhanded hopen
  rw [hclock] at hlive
  obtain ⟨d, hd, hholds⟩ := hold n c place leaseUntil hhanded hopen hlive
  obtain ⟨added, hadded⟩ := drift_outbox h place.1
  refine ⟨d, ?_, hholds⟩
  rw [hadded, List.getElem?_append_left (List.getElem?_eq_some_iff.mp hd).1]
  exact hd

end Steps

section Publisher

theorem markFailed_safe (x : EventId) (claim : Nat) :
    SafeE (exec (· ≤ ·)) protocol (fun _ => True)
      (ExceptT.mk (Prog.call (I := calls) (.markFailed x claim))) (fun _ _ => True) := by
  refine ⟨safe_call (I := calls) _ (fun a => ?_) fun w a w' hi _ he => ?_⟩
  · cases a with
    | error e => exact stable_true
    | ok u => exact stable_true
  · obtain ⟨rfl, rfl⟩ := he
    refine (recorded_keeps hi claim (.failed x) (by simp)
      fun hc n c place t hlive hopen => ?_).imp_right fun hg => ⟨hg, trivial⟩
    refine heldIn_updateMessages fun d => Holds.markFailed fun hx => hopen ?_
    -- the only live claim on this event id is the one that is reported on
    have hn := hc w.log ⟨claim, w.clock, .failed x⟩ [] x rfl rfl n c place hlive hx
    exact ⟨_, List.mem_append_right _ (List.mem_singleton_self _), hn.symm,
      .inl (by simp [fails, hx])⟩

theorem quarantine_safe (c : ClaimedOutboxMessage) (limit : U32) (claim : Nat) :
    SafeE (exec (· ≤ ·)) protocol (fun _ => True) (quarantine claim c limit) (fun _ _ => True) := by
  refine SafeE.ofExcept fun reason _ => ⟨safe_call (I := calls) _ (fun a => ?_) ?_⟩
  · cases a with
    | error e => exact stable_true
    | ok u => exact stable_true
  · intro w a w' hi _ he
    obtain ⟨rfl, rfl⟩ := he
    refine (recorded_keeps hi claim (.quarantined c.message.eventId limit) (by simp)
      fun _ n c place t _ _ => ?_).imp_right fun hg => ⟨hg, trivial⟩
    exact heldIn_updateMessages fun d => Holds.quarantine _ reason

theorem deliver_safe (m : OutboxMessage) (claim : Nat) :
    SafeE (exec (· ≤ ·)) protocol (fun _ => True) (ask (.deliver m claim)) (fun _ _ => True) := by
  refine SafeE.lift (safe_call (I := calls) _ (fun _ => stable_true) fun w a w' hi _ he => ?_)
  obtain rfl : w' = w.recorded claim (Deed.told m a) w.store := he
  refine (recorded_keeps hi claim (Deed.told m a) (fun answer places t => ?_)
    fun _ n c place t _ _ h => h).imp_right fun hg => ⟨hg, trivial⟩
  cases a <;> simp [Deed.told]

theorem deliverAll_safe (input : PublishOutboxInput) (claim : Nat)
    (ms : List ClaimedOutboxMessage) (delivered : List EventId) (round : PublishOutboxRound) :
    SafeE (exec (· ≤ ·)) protocol (fun _ => True)
      (deliverAll input claim ms delivered round) (fun _ _ => True) := by
  induction ms generalizing delivered round with
  | nil => exact SafeE.pure fun _ _ _ => trivial
  | cons c rest ih =>
    unfold deliverAll
    split
    · exact SafeE.bind (quarantine_safe c input.maxAttempts claim) fun _ => ih delivered _
    · refine SafeE.bind (deliver_safe c.message claim) fun outcome => ?_
      cases outcome with
      | ok u => exact ih _ _
      | error err => exact SafeE.bind (markFailed_safe _ claim) fun _ => ih delivered _

theorem markDelivered_safe (claim : Nat) (delivered : List EventId) :
    SafeE (exec (· ≤ ·)) protocol (fun _ => True) (markDelivered claim delivered)
      (fun _ _ => True) := by
  unfold markDelivered
  split
  · exact SafeE.pure fun _ _ _ => trivial
  · refine ⟨safe_call (I := calls) _ (fun a => ?_) fun w a w' hi _ he => ?_⟩
    · cases a with
      | error e => exact stable_true
      | ok u => exact stable_true
    · obtain ⟨rfl, rfl⟩ := he
      refine (recorded_keeps hi claim (.delivered delivered) (by simp)
        fun _ n c place t _ _ => ?_).imp_right fun hg => ⟨hg, trivial⟩
      exact heldIn_updateMessages fun d => Holds.markDelivered delivered

theorem now_safe :
    SafeE (exec (· ≤ ·)) protocol (fun _ => True) (ask .now)
      (fun (now : OffsetDateTime) w => now ≤ w.clock) := by
  refine SafeE.lift (safe_call (I := calls) _ (fun now => ?_) fun w a w' hi _ he => ?_)
  · rintro w w' - - ⟨hclock, -⟩ h
    exact Int.le_trans h hclock
  · obtain ⟨hticks, rfl⟩ := he
    refine ⟨fun hc => ?_, ⟨hticks, List.prefix_rfl⟩, Int.le_refl _⟩
    obtain ⟨hold, hexclusive⟩ := hi hc
    refine ⟨fun n c place leaseUntil hhanded hopen hlive => ?_, hexclusive⟩
    exact hold n c place leaseUntil hhanded hopen fun h => hlive (Int.le_trans h hticks)

theorem claim_safe (limit : Nat) (now : OffsetDateTime) (lease : DurationMs) :
    SafeE (exec (· ≤ ·)) protocol (fun w => now ≤ w.clock)
      (ExceptT.mk (Prog.call (I := calls) (.claim limit now lease))) (fun _ _ => True) := by
  refine ⟨safe_call (I := calls) _ (fun a => ?_) fun w a w' hi hnow he => ?_⟩
  · cases a with
    | error e => exact stable_true
    | ok r => exact stable_true
  · obtain ⟨rfl, rfl⟩ := he
    exact (claim_keeps hi limit lease hnow).imp_right fun hg => ⟨hg, trivial⟩

theorem publishOutbox_safe (input : PublishOutboxInput) :
    SafeE (exec (· ≤ ·)) protocol (fun _ => True) (publishOutbox input) (fun _ _ => True) := by
  refine SafeE.bind now_safe fun now => ?_
  refine SafeE.bind (claim_safe input.batchSize now input.lease) fun r => ?_
  refine SafeE.bind (deliverAll_safe input r.1 r.2 [] _) fun s => ?_
  refine SafeE.bind (markDelivered_safe r.1 s.1) fun _ => ?_
  exact SafeE.pure fun _ _ _ => trivial

/-- As long as nobody reports on a message that somebody else holds, a claim is
exclusive until it is reported on or expires. -/
theorem live_claims_exclusive {c : Config calls World} (h : Runs env (· ≤ ·) c)
    (hc : Considerate c.world.log) : Exclusive c.world.log := by
  have hguarded : Guarded c.world := by
    refine inv_of_reachable (P := protocol) (fun p hp => ?_) (fun w w' => drift_keeps)
      (fun _ => ⟨fun n c place t hhanded => ?_, fun before e after answer places t hsplit => ?_⟩)
      h hc
    · obtain ⟨input⟩ := hp
      exact Safe.bind (publishOutbox_safe input).run fun _ _ _ _ => trivial
    · obtain ⟨d, answer, places, hd, -⟩ := hhanded
      simp [World.empty] at hd
    · simp [World.empty] at hsplit
  exact hguarded.exclusive

end Publisher

section Example

open OutboxDelivery (sessionId notice opening patient lost)

def epoch : OffsetDateTime := ⟨0, 0⟩
def second : OffsetDateTime := ⟨1000000000, 0⟩
def afterTwo : OffsetDateTime := ⟨2000000000, 0⟩

def first : CeremonyId × Nat := (sessionId, 0)

def handed : ClaimedOutboxMessage := ⟨notice, ⟨0⟩⟩
def handedAgain : ClaimedOutboxMessage := ⟨notice, ⟨1⟩⟩

theorem retried_runs : ∃ c, Runs TamperEvidence.table (· ≤ ·) c ∧ c.world.log =
    [⟨0, epoch, .claimed [handed] [first] second⟩, ⟨0, epoch, .refused notice⟩,
      ⟨0, epoch, .failed notice.eventId⟩,
      ⟨3, epoch, .claimed [handedAgain] [first] second⟩] := by
  have h₀ : Runs TamperEvidence.table (· ≤ ·) ⟨World.empty, []⟩ := .refl
  have h₁ := h₀.tail (.drift (.commit opening))
  have h₂ := h₁.tail (.arrive (.publish patient))
  have h₃ := h₂.tail (.advance (i := 0) (a := epoch) rfl ⟨Int.le_refl _, rfl⟩)
  have h₄ := h₃.tail (.advance (i := 0) rfl ⟨rfl, rfl⟩)
  have h₅ := h₄.tail (.advance (i := 0) (a := lost) rfl rfl)
  have h₆ := h₅.tail (.advance (i := 0) rfl ⟨rfl, rfl⟩)
  have h₇ := h₆.tail (.arrive (.publish patient))
  have h₈ := h₇.tail (.advance (i := 1) (a := epoch) rfl ⟨Int.le_refl _, rfl⟩)
  have h₉ := h₈.tail (.advance (i := 1) rfl ⟨rfl, rfl⟩)
  exact ⟨_, h₉, rfl⟩

theorem retried_considerate : Considerate
    [⟨0, epoch, .claimed [handed] [first] second⟩, ⟨0, epoch, .refused notice⟩,
      ⟨0, epoch, .failed notice.eventId⟩,
      ⟨3, epoch, .claimed [handedAgain] [first] second⟩] := by
  intro before e after x hsplit hdeed n c place hlive _
  rcases before with _ | ⟨_, _ | ⟨_, _ | ⟨_, _ | ⟨_, _⟩⟩⟩⟩
  all_goals simp only [List.nil_append, List.cons_append, List.cons.injEq] at hsplit
  · obtain ⟨rfl, -⟩ := hsplit
    simp at hdeed
  · obtain ⟨rfl, rfl, -⟩ := hsplit
    simp at hdeed
  · obtain ⟨rfl, rfl, rfl, -⟩ := hsplit
    obtain ⟨t, ⟨d, answer, places, hd, hclaimed, -⟩, -⟩ := hlive
    rcases n with _ | _ | n
    · rfl
    · obtain rfl := Option.some.inj hd
      simp at hclaimed
    · simp at hd
  · obtain ⟨rfl, rfl, rfl, rfl, -⟩ := hsplit
    simp at hdeed
  · simp at hsplit

theorem live_claims_exclusive_retried : ∃ c, Runs TamperEvidence.table (· ≤ ·) c ∧
    Considerate c.world.log ∧ c.world.log.length = 4 ∧ Exclusive c.world.log := by
  obtain ⟨c, hruns, hlog⟩ := retried_runs
  have hc : Considerate c.world.log := hlog ▸ retried_considerate
  exact ⟨c, hruns, hc, by rw [hlog]; rfl, live_claims_exclusive hruns hc⟩

/-- A publisher reports a failure after its claim has expired and a second one has
claimed the notice, and a third one is handed it as well. -/
theorem late_report_runs : ∃ c, Runs TamperEvidence.table (· ≤ ·) c ∧ c.world.log =
    [⟨0, epoch, .claimed [handed] [first] second⟩,
      ⟨1, second, .claimed [handed] [first] afterTwo⟩,
      ⟨0, second, .refused notice⟩, ⟨0, second, .failed notice.eventId⟩] ++
    ⟨4, second, .claimed [handedAgain] [first] afterTwo⟩ :: [] := by
  have h₀ : Runs TamperEvidence.table (· ≤ ·) ⟨World.empty, []⟩ := .refl
  have h₁ := h₀.tail (.drift (.commit opening))
  have h₂ := h₁.tail (.arrive (.publish patient))
  have h₃ := h₂.tail (.advance (i := 0) (a := epoch) rfl ⟨Int.le_refl _, rfl⟩)
  have h₄ := h₃.tail (.advance (i := 0) rfl ⟨rfl, rfl⟩)
  have h₅ := h₄.tail (.arrive (.publish patient))
  have h₆ := h₅.tail (.advance (i := 1) (a := second) rfl ⟨by decide, rfl⟩)
  have h₇ := h₆.tail (.advance (i := 1) rfl ⟨rfl, rfl⟩)
  have h₈ := h₇.tail (.advance (i := 0) (a := lost) rfl rfl)
  have h₉ := h₈.tail (.advance (i := 0) rfl ⟨rfl, rfl⟩)
  have h₁₀ := h₉.tail (.arrive (.publish patient))
  have h₁₁ := h₁₀.tail (.advance (i := 2) (a := second) rfl ⟨Int.le_refl _, rfl⟩)
  have h₁₂ := h₁₁.tail (.advance (i := 2) rfl ⟨rfl, rfl⟩)
  exact ⟨_, h₁₂, rfl⟩

/-- The third publisher is handed a message on which the claim of the second is live. -/
theorem late_report_shares_message :
    ∃ c, Runs TamperEvidence.table (· ≤ ·) c ∧ ¬ Exclusive c.world.log := by
  obtain ⟨c, hruns, hlog⟩ := late_report_runs
  refine ⟨c, hruns, fun h => ?_⟩
  have hlive : Live [⟨0, epoch, .claimed [handed] [first] second⟩,
      ⟨1, second, .claimed [handed] [first] afterTwo⟩, ⟨0, second, .refused notice⟩,
      ⟨0, second, .failed notice.eventId⟩] second 1 handed first := by
    refine ⟨afterTwo, ⟨_, _, _, rfl, rfl, List.mem_singleton_self _⟩, ?_, by decide⟩
    rintro ⟨e, he, hclaim, hreport⟩
    simp only [List.mem_cons, List.not_mem_nil, or_false] at he
    rcases he with rfl | rfl | rfl | rfl
    · simp at hclaim
    · simp [fails, marks, quarantines] at hreport
    · simp at hclaim
    · simp at hclaim
  exact h _ _ _ _ _ _ hlog rfl handedAgain first (List.mem_singleton_self _) 1 handed hlive

end Example

end Choreographer.ClaimExclusion
