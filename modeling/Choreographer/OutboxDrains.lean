import Choreographer.Lib.Pairings
import Choreographer.OutboxDelivery
import Mathlib.Algebra.Order.BigOperators.Group.List

namespace Choreographer.OutboxDrains

open Choreographer.Lib.SortedMaps Choreographer.Lib.Programs Choreographer.Lib.Pairings
open Choreographer.Lib.Padding
open Choreographer.Texts Choreographer.Values Choreographer.InMemory Choreographer.OutboxClaims
open Choreographer.PublishOutbox
open Choreographer.OutboxDelivery (sessionId notice invitation patient lost)

section Rounds

variable (transport : OutboxMessage → Except DomainError Unit → Prop) (input : PublishOutboxInput)

/-- What a transport may answer. Nothing is asked of the other calls. -/
def Answers : (c : Call) → c.Answer → Prop
  | .deliver message _, a => transport message a
  | _, _ => True

def served (ticks : OffsetDateTime → OffsetDateTime → Prop) : Semantics calls World :=
  fun c w a w' => exec ticks c w a w' ∧ Answers transport c a

/-- Every lease of the store has run out. -/
def Expired (store : InMemoryCeremonyStore) (now : OffsetDateTime) : Prop :=
  ∀ id, ∀ e ∈ (store.stored id).outbox, ∀ t, e.claimedUntil = some t → t ≤ now

/-- So many rounds of one publisher, each begun when nobody holds a lease any more. -/
inductive Passes : Nat → World → World → Prop
  | rest (w : World) : Passes 0 w w
  | round {n : Nat} {w v w' : World} {outcome : Except DomainError PublishOutboxRound} :
      Passes n w v →
      Returns (served transport fun _ now => Expired v.store now) (publishOutbox input).run v
        outcome w' → Passes (n + 1) w w'

end Rounds

section Owed

variable {limit : U32} {e : StoredOutboxMessage}

/-- How often a message can still be tried, and once more to put it aside. -/
def owed (limit : U32) (e : StoredOutboxMessage) : Nat :=
  if e.delivered || e.quarantine.isSome then 0
  else limit.val + 1 - min e.attempt.value.val limit.val

def queueOwed (limit : U32) (queue : List StoredOutboxMessage) : Nat :=
  (queue.map (owed limit)).sum

def storeOwed (limit : U32) (store : InMemoryCeremonyStore) : Nat :=
  (store.keys.map fun id => queueOwed limit (store.stored id).outbox).sum

/-- A message of this event id has failed as often as it may. -/
def GivenUp (limit : U32) (store : InMemoryCeremonyStore) (x : EventId) : Prop :=
  ∃ id, ∃ e ∈ (store.stored id).outbox, e.message.eventId = x ∧ isExhausted e.attempt limit = true

/-- The transport takes messages of this event id, and none of them has been put aside or
has failed as often as it may. -/
structure Welcome (transport : OutboxMessage → Except DomainError Unit → Prop) (limit : U32)
    (store : InMemoryCeremonyStore) (x : EventId) : Prop where
  taken : ∀ m a, m.eventId = x → transport m a → a = .ok ()
  unspent : ∀ id, ∀ e ∈ (store.stored id).outbox, e.message.eventId = x →
    e.quarantine = none ∧ isExhausted e.attempt limit = false

/-- All is delivered up to the end of the queue, or up to a message that was put aside. -/
def Settled (queue : List StoredOutboxMessage) : Prop :=
  ∀ (k : Nat) (e : StoredOutboxMessage), queue[k]? = some e →
    (∀ j < k, ∀ d, queue[j]? = some d → d.delivered = true) →
    e.delivered = true ∨ e.quarantine.isSome = true

theorem undecided_of_claimable {now : OffsetDateTime} (h : e.isClaimable now = true) :
    e.delivered = false ∧ e.quarantine = none := by
  simp only [StoredOutboxMessage.isClaimable, Bool.and_eq_true, Bool.not_eq_true',
    Option.isNone_iff_eq_none] at h
  exact h.1

theorem owed_pos (hopen : e.delivered = false) (hq : e.quarantine = none) : 0 < owed limit e := by
  simp only [owed, hopen, hq, Option.isSome_none, Bool.or_self, Bool.false_eq_true, if_false]
  omega

theorem owed_delivered (h : e.delivered = true) : owed limit e = 0 := by
  simp [owed, h]

theorem owed_quarantined (h : e.quarantine.isSome = true) : owed limit e = 0 := by
  simp [owed, h]

theorem owed_failed (limit : U32) (e : StoredOutboxMessage) :
    owed limit { e with attempt := e.attempt.next, claimedUntil := none } ≤ owed limit e ∧
      (owed limit { e with attempt := e.attempt.next, claimedUntil := none } ≤ 1 ∨
        owed limit { e with attempt := e.attempt.next, claimedUntil := none } < owed limit e) := by
  by_cases hdone : (e.delivered || e.quarantine.isSome) = true
  · simp [owed, hdone]
  · have hmax := limit.isLt
    simp only [owed, hdone, OutboxAttempt.next, saturatingSucc_val, Bool.false_eq_true, if_false]
    omega

theorem owed_of_pos (hpos : 0 < owed limit e) (h : isExhausted e.attempt limit = false) :
    1 < owed limit e := by
  have hlt : e.attempt.value.val < limit.val := by
    simpa [isExhausted] using h
  unfold owed at hpos ⊢
  split_ifs at hpos ⊢ with hdone
  · exact absurd hpos (lt_irrefl 0)
  · omega

end Owed

section Becoming

variable {R S T : StoredOutboxMessage → StoredOutboxMessage → Prop}
variable {store store' store'' : InMemoryCeremonyStore}

/-- The same queues, each message of them changed in a way. -/
structure Becomes (R : StoredOutboxMessage → StoredOutboxMessage → Prop)
    (store store' : InMemoryCeremonyStore) : Prop where
  keys : store'.keys = store.keys
  queues : ∀ id, List.Forall₂ R (store.stored id).outbox (store'.stored id).outbox

theorem Becomes.trans (h : Becomes R store store') (h' : Becomes S store' store'')
    (hT : ∀ e d c, R e d → S d c → T e c) : Becomes T store store'' := by
  refine ⟨h'.keys.trans h.keys, fun id => ?_⟩
  exact forall₂_comp (h.queues id) (h'.queues id) hT

theorem becomes_updateMessages {change : StoredOutboxMessage → StoredOutboxMessage × Bool}
    (hR : ∀ e, R e (change e).1) : Becomes R store (store.updateMessages change) := by
  constructor
  · simp [InMemoryCeremonyStore.updateMessages, OrdMap.mapValues, OrdMap.keys]
  · intro id
    rw [stored_updateMessages]
    exact List.forall₂_map_right_iff.mpr (List.forall₂_same.mpr fun e _ => hR e)

theorem becomes_claim {limit : Nat} {now : OffsetDateTime} {lease : DurationMs}
    (hR : ∀ e, R e e) (hleased : ∀ e, R e (e.leased (now.plus lease))) :
    Becomes R store (store.claim limit now lease).2 := by
  constructor
  · exact OrdMap.keys_scanEntries _ _ _
  · intro id
    rw [stored_claim]
    simp only [leasedIn]
    cases hp : pickOf (picks limit now store.entries) id with
    | none => exact List.forall₂_same.mpr fun e _ => hR e
    | some p =>
      obtain ⟨hmem, rfl⟩ := pickOf_some hp
      obtain ⟨hget, -⟩ := headOf_spec (stored_pick hmem)
      have hset : (store.stored p.ceremony).outbox.set p.index p.message =
          (store.stored p.ceremony).outbox := by
        obtain ⟨hk, he⟩ := List.getElem?_eq_some_iff.mp hget
        rw [← he, List.set_getElem_self]
      have hsame : List.Forall₂ R (store.stored p.ceremony).outbox
          (store.stored p.ceremony).outbox := List.forall₂_same.mpr fun e _ => hR e
      have hchanged := forall₂_set (n := p.index) hsame (hleased p.message)
      rwa [hset] at hchanged

theorem outbox_claim_nothing {limit : Nat} {now : OffsetDateTime} {lease : DurationMs}
    (h : picks limit now store.entries = []) (id : CeremonyId) :
    ((store.claim limit now lease).2.stored id).outbox = (store.stored id).outbox := by
  rw [stored_claim, h]
  rfl

theorem outbox_markDelivered_nothing (store : InMemoryCeremonyStore) (id : CeremonyId) :
    ((store.markDelivered []).stored id).outbox = (store.stored id).outbox := by
  rw [InMemoryCeremonyStore.markDelivered, stored_updateMessages]
  refine (List.map_congr_left fun e _ => ?_).trans (List.map_id _)
  exact congrArg Prod.fst (if_neg List.not_mem_nil)

end Becoming

section Round

variable {transport : OutboxMessage → Except DomainError Unit → Prop}
variable {ticks : OffsetDateTime → OffsetDateTime → Prop} {input : PublishOutboxInput}
variable {calm calm' spent spent' : EventId → Prop} {limit : U32}
variable {seen : List ClaimedOutboxMessage} {confirmed : List EventId}
variable {e d : StoredOutboxMessage} {c : ClaimedOutboxMessage}

/-- What publishing may do to a message. Those of a calm event id do not fail, and only those
of a spent one are put aside. -/
structure Aged (calm spent : EventId → Prop) (e d : StoredOutboxMessage) : Prop where
  message : d.message = e.message
  stays : e.delivered = true → d.delivered = true
  tried : e.attempt.value ≤ d.attempt.value
  calmly : calm e.message.eventId → d.attempt = e.attempt ∧ d.quarantine = e.quarantine
  aside : d.quarantine.isSome = true → e.quarantine.isSome = true ∨ spent e.message.eventId

theorem Aged.refl (e : StoredOutboxMessage) : Aged calm spent e e :=
  ⟨rfl, id, le_refl _, fun _ => ⟨rfl, rfl⟩, .inl⟩

theorem Aged.trans {f : StoredOutboxMessage} (h : Aged calm spent e d) (h' : Aged calm' spent' d f)
    (hcalm : ∀ x, calm x → calm' x) (hspent : ∀ x, spent x → spent' x) :
    Aged calm spent' e f := by
  refine ⟨h'.message.trans h.message, fun hd => h'.stays (h.stays hd), h.tried.trans h'.tried, ?_, ?_⟩
  · intro hc
    obtain ⟨hattempt, hquarantine⟩ := h.calmly hc
    obtain ⟨hattempt', hquarantine'⟩ := h'.calmly (h.message ▸ hcalm _ hc)
    exact ⟨hattempt'.trans hattempt, hquarantine'.trans hquarantine⟩
  · intro hq
    obtain hq | hs := h'.aside hq
    · exact (h.aside hq).imp_right (hspent _)
    · exact .inr (h.message ▸ hs)

/-- What a round has done to a message, once it has seen to some of those it claimed and
the transport confirmed some of these. -/
structure Handled (calm spent : EventId → Prop) (limit : U32) (seen : List ClaimedOutboxMessage)
    (confirmed : List EventId) (e d : StoredOutboxMessage) : Prop extends Aged calm spent e d where
  lessOwed : owed limit d ≤ owed limit e
  progress : e.claimed ∈ seen → owed limit e = 0 ∨ owed limit d < owed limit e ∨
    e.message.eventId ∈ confirmed

theorem Handled.start (limit : U32) (e : StoredOutboxMessage) :
    Handled calm spent limit [] [] e e :=
  ⟨Aged.refl e, le_refl _, fun h => absurd h List.not_mem_nil⟩

theorem Handled.leased (limit : U32) (lease : OffsetDateTime) (e : StoredOutboxMessage) :
    Handled calm spent limit [] [] e (e.leased lease) :=
  ⟨⟨rfl, id, le_refl _, fun _ => ⟨rfl, rfl⟩, .inl⟩, le_refl _, fun h => absurd h List.not_mem_nil⟩

theorem Handled.eventId (h : Handled calm spent limit seen confirmed e d) :
    d.message.eventId = e.message.eventId := congrArg OutboxMessage.eventId h.message

theorem Handled.progress_of_le {d' : StoredOutboxMessage}
    (h : Handled calm spent limit seen confirmed e d) (hle : owed limit d' ≤ owed limit d)
    (hseen : e.claimed ∈ seen) : owed limit e = 0 ∨ owed limit d' < owed limit e ∨
      e.message.eventId ∈ confirmed := by
  obtain hnone | hless | hconfirmed := h.progress hseen
  · exact .inl hnone
  · exact .inr (.inl (lt_of_le_of_lt hle hless))
  · exact .inr (.inr hconfirmed)

theorem Handled.elsewhere (h : Handled calm spent limit seen confirmed e d)
    (hid : d.message.eventId ≠ c.message.eventId) :
    Handled calm spent limit (seen ++ [c]) confirmed e d := by
  refine ⟨h.toAged, h.lessOwed, ?_⟩
  intro hseen
  obtain hseen | hlast := List.mem_append.mp hseen
  · exact h.progress hseen
  · apply absurd _ hid
    rw [h.eventId, ← List.mem_singleton.mp hlast]
    rfl

theorem Handled.quarantine (h : Handled calm spent limit seen confirmed e d)
    (hcalm : ¬ calm c.message.eventId) (hspent : spent c.message.eventId)
    (reason : OutboxQuarantineReason) :
    Handled calm spent limit (seen ++ [c]) confirmed e (d.quarantined c.message.eventId reason).1 := by
  by_cases hid : d.message.eventId = c.message.eventId
  · have hq : d.quarantined c.message.eventId reason =
        ({ d with quarantine := some reason, claimedUntil := none }, true) := if_pos hid
    rw [hq]
    have hzero : owed limit { d with quarantine := some reason, claimedUntil := none } = 0 :=
      owed_quarantined rfl
    have hsame : e.message.eventId = c.message.eventId := h.eventId.symm.trans hid
    refine ⟨⟨h.message, h.stays, h.tried, fun hc => absurd (hsame ▸ hc) hcalm,
      fun _ => .inr (hsame ▸ hspent)⟩, hzero.trans_le (Nat.zero_le _), ?_⟩
    intro _
    exact (Nat.eq_zero_or_pos _).imp_right fun hpos => .inl (hzero.trans_lt hpos)
  · have hq : d.quarantined c.message.eventId reason = (d, false) := if_neg hid
    rw [hq]
    exact h.elsewhere hid

theorem Handled.failed (h : Handled calm spent limit seen confirmed e d)
    (hcalm : ¬ calm c.message.eventId) (hfresh : isExhausted c.attempt limit = false) :
    Handled calm spent limit (seen ++ [c]) confirmed e (d.markFailed c.message.eventId).1 := by
  by_cases hid : d.message.eventId = c.message.eventId
  · have hf : d.markFailed c.message.eventId =
        ({ d with attempt := d.attempt.next, claimedUntil := none }, true) := if_pos hid
    rw [hf]
    obtain ⟨hle, hless⟩ := owed_failed limit d
    have hsame : e.message.eventId = c.message.eventId := h.eventId.symm.trans hid
    have htried : d.attempt.value ≤ d.attempt.next.value := by
      rw [Fin.le_def, OutboxAttempt.next, saturatingSucc_val]
      have hmax := d.attempt.value.isLt
      omega
    refine ⟨⟨h.message, h.stays, h.tried.trans htried, fun hc => absurd (hsame ▸ hc) hcalm,
      h.aside⟩, hle.trans h.lessOwed, ?_⟩
    intro hseen
    obtain hseen | hlast := List.mem_append.mp hseen
    · exact h.progress_of_le hle hseen
    · obtain rfl := List.mem_singleton.mp hlast
      obtain hnone | hpos := Nat.eq_zero_or_pos (owed limit e)
      · exact .inl hnone
      · refine .inr (.inl ?_)
        have hlarge : 1 < owed limit e := owed_of_pos hpos hfresh
        obtain hone | hless := hless
        · exact lt_of_le_of_lt hone hlarge
        · exact lt_of_lt_of_le hless h.lessOwed
  · have hf : d.markFailed c.message.eventId = (d, false) := if_neg hid
    rw [hf]
    exact h.elsewhere hid

theorem Handled.confirm (h : Handled calm spent limit seen confirmed e d) :
    Handled calm spent limit (seen ++ [c]) (confirmed ++ [c.message.eventId]) e d := by
  refine ⟨h.toAged, h.lessOwed, ?_⟩
  intro hseen
  obtain hseen | hlast := List.mem_append.mp hseen
  · obtain hnone | hless | hconfirmed := h.progress hseen
    · exact .inl hnone
    · exact .inr (.inl hless)
    · exact .inr (.inr (List.mem_append_left _ hconfirmed))
  · refine .inr (.inr (List.mem_append_right _ ?_))
    rw [← List.mem_singleton.mp hlast]
    exact List.mem_singleton_self _

theorem Handled.delivered (h : Handled calm spent limit seen confirmed e d) :
    Handled calm spent limit seen [] e (d.markDelivered confirmed).1 := by
  by_cases hid : d.message.eventId ∈ confirmed
  · have hd : d.markDelivered confirmed =
        ({ d with delivered := true, claimedUntil := none }, true) := if_pos hid
    rw [hd]
    have hzero : owed limit { d with delivered := true, claimedUntil := none } = 0 :=
      owed_delivered rfl
    refine ⟨⟨h.message, fun _ => rfl, h.tried, h.calmly, h.aside⟩,
      hzero.trans_le (Nat.zero_le _), ?_⟩
    intro _
    exact (Nat.eq_zero_or_pos _).imp_right fun hpos => .inl (hzero.trans_lt hpos)
  · have hd : d.markDelivered confirmed = (d, false) := if_neg hid
    rw [hd]
    refine ⟨h.toAged, h.lessOwed, ?_⟩
    intro hseen
    obtain hnone | hless | hconfirmed := h.progress hseen
    · exact .inl hnone
    · exact .inr (.inl hless)
    · exact absurd (h.eventId ▸ hconfirmed) hid

theorem utf8ByteSize_le (s : String) : s.utf8ByteSize ≤ 4 * s.toList.length := by
  rw [← String.ofList_toList (s := s)]
  generalize s.toList = l
  induction l with
  | nil => simp
  | cons c l ih =>
    have hc := Char.utf8Size_le_four c
    rw [String.ofList_cons, String.utf8ByteSize_append, String.utf8ByteSize_singleton]
    simp only [String.toList_append, String.toList_singleton, String.toList_ofList,
      List.length_append, List.length_singleton] at ih ⊢
    omega

theorem length_repr_le (n : U32) : n.val.repr.toList.length ≤ 10 := by
  rw [String.length_toList, Nat.length_repr_le_iff (by decide)]
  exact n.isLt.trans (by decide)

theorem reason_given (attempt max : U32) : ∃ reason : OutboxQuarantineReason,
    Text.new ("delivery failed " ++ attempt.val.repr ++ " times, at or above the limit of " ++
      max.val.repr) = .ok reason := by
  generalize hraw : "delivery failed " ++ attempt.val.repr ++ " times, at or above the limit of " ++
    max.val.repr = raw
  have hlength : raw.toList.length ≤ 70 := by
    have hattempt := length_repr_le attempt
    have hmax := length_repr_le max
    simp only [← hraw, String.toList_append, List.length_append]
    have hfirst : "delivery failed ".toList.length = 16 := rfl
    have hsecond : " times, at or above the limit of ".toList.length = 33 := rfl
    omega
  have hprefix : (trim raw).toList.Sublist raw.toList := by
    rw [toList_trim, strip]
    exact (List.rdropWhile_prefix _ _).sublist.trans (List.dropWhile_sublist _)
  have hsize : (trim raw).utf8ByteSize ≤ 512 := by
    have hbytes := utf8ByteSize_le (trim raw)
    have hshorter := hprefix.length_le
    omega
  have hne : trim raw ≠ "" := by
    intro hblank
    obtain ⟨tail, htail⟩ : ∃ tail, raw.toList = 'd' :: tail := by
      refine ⟨"elivery failed ".toList ++ attempt.val.repr.toList ++
        " times, at or above the limit of ".toList ++ max.val.repr.toList, ?_⟩
      simp [← hraw]
    have hnil : strip isWhitespace raw.toList = [] := by
      rw [← toList_trim, hblank]
      rfl
    rw [htail, strip, List.dropWhile_cons_of_neg (by decide), List.rdropWhile_eq_nil_iff] at hnil
    exact absurd (hnil 'd' List.mem_cons_self) (by decide)
  refine ⟨⟨trim raw, TextRule.check_ok.mpr ⟨(trim_trim raw).symm, hne, hsize, fun _ _ => rfl⟩⟩, ?_⟩
  exact Text.new_eq_ok.mpr (TextRule.check_ok.mpr ⟨rfl, hne, hsize, fun _ _ => rfl⟩)

variable {claim : Nat} {v v' : World}

theorem returns_quarantine {r : Except DomainError Unit}
    (h : Returns (served transport ticks) (quarantine claim c limit).run v r v') :
    r = .ok () ∧ ∃ reason, v'.store = v.store.quarantine c.message.eventId reason := by
  obtain ⟨given, hgiven⟩ := reason_given c.attempt.value limit
  obtain ⟨e, herror, -⟩ | ⟨reason, v₁, hreason, hcall⟩ := returns_bindE.mp h
  · obtain ⟨hnone, -⟩ := returns_ofExcept.mp herror
    rw [hgiven] at hnone
    cases hnone
  · obtain ⟨-, rfl⟩ := returns_ofExcept.mp hreason
    obtain ⟨⟨rfl, rfl⟩, -⟩ := returns_call.mp hcall
    exact ⟨rfl, reason, rfl⟩

theorem returns_markFailed {x : EventId} {r : Except DomainError Unit}
    (h : Returns (served transport ticks)
      (ExceptT.mk (Prog.call (I := calls) (.markFailed x claim)) : Publisher Unit).run v r v') :
    r = .ok () ∧ v'.store = v.store.markFailed x := by
  obtain ⟨⟨rfl, rfl⟩, -⟩ := returns_call.mp h
  exact ⟨rfl, rfl⟩

theorem returns_deliver {m : OutboxMessage} {r : Except DomainError (Except DomainError Unit)}
    (h : Returns (served transport ticks) (ask (.deliver m claim)).run v r v') :
    ∃ a, r = .ok a ∧ transport m a ∧ v'.store = v.store := by
  obtain ⟨a, hcall, rfl⟩ := returns_lift.mp h
  obtain ⟨rfl, ha⟩ := returns_call.mp hcall
  exact ⟨a, rfl, ha, rfl⟩

theorem returns_markDelivered {delivered : List EventId} {r : Except DomainError Unit}
    (h : Returns (served transport ticks) (markDelivered claim delivered).run v r v') :
    r = .ok () ∧ (delivered = [] ∧ v' = v ∨ v'.store = v.store.markDelivered delivered) := by
  unfold markDelivered at h
  split_ifs at h with hnone
  · obtain ⟨rfl, rfl⟩ := returns_pure.mp h
    exact ⟨rfl, .inl ⟨List.isEmpty_iff.mp hnone, rfl⟩⟩
  · obtain ⟨⟨rfl, rfl⟩, -⟩ := returns_call.mp h
    exact ⟨rfl, .inr rfl⟩

theorem deliverAll_handled (htaken : ∀ m a, calm m.eventId → transport m a → a = .ok ())
    {start : InMemoryCeremonyStore} (ms : List ClaimedOutboxMessage) (delivered : List EventId)
    (round : PublishOutboxRound) {seen : List ClaimedOutboxMessage}
    {outcome : Except DomainError (List EventId × PublishOutboxRound)} {v : World}
    (hfresh : ∀ c ∈ ms, isExhausted c.attempt input.maxAttempts = true →
      ¬ calm c.message.eventId ∧ spent c.message.eventId)
    (hstart : Becomes (Handled calm spent input.maxAttempts seen delivered) start v.store)
    (h : Returns (served transport ticks) (deliverAll input claim ms delivered round).run v outcome
      v') :
    ∃ delivered' round', outcome = .ok (delivered', round') ∧
      Becomes (Handled calm spent input.maxAttempts (seen ++ ms) delivered') start v'.store := by
  induction ms generalizing delivered round seen v with
  | nil =>
    obtain ⟨rfl, rfl⟩ := returns_pure.mp h
    exact ⟨delivered, round, rfl, by rwa [List.append_nil]⟩
  | cons c ms ih =>
    have hrest (d : ClaimedOutboxMessage) (hd : d ∈ ms) :=
      hfresh d (List.mem_cons_of_mem _ hd)
    rw [← List.singleton_append, ← List.append_assoc]
    unfold deliverAll at h
    split_ifs at h with hexhausted
    · obtain ⟨hcalm, hspent⟩ := hfresh c List.mem_cons_self hexhausted
      obtain ⟨e, herror, -⟩ | ⟨_, v₁, hput, hgoes⟩ := returns_bindE.mp h
      · exact absurd (returns_quarantine herror).1 (by simp)
      · obtain ⟨-, reason, hstore⟩ := returns_quarantine hput
        refine ih _ _ hrest ?_ hgoes
        rw [hstore]
        apply hstart.trans (becomes_updateMessages fun d => rfl)
        rintro e d _ hd rfl
        exact hd.quarantine hcalm hspent reason
    · obtain ⟨e, herror, -⟩ | ⟨a, v₁, hput, hgoes⟩ := returns_bindE.mp h
      · obtain ⟨_, hnone, -⟩ := returns_deliver herror
        cases hnone
      · obtain ⟨a', ha', htold, hstore⟩ := returns_deliver hput
        obtain rfl := Except.ok.inj ha'
        rw [← hstore] at hstart
        cases a with
        | ok u =>
          refine ih _ _ hrest ?_ hgoes
          refine ⟨hstart.keys, fun id => (hstart.queues id).imp fun e d hd => hd.confirm⟩
        | error err =>
          have hcalm : ¬ calm c.message.eventId := by
            intro hc
            cases htaken _ _ hc htold
          obtain ⟨e, herror, -⟩ | ⟨_, v₂, hfail, hlast⟩ := returns_bindE.mp hgoes
          · exact absurd (returns_markFailed herror).1 (by simp)
          · obtain ⟨-, hfailed⟩ := returns_markFailed hfail
            refine ih _ _ hrest ?_ hlast
            rw [hfailed]
            apply hstart.trans (becomes_updateMessages fun d => rfl)
            rintro e d _ hd rfl
            exact hd.failed hcalm (Bool.eq_false_iff.mpr hexhausted)

theorem given_up_of_picked {now : OffsetDateTime} {p : Pick}
    (hp : p ∈ picks input.batchSize now v.store.entries)
    (hexhausted : isExhausted p.message.attempt input.maxAttempts = true) :
    ¬ Welcome transport input.maxAttempts v.store p.message.message.eventId ∧
      GivenUp input.maxAttempts v.store p.message.message.eventId := by
  have hlies := List.mem_of_getElem? (headOf_spec (stored_pick hp)).1
  refine ⟨fun hwelcome => ?_, p.ceremony, p.message, hlies, rfl, hexhausted⟩
  exact absurd hexhausted (by simp [(hwelcome.unspent p.ceremony p.message hlies rfl).2])

theorem publishOutbox_handled {outcome : Except DomainError PublishOutboxRound}
    (h : Returns (served transport fun _ now => Expired v.store now) (publishOutbox input).run v
      outcome v') :
    ∃ now, Expired v.store now ∧ (∃ round, outcome = .ok round) ∧
      Becomes (Handled (Welcome transport input.maxAttempts v.store)
        (GivenUp input.maxAttempts v.store) input.maxAttempts
        ((picks input.batchSize now v.store.entries).map fun p => p.message.claimed) [])
        v.store v'.store ∧
      (picks input.batchSize now v.store.entries = [] → ∀ id,
        (v'.store.stored id).outbox = (v.store.stored id).outbox) := by
  obtain ⟨e, herror, -⟩ | ⟨now, v₁, hnow, h₁⟩ := returns_bindE.mp h
  · obtain ⟨_, -, hnone⟩ := returns_lift.mp herror
    cases hnone
  obtain ⟨now', hasked, hsame⟩ := returns_lift.mp hnow
  obtain rfl := Except.ok.inj hsame
  obtain ⟨⟨hexpired, rfl⟩, -⟩ := returns_call.mp hasked
  refine ⟨now, hexpired, ?_⟩
  obtain ⟨e, herror, -⟩ | ⟨claimed, v₂, hclaim, h₂⟩ := returns_bindE.mp h₁
  · obtain ⟨⟨hnone, -⟩, -⟩ := returns_call.mp herror
    cases hnone
  obtain ⟨⟨hclaimed, rfl⟩, -⟩ := returns_call.mp hclaim
  obtain rfl := Except.ok.inj hclaimed
  have hstart : Becomes (Handled (Welcome transport input.maxAttempts v.store)
      (GivenUp input.maxAttempts v.store) input.maxAttempts [] []) v.store
      (v.store.claim input.batchSize now input.lease).2 :=
    becomes_claim (Handled.start _) (Handled.leased _ _)
  have hclaims : (v.store.claim input.batchSize now input.lease).1 =
      (picks input.batchSize now v.store.entries).map fun p => p.message.claimed := claim_picks ..
  have hpicked : ∀ c ∈ (v.store.claim input.batchSize now input.lease).1,
      isExhausted c.attempt input.maxAttempts = true →
      ¬ Welcome transport input.maxAttempts v.store c.message.eventId ∧
        GivenUp input.maxAttempts v.store c.message.eventId := by
    intro c hmem hexhausted
    rw [hclaims] at hmem
    obtain ⟨p, hp, rfl⟩ := List.mem_map.mp hmem
    exact given_up_of_picked hp hexhausted
  have htaken (m : OutboxMessage) (a : Except DomainError Unit)
      (hm : Welcome transport input.maxAttempts v.store m.eventId) (ha : transport m a) :
      a = .ok () := hm.taken m a rfl ha
  obtain ⟨e, herror, -⟩ | ⟨out, v₃, hdeliver, h₃⟩ := returns_bindE.mp h₂
  · obtain ⟨_, _, hnone, -⟩ := deliverAll_handled htaken _ _ _ hpicked hstart herror
    cases hnone
  obtain ⟨delivered, round, hout, hhandled⟩ :=
    deliverAll_handled htaken _ _ _ hpicked hstart hdeliver
  obtain rfl := Except.ok.inj hout
  obtain ⟨e, herror, -⟩ | ⟨_, v₄, hmark, h₄⟩ := returns_bindE.mp h₃
  · exact absurd (returns_markDelivered herror).1 (by simp)
  obtain ⟨-, hmarked⟩ := returns_markDelivered hmark
  obtain ⟨rfl, rfl⟩ := returns_pure.mp h₄
  refine ⟨⟨round, rfl⟩, ?_, ?_⟩
  · rw [List.nil_append, hclaims] at hhandled
    obtain ⟨rfl, rfl⟩ | hstore := hmarked
    · exact hhandled
    · rw [hstore]
      apply hhandled.trans (becomes_updateMessages fun d => rfl)
      rintro e d _ hd rfl
      exact hd.delivered
  · intro hnone id
    rw [hclaims, hnone] at hdeliver
    obtain ⟨hnothing, rfl⟩ := returns_pure.mp hdeliver
    obtain ⟨rfl, -⟩ := Prod.mk.inj (Except.ok.inj hnothing)
    have hsame : ((v.store.claim input.batchSize now input.lease).2.stored id).outbox =
        (v.store.stored id).outbox := outbox_claim_nothing hnone id
    obtain ⟨-, rfl⟩ | hstore := hmarked
    · exact hsame
    · rw [hstore, outbox_markDelivered_nothing]
      exact hsame

end Round

section Draining

variable {limit : U32} {store store' : InMemoryCeremonyStore} {now : OffsetDateTime}
variable {queue queue' : List StoredOutboxMessage}

theorem headOf_settled (h : Settled queue) : headOf now queue = none := by
  by_contra hsome
  obtain ⟨⟨k, e⟩, hhead⟩ := Option.ne_none_iff_exists'.mp hsome
  obtain ⟨hget, hclaimable, hbefore⟩ := headOf_spec hhead
  obtain ⟨hopen, hq⟩ := undecided_of_claimable hclaimable
  obtain hdelivered | hquarantined := h k e hget hbefore
  · exact absurd hopen (by simp [hdelivered])
  · exact Option.ne_none_iff_isSome.mpr hquarantined hq

/-- Behind delivered messages, the first one that is undecided can be claimed once its lease
has run out. -/
theorem headOf_of_unsettled (hexpired : ∀ e ∈ queue, ∀ t, e.claimedUntil = some t → t ≤ now)
    (h : ¬ Settled queue) : ∃ p, headOf now queue = some p := by
  induction queue with
  | nil =>
    apply absurd _ h
    intro k e he
    simp at he
  | cons e rest ih =>
    unfold headOf
    by_cases hdelivered : e.delivered = true
    · rw [if_pos hdelivered]
      have hrest : ¬ Settled rest := by
        intro hsettled
        apply h
        intro k d hd hbefore
        cases k with
        | zero =>
          obtain rfl := Option.some.inj hd
          exact .inl hdelivered
        | succ k =>
          refine hsettled k d hd ?_
          intro j hj c hc
          exact hbefore (j + 1) (Nat.succ_lt_succ hj) c hc
      obtain ⟨p, hp⟩ := ih (fun d hd => hexpired d (List.mem_cons_of_mem _ hd)) hrest
      exact ⟨(p.1 + 1, p.2), by rw [hp]; rfl⟩
    · rw [if_neg hdelivered]
      have hq : e.quarantine = none := by
        by_contra hsome
        apply h
        intro k d hd hbefore
        cases k with
        | zero =>
          obtain rfl := Option.some.inj hd
          exact .inr (by simpa using Option.isSome_iff_ne_none.mpr hsome)
        | succ k => exact absurd (hbefore 0 (Nat.succ_pos k) e rfl) hdelivered
      refine ⟨(0, e), if_pos ?_⟩
      simp only [StoredOutboxMessage.isClaimable, hdelivered, hq, Option.isNone_none, Bool.and_true,
        Bool.not_false, Bool.true_and]
      rw [Option.all_eq_true]
      intro t ht
      exact decide_eq_true (hexpired e List.mem_cons_self t ht)

theorem picks_of_head {room : Nat} {l : List (CeremonyId × StoredCeremony)}
    (hroom : 0 < room) {id : CeremonyId} {s : StoredCeremony} (hmem : (id, s) ∈ l)
    {p : Nat × StoredOutboxMessage} (hp : headOf now s.outbox = some p) :
    picks room now l ≠ [] := by
  induction l with
  | nil => exact absurd hmem List.not_mem_nil
  | cons entry rest ih =>
    obtain ⟨jd, t⟩ := entry
    rw [picks_cons, if_neg (by omega)]
    cases hfrom : pickFrom now jd t.outbox with
    | some q => exact List.cons_ne_nil _ _
    | none =>
      obtain heq | hrest := List.mem_cons.mp hmem
      · obtain ⟨rfl, rfl⟩ := Prod.mk.inj heq
        rw [pickFrom, hp] at hfrom
        cases hfrom
      · exact ih hrest

theorem picks_settled {room : Nat} (h : ∀ id, Settled (store.stored id).outbox) :
    picks room now store.entries = [] := by
  by_contra hsome
  obtain ⟨p, hp⟩ := List.exists_mem_of_ne_nil _ hsome
  have hhead := stored_pick hp
  rw [headOf_settled (h p.ceremony)] at hhead
  cases hhead

theorem mem_keys_of_mem_outbox {id : CeremonyId} {e : StoredOutboxMessage}
    (h : e ∈ (store.stored id).outbox) : id ∈ store.keys := by
  rw [OrdMap.mem_keys, OrdMap.contains]
  cases hget : OrdMap.get? store id with
  | some s => simp
  | none =>
    simp [InMemoryCeremonyStore.stored, hget, StoredCeremony.default] at h

theorem queueOwed_le (h : List.Forall₂ (fun e d => owed limit d ≤ owed limit e) queue queue') :
    queueOwed limit queue' ≤ queueOwed limit queue := by
  induction h with
  | nil => exact le_refl _
  | cons hle _ ih =>
    simp only [queueOwed, List.map_cons, List.sum_cons] at ih ⊢
    omega

theorem queueOwed_lt (h : List.Forall₂ (fun e d => owed limit d ≤ owed limit e) queue queue')
    {k : Nat} {e d : StoredOutboxMessage} (he : queue[k]? = some e) (hd : queue'[k]? = some d)
    (hless : owed limit d < owed limit e) : queueOwed limit queue' < queueOwed limit queue := by
  induction h generalizing k with
  | nil => simp at he
  | cons hle hrest ih =>
    cases k with
    | zero =>
      obtain rfl := Option.some.inj he
      obtain rfl := Option.some.inj hd
      have hothers := queueOwed_le hrest
      simp only [queueOwed, List.map_cons, List.sum_cons] at hothers ⊢
      omega
    | succ k =>
      have hothers := ih he hd
      simp only [queueOwed, List.map_cons, List.sum_cons] at hothers ⊢
      omega

theorem settled_of_owed_zero (h : storeOwed limit store = 0) (id : CeremonyId) :
    Settled (store.stored id).outbox := by
  intro k e he _
  have hmem := List.mem_of_getElem? he
  have hqueue : queueOwed limit (store.stored id).outbox = 0 :=
    List.sum_eq_zero_iff.mp h _ (List.mem_map_of_mem (mem_keys_of_mem_outbox hmem))
  have hzero : owed limit e = 0 := List.sum_eq_zero_iff.mp hqueue _ (List.mem_map_of_mem hmem)
  by_contra hundecided
  rw [not_or] at hundecided
  have hpos : 0 < owed limit e :=
    owed_pos (Bool.eq_false_iff.mpr hundecided.1) (by simpa using hundecided.2)
  omega

variable {transport : OutboxMessage → Except DomainError Unit → Prop} {input : PublishOutboxInput}
variable {w v v' : World} {outcome : Except DomainError PublishOutboxRound}

/-- A round that finds something undecided leaves less to do, and any other leaves all as it
was. -/
theorem round_settles
    (h : Returns (served transport fun _ now => Expired v.store now) (publishOutbox input).run v
      outcome v') :
    ((∀ id, Settled (v.store.stored id).outbox) → ∀ id, Settled (v'.store.stored id).outbox) ∧
      (¬ (∀ id, Settled (v.store.stored id).outbox) →
        storeOwed input.maxAttempts v'.store < storeOwed input.maxAttempts v.store) := by
  obtain ⟨now, hexpired, -, hbecomes, hidle⟩ := publishOutbox_handled h
  refine ⟨fun hsettled id => ?_, fun hunsettled => ?_⟩
  · rw [hidle (picks_settled hsettled) id]
    exact hsettled id
  · obtain ⟨id, hid⟩ := not_forall.mp hunsettled
    obtain ⟨q, hq⟩ := headOf_of_unsettled (hexpired id) hid
    obtain ⟨hqget, -⟩ := headOf_spec hq
    have hkey := mem_keys_of_mem_outbox (List.mem_of_getElem? hqget)
    obtain ⟨⟨_, s⟩, hs, rfl⟩ := List.mem_map.mp hkey
    rw [stored_of_mem hs] at hq
    obtain ⟨p, hp⟩ := List.exists_mem_of_ne_nil _
      (picks_of_head (Nat.pos_of_ne_zero input.batchSize_ne) hs hq)
    obtain ⟨hget, hclaimable, -⟩ := headOf_spec (stored_pick hp)
    obtain ⟨hopen, hkept⟩ := undecided_of_claimable hclaimable
    have hpos : 0 < owed input.maxAttempts p.message := owed_pos hopen hkept
    obtain ⟨d, hd, hhandled⟩ := forall₂_getElem (hbecomes.queues p.ceremony).flip hget
    have hless : owed input.maxAttempts d < owed input.maxAttempts p.message := by
      obtain hnone | hless | hconfirmed := hhandled.progress (List.mem_map_of_mem hp)
      · omega
      · exact hless
      · exact absurd hconfirmed List.not_mem_nil
    have hle (id : CeremonyId) := (hbecomes.queues id).imp fun e d hd => hd.lessOwed
    unfold storeOwed
    rw [hbecomes.keys]
    refine List.sum_lt_sum _ _ (fun id _ => queueOwed_le (hle id)) ⟨p.ceremony, ?_, ?_⟩
    · exact mem_keys_of_mem_outbox (List.mem_of_getElem? hget)
    · exact queueOwed_lt (hle p.ceremony) hget hd hless

theorem GivenUp.mono {calm spent : EventId → Prop} {x : EventId} (h : GivenUp limit store x)
    (hbecomes : Becomes (Aged calm spent) store store') : GivenUp limit store' x := by
  obtain ⟨id, e, he, hx, hexhausted⟩ := h
  obtain ⟨d, hd, haged⟩ := exists_of_forall₂ (hbecomes.queues id) he
  refine ⟨id, d, hd, by rw [haged.message, hx], ?_⟩
  exact decide_eq_true (le_trans (of_decide_eq_true hexhausted) haged.tried)

theorem Welcome.mono {spent : EventId → Prop} {x : EventId} (h : Welcome transport limit store x)
    (hbecomes : Becomes (Aged (Welcome transport limit store) spent) store store') :
    Welcome transport limit store' x := by
  refine ⟨h.taken, fun id d hd hx => ?_⟩
  obtain ⟨e, he, haged⟩ := exists_of_forall₂ (hbecomes.queues id).flip hd
  have hsame : e.message.eventId = x := by rw [← haged.message, hx]
  obtain ⟨hattempt, hquarantine⟩ := haged.calmly (hsame ▸ h)
  rw [hattempt, hquarantine]
  exact h.unspent id e he hsame

theorem passes_aged {n : Nat} {w' : World} (h : Passes transport input n w w') :
    Becomes (Aged (Welcome transport input.maxAttempts w.store) (GivenUp input.maxAttempts w'.store))
      w.store w'.store := by
  induction h with
  | rest w => exact ⟨rfl, fun id => List.forall₂_same.mpr fun e _ => Aged.refl e⟩
  | @round n w v w' outcome _ hround ih =>
    obtain ⟨_, -, -, hhandled, -⟩ := publishOutbox_handled hround
    have hround : Becomes (Aged (Welcome transport input.maxAttempts v.store)
        (GivenUp input.maxAttempts v.store)) v.store w'.store :=
      ⟨hhandled.keys, fun id => (hhandled.queues id).imp fun e d hd => hd.toAged⟩
    have hspent (x : EventId) (hx : GivenUp input.maxAttempts v.store x) :
        GivenUp input.maxAttempts w'.store x := hx.mono hround
    refine ih.trans hround fun e d f hd hf => ?_
    refine hd.trans ⟨hf.message, hf.stays, hf.tried, hf.calmly, ?_⟩ (fun x hx => hx.mono ih) hspent
    exact fun hq => (hf.aside hq).imp_right (hspent _)

/-- Where the messages are delivered or not put aside, and nothing is left to decide, all of
them are delivered. -/
theorem delivered_of_settled (hsettled : Settled queue) {k : Nat}
    (h : ∀ j ≤ k, ∀ e, queue[j]? = some e → e.delivered = true ∨ e.quarantine = none)
    {e : StoredOutboxMessage} (he : queue[k]? = some e) : e.delivered = true := by
  induction k using Nat.strong_induction_on generalizing e with
  | _ k ih =>
    obtain hdelivered | hq := h k (le_refl k) e he
    · exact hdelivered
    · refine (hsettled k e he fun j hj d hd => ?_).resolve_right (by simp [hq])
      exact ih j hj (fun i hi => h i (hi.trans hj.le)) hd

theorem exists_expired (store : InMemoryCeremonyStore) : ∃ now, Expired store now := by
  have hbound (l : List Int) : ∃ latest, ∀ t ∈ l, t ≤ latest := by
    induction l with
    | nil => exact ⟨0, fun t ht => absurd ht List.not_mem_nil⟩
    | cons s l ih =>
      obtain ⟨latest, hlatest⟩ := ih
      refine ⟨max s latest, fun t ht => ?_⟩
      obtain rfl | ht := List.mem_cons.mp ht
      · exact le_max_left _ _
      · exact (hlatest t ht).trans (le_max_right _ _)
  obtain ⟨latest, hlatest⟩ := hbound (store.keys.flatMap fun id =>
    (store.stored id).outbox.filterMap fun e => e.claimedUntil.map OffsetDateTime.nanos)
  refine ⟨⟨latest, 0⟩, fun id e he t ht => hlatest _ ?_⟩
  refine List.mem_flatMap.mpr ⟨id, mem_keys_of_mem_outbox he, ?_⟩
  exact List.mem_filterMap.mpr ⟨e, he, by rw [ht]; rfl⟩

theorem served_answers (htransport : ∀ m, ∃ a, transport m a) (store : InMemoryCeremonyStore)
    (c : Call) (w : World) :
    ∃ a w', served transport (fun _ now => Expired store now) c w a w' := by
  cases c with
  | now =>
    obtain ⟨now, hnow⟩ := exists_expired store
    exact ⟨now, _, ⟨hnow, rfl⟩, trivial⟩
  | claim limit now lease => exact ⟨_, _, ⟨rfl, rfl⟩, trivial⟩
  | deliver message claim =>
    obtain ⟨a, ha⟩ := htransport message
    exact ⟨a, _, rfl, ha⟩
  | markFailed eventId claim => exact ⟨_, _, ⟨rfl, rfl⟩, trivial⟩
  | markDelivered eventIds claim => exact ⟨_, _, ⟨rfl, rfl⟩, trivial⟩
  | quarantine eventId reason claim maxAttempts => exact ⟨_, _, ⟨rfl, rfl⟩, trivial⟩

theorem exists_passes (htransport : ∀ m, ∃ a, transport m a) (n : Nat) (w : World) :
    ∃ w', Passes transport input n w w' := by
  induction n with
  | zero => exact ⟨w, .rest w⟩
  | succ n ih =>
    obtain ⟨v, hv⟩ := ih
    obtain ⟨_, v', hround⟩ := exists_returns (served_answers htransport v.store)
      (publishOutbox input).run v
    exact ⟨v', .round hv hround⟩

end Draining

/-- All of a session is delivered to the end, or up to a message that was put aside: before,
or because a message of its event id has failed as often as it may. -/
def SettledSince (limit : U32) (store store' : InMemoryCeremonyStore) (id : CeremonyId) : Prop :=
  ∀ (k : Nat) (e : StoredOutboxMessage), (store'.stored id).outbox[k]? = some e →
    (∀ j < k, ∀ d, (store'.stored id).outbox[j]? = some d → d.delivered = true) →
    e.delivered = true ∨ e.quarantine.isSome = true ∧
      ((∃ d, (store.stored id).outbox[k]? = some d ∧ d.quarantine.isSome = true) ∨
        GivenUp limit store' e.message.eventId)

/-- However often the transport refuses, enough rounds settle the outbox, and how many is
known beforehand: each session is delivered to its end, or up to a message that was put aside
after so many failures. What the transport takes arrives, up to the first message of its
session that it does not take or that had been given up, whatever it refuses of others. -/
theorem outbox_drains (transport : OutboxMessage → Except DomainError Unit → Prop)
    (input : PublishOutboxInput) (n : Nat) (w : World) :
    ((∀ m, ∃ a, transport m a) → ∃ w', Passes transport input n w w') ∧
    ∀ w', Passes transport input n w w' →
      (∀ id, (w'.store.stored id).outbox.map StoredOutboxMessage.message =
        (w.store.stored id).outbox.map StoredOutboxMessage.message) ∧
      (storeOwed input.maxAttempts w.store ≤ n → ∀ id,
        SettledSince input.maxAttempts w.store w'.store id ∧
        ∀ k : Nat, (∀ j ≤ k, ∀ e, (w.store.stored id).outbox[j]? = some e → e.delivered = true ∨
            Welcome transport input.maxAttempts w.store e.message.eventId) →
          ∀ e, (w'.store.stored id).outbox[k]? = some e → e.delivered = true) := by
  refine ⟨fun htransport => exists_passes htransport n w, fun w' h => ?_⟩
  have haged := passes_aged h
  refine ⟨fun id => map_eq_of_forall₂ (haged.queues id) fun e d hd => hd.message, fun hn id => ?_⟩
  have hsettled : (∀ id, Settled (w'.store.stored id).outbox) ∨
      storeOwed input.maxAttempts w'.store + n ≤ storeOwed input.maxAttempts w.store := by
    clear hn haged
    induction h with
    | rest => exact .inr (le_refl _)
    | @round _ _ v _ _ _ hround ih =>
      obtain ⟨hkept, hless⟩ := round_settles hround
      by_cases hsettled : ∀ id, Settled (v.store.stored id).outbox
      · exact .inl (hkept hsettled)
      · have hleft := ih.resolve_left hsettled
        have hnext := hless hsettled
        exact .inr (by omega)
  have hall : Settled (w'.store.stored id).outbox := by
    obtain hall | hleft := hsettled
    · exact hall id
    · have hnone : storeOwed input.maxAttempts w'.store = 0 := by omega
      exact settled_of_owed_zero hnone id
  constructor
  · intro k d hd hbefore
    refine (hall k d hd hbefore).imp_right fun hq => ⟨hq, ?_⟩
    obtain ⟨e, he, hage⟩ := forall₂_getElem (haged.queues id) hd
    refine (hage.aside hq).imp (fun hold => ⟨e, he, hold⟩) fun hspent => ?_
    rwa [hage.message]
  · intro k hwelcome d hd
    refine delivered_of_settled hall (fun j hj f hf => ?_) hd
    obtain ⟨e, he, hage⟩ := forall₂_getElem (haged.queues id) hf
    refine (hwelcome j hj e he).imp hage.stays fun hopen => ?_
    rw [(hage.calmly hopen).2]
    exact (hopen.unspent id e (List.mem_of_getElem? he) rfl).1

section Waiting

def otherId : CeremonyId := ⟨"o2", by decide⟩

def complaint : OutboxMessage where
  eventId := ⟨"o2:complained", by decide⟩
  subject := ⟨"ceremony.complained", by decide⟩
  payload := .string "nobody came"
  enqueuedAt := ⟨0, 0⟩
  notNull := rfl

def waiting : World where
  store := (OrdMap.empty.insert sessionId { StoredCeremony.default with
      outbox := [.enqueued notice, .enqueued invitation] }).insert otherId
    { StoredCeremony.default with outbox := [.enqueued complaint] }
  clock := ⟨0, 0⟩
  log := []

/-- A transport that takes anything but complaints. -/
def cheerful (m : OutboxMessage) (a : Except DomainError Unit) : Prop :=
  a = if m.eventId = complaint.eventId then lost else .ok ()

theorem waiting_outbox (id : CeremonyId) : (waiting.store.stored id).outbox =
    if id = otherId then [StoredOutboxMessage.enqueued complaint]
    else if id = sessionId then
      [StoredOutboxMessage.enqueued notice, StoredOutboxMessage.enqueued invitation]
    else [] := by
  unfold InMemoryCeremonyStore.stored waiting
  rw [OrdMap.get?_insert]
  split_ifs with hother hid
  · rfl
  · rw [OrdMap.get?_insert, if_pos hid]
    rfl
  · rw [OrdMap.get?_insert, if_neg hid]
    rfl

theorem waiting_untried {id : CeremonyId} {e : StoredOutboxMessage}
    (h : e ∈ (waiting.store.stored id).outbox) : e.quarantine = none ∧ e.attempt = ⟨0⟩ := by
  rw [waiting_outbox] at h
  split_ifs at h
  · obtain rfl := List.mem_singleton.mp h
    exact ⟨rfl, rfl⟩
  · obtain rfl | h := List.mem_cons.mp h
    · exact ⟨rfl, rfl⟩
    · obtain rfl := List.mem_singleton.mp h
      exact ⟨rfl, rfl⟩
  · exact absurd h List.not_mem_nil

theorem waiting_welcome {x : EventId} (hx : x ≠ complaint.eventId) :
    Welcome cheerful patient.maxAttempts waiting.store x := by
  refine ⟨fun m a hm ha => ?_, fun id e he _ => ?_⟩
  · rwa [cheerful, if_neg (hm ▸ hx)] at ha
  · obtain ⟨hq, hattempt⟩ := waiting_untried he
    rw [hattempt]
    exact ⟨hq, rfl⟩

/-- The session the transport likes is published whole, though the other is not. -/
theorem outbox_drains_waiting : storeOwed patient.maxAttempts waiting.store ≤ 12 ∧
    ∃ w', Passes cheerful patient 12 waiting w' ∧
      (w'.store.stored sessionId).outbox.map StoredOutboxMessage.message = [notice, invitation] ∧
      (∀ e ∈ (w'.store.stored sessionId).outbox, e.delivered = true) ∧
      ∀ e, (w'.store.stored otherId).outbox[0]? = some e → e.delivered = true ∨
        e.quarantine.isSome = true ∧
          GivenUp patient.maxAttempts w'.store e.message.eventId := by
  have howed : storeOwed patient.maxAttempts waiting.store ≤ 12 := by decide
  obtain ⟨hexists, hdrains⟩ := outbox_drains cheerful patient 12 waiting
  obtain ⟨w', hpasses⟩ := hexists fun _ => ⟨_, rfl⟩
  obtain ⟨hmessages, hsettles⟩ := hdrains w' hpasses
  have hown : (waiting.store.stored sessionId).outbox =
      [StoredOutboxMessage.enqueued notice, StoredOutboxMessage.enqueued invitation] := by
    rw [waiting_outbox, if_neg (by decide), if_pos rfl]
  refine ⟨howed, w', hpasses, ?_, ?_, ?_⟩
  · rw [hmessages, hown]
    rfl
  · intro e he
    obtain ⟨k, hk⟩ := List.getElem?_of_mem he
    refine (hsettles howed sessionId).2 k (fun j _ d hd => .inr (waiting_welcome ?_)) e hk
    have hmem := List.mem_of_getElem? hd
    rw [hown] at hmem
    obtain rfl | hmem := List.mem_cons.mp hmem
    · decide
    · obtain rfl := List.mem_singleton.mp hmem
      decide
  · intro e he
    refine ((hsettles howed otherId).1 0 e he (by simp)).imp_right fun h => ⟨h.1, ?_⟩
    obtain ⟨d, hd, hq⟩ | hgiven := h.2
    · rw [(waiting_untried (List.mem_of_getElem? hd)).1] at hq
      cases hq
    · exact hgiven

end Waiting

end Choreographer.OutboxDrains
