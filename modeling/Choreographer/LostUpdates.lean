import Choreographer.HumanGuards
import Choreographer.SessionLog
import Choreographer.TamperEvidence

namespace Choreographer.LostUpdates

open Choreographer.Lib.SortedMaps Choreographer.Lib.Updates Choreographer.Lib.Programs
open Choreographer.Texts Choreographer.Values Choreographer.Definition Choreographer.Instance
open Choreographer.Operations Choreographer.Audit Choreographer.InMemory
open Choreographer.SessionJournal Choreographer.SessionLog

abbrev Work := List (CeremonyDefinition × Operation)

def perform : Work → CeremonyInstance → Except DomainError CeremonyInstance
  | [], i => .ok i
  | (d, op) :: rest, i =>
    match (op.run d).on i with
    | (.ok _, i') => perform rest i'
    | (.error e, _) => .error e

structure Round where
  work : Work
  facts : CeremonyInstance → List AuditFact

/-- Change the session and commit it, again and again from what the last commit
handed back. -/
def edit (loaded : LoadedSession) : List Round → Session Work Unit
  | [] => pure ()
  | round :: rest => do
    let session ← ExceptT.mk (pure (perform round.work loaded.session))
    let loaded ← commit ⟨session, loaded.expected⟩ (round.facts session) loaded.session round.work
    edit loaded rest

def editor (id : CeremonyId) (rounds : List Round) : Session Work Unit := do
  let loaded ← load id
  edit loaded rounds

def opener (session : CeremonyInstance) (facts : List AuditFact) : Session Work LoadedSession :=
  openSession session facts []

inductive Spawn : Prog (calls Work) Unit → Prop
  | editor (id : CeremonyId) (rounds : List Round) : Spawn (client (editor id rounds))
  | opener (session : CeremonyInstance) (facts : List AuditFact) :
      Spawn (client (opener session facts))

/-- Any number of editors and openers, in any interleaving of their calls. -/
abbrev Runs (env : Rendering) : Config (calls Work) (World Work) → Prop :=
  Reachable (exec env) Spawn Drift World.empty

theorem ident_perform {work : Work} {i i' : CeremonyInstance} (h : perform work i = .ok i') :
    ident i' = ident i := by
  induction work generalizing i with
  | nil =>
    obtain rfl := Except.ok.inj h
    rfl
  | cons step rest ih =>
    obtain ⟨d, op⟩ := step
    unfold perform at h
    rcases hop : (op.run d).on i with ⟨r, j⟩
    rw [hop] at h
    cases r with
    | error e => simp at h
    | ok u => exact (ih h).trans (effect_of_succeeds hop).ident

theorem perform_append (work more : Work) (i : CeremonyInstance) :
    perform (work ++ more) i = (perform work i).bind (perform more) := by
  induction work generalizing i with
  | nil => rfl
  | cons step rest ih =>
    obtain ⟨d, op⟩ := step
    rw [List.cons_append, perform, perform]
    rcases hop : (op.run d).on i with ⟨r, j⟩
    cases r with
    | error e => rfl
    | ok u => exact ih j

def Worked : Law Work := fun _ _ e =>
  ∀ b, e.base = some b → perform e.note b = .ok e.loaded.session

section Safety

variable {env : Rendering}

theorem edit_safe (loaded : LoadedSession) (rounds : List Round) :
    SafeE (exec env) (protocol env Worked) (Knows loaded) (edit loaded rounds)
      (fun _ _ => True) := by
  induction rounds generalizing loaded with
  | nil => exact SafeE.pure fun _ _ _ => trivial
  | cons round rest ih =>
    refine SafeE.ofExcept fun session hp => ?_
    refine SafeE.bind (commit_safe (fun _ _ _ _ _ h => h) loaded rfl (ident_perform hp)
      (fun _ hk => hk) ?_) fun l => ?_
    · rintro w - e ⟨hbase, hnote, hloaded, -⟩ b hb
      rw [hbase] at hb
      obtain rfl := Option.some.inj hb
      rw [hnote, hloaded]
      exact hp
    · exact (ih l).mono (fun w _ hw => hw.2.1) (fun _ _ _ h => h)

theorem spawn_safe {p : Prog (calls Work) Unit} (h : Spawn p) :
    Safe (exec env) (protocol env Worked) (fun _ => True) p (fun _ _ => True) := by
  cases h with
  | editor id rounds =>
    refine client_safe (Q := fun _ _ => True) (SafeE.bind (load_safe id) fun loaded => ?_)
    exact (edit_safe loaded rounds).mono (fun w _ hw => hw.2) (fun _ _ _ h => h)
  | opener session facts =>
    refine client_safe (openSession_safe (fun _ _ _ _ _ h => h) fun w _ e he b hb => ?_)
    rw [he.1] at hb
    simp at hb

theorem inv_of_runs {c : Config (calls Work) (World Work)} (h : Runs env c) :
    (protocol env Worked).inv c.world :=
  inv_of_clients (fun _ _ _ _ _ h => h) (fun _ => spawn_safe) h

end Safety

/-- The error a commit's own facts were refused with: they are another
ceremony's, or one of them cannot be sealed. -/
def FactsRefused (env : Rendering) (e : Entry Work) (err : DomainError) : Prop :=
  ((e.facts.any fun fact => fact.ceremonyId ≠ e.ceremony) = true ∧
      err = .invariantViolated "a commit cannot carry audit facts from another ceremony") ∨
    ∃ sealed, sealFacts env e.before.journal.getLast? e.facts = (sealed, .error err)

/-- No update of a ceremony is lost: its commits, in the order of the log. -/
structure NoLostUpdate (env : Rendering) (w : World Work) (id : CeremonyId) : Prop where
  computed : ∀ e ∈ landings w.log id, e.base = e.before.session ∧
    (∀ b, e.base = some b → perform e.note b = .ok e.loaded.session) ∧
    e.after.session = some e.loaded.session
  others : ∀ e ∈ w.log, e.ceremony = id → e.landed = false → e.after = e.before ∧
    (e.answer = .error e.lost ∨ ∃ err, e.answer = .error err ∧ FactsRefused env e err)
  met : ∀ earlier e later, w.log = earlier ++ e :: later → e.ceremony = id →
    e.before = replay earlier id
  stored : w.store.stored id = replay w.log id
  replayed : (landings w.log id = [] ∧ (w.store.stored id).session = none) ∨
    ∃ first rest, landings w.log id = first :: rest ∧ first.base = none ∧
      (∀ e ∈ rest, e.base ≠ none) ∧
      ∃ i, perform (rest.flatMap Entry.note) first.loaded.session = .ok i ∧
        (w.store.stored id).session = some i

section History

variable {env : Rendering} {log : List (Entry Work)} {id : CeremonyId}

theorem legal_others (h : Legal env log) {e : Entry Work} (he : e ∈ log) (hl : e.landed = false) :
    e.after = e.before ∧
      (e.answer = .error e.lost ∨ ∃ err, e.answer = .error err ∧ FactsRefused env e err) := by
  obtain ⟨earlier, later, rfl⟩ := List.append_of_mem he
  have hentry := h.entry
  refine ⟨hentry.unchanged hl, ?_⟩
  have hc := hentry.concluded
  generalize e.after = s at hc
  generalize ha : e.answer = answer at hc ⊢
  cases hc with
  | foreign theirs => exact .inr ⟨_, rfl, .inl ⟨theirs, rfl⟩⟩
  | conflict stale => exact .inl rfl
  | refused current unsealed => exact .inr ⟨_, rfl, .inr ⟨_, unsealed⟩⟩
  | landed => simp [landed_iff.mpr ⟨_, ha⟩] at hl

/-- The first commit that lands opens the session, every later one works on what
the one before it stored. -/
theorem legal_replayed (h : Legal env log)
    (hworked : ∀ e ∈ log, e.landed = true → ∀ b, e.base = some b →
      perform e.note b = .ok e.loaded.session)
    (hfew : (landings log id).length ≤ lastRevision) :
    (landings log id = [] ∧ (replay log id).session = none) ∨
      ∃ first rest, landings log id = first :: rest ∧ first.base = none ∧
        (∀ e ∈ rest, e.base ≠ none) ∧
        ∃ i, perform (rest.flatMap Entry.note) first.loaded.session = .ok i ∧
          (replay log id).session = some i := by
  induction log using List.reverseRecOn with
  | nil => exact .inl ⟨rfl, rfl⟩
  | append_singleton log e ih =>
    obtain ⟨hlog, he⟩ := legal_concat.mp h
    have hmore : (landings log id).length ≤ lastRevision := by
      rw [landings_append, List.length_append] at hfew
      omega
    specialize ih hlog (fun d hd => hworked d (List.mem_append_left _ hd)) hmore
    by_cases hin : e.landed = true ∧ e.ceremony = id
    · obtain ⟨hl, rfl⟩ := hin
      have hbase : e.base = (replay log e.ceremony).session :=
        (based_of_few [] h hfew rfl hl).trans (by rw [he.met])
      have hsession : (replay (log ++ [e]) e.ceremony).session = some e.loaded.session := by
        obtain ⟨sealed, -, -, hafter⟩ := he.stored hl
        rw [replay_concat, Function.update_self, hafter]
      rw [landings_concat, if_pos ⟨hl, rfl⟩, hsession]
      rcases ih with ⟨hnil, hnone⟩ | ⟨first, rest, hland, hopen, hrest, i, hi, hstored⟩
      · exact .inr ⟨e, [], by rw [hnil]; rfl, hbase.trans hnone, by simp, _, rfl, rfl⟩
      · have hb : e.base = some i := hbase.trans hstored
        refine .inr ⟨first, rest ++ [e], by rw [hland]; rfl, hopen, fun d hd => ?_, _, ?_, rfl⟩
        · rcases List.mem_append.mp hd with hd | hd
          · exact hrest d hd
          · rw [List.mem_singleton.mp hd, hb]
            simp
        · have hwork : perform e.note i = .ok e.loaded.session := hworked e (by simp) hl i hb
          rw [List.flatMap_append, perform_append, hi, List.flatMap_singleton]
          exact hwork
    · rw [landings_concat, if_neg hin, List.append_nil, replay_concat_of_other he hin]
      exact ih

/-- Whatever the interleaving, a commit lands only on the session it was
computed from, so that the stored session is the opened one with the work of the
commits that landed, in their order; all others are told so and leave no trace. -/
theorem no_lost_update (env : Rendering) (c : Config (calls Work) (World Work)) (h : Runs env c)
    (id : CeremonyId) (hfew : (landings c.world.log id).length < 2 ^ 64 - 1) :
    NoLostUpdate env c.world id := by
  obtain ⟨hstored, hlegal, hlawful⟩ := inv_of_runs h
  have hworked : ∀ e ∈ c.world.log, e.landed = true → ∀ b, e.base = some b →
      perform e.note b = .ok e.loaded.session := by
    intro e he hl
    obtain ⟨earlier, later, hlog⟩ := List.append_of_mem he
    exact hlawful earlier e later hlog hl
  have hle : (landings c.world.log id).length ≤ lastRevision := hfew.le
  refine ⟨fun e he => ?_, fun e he _ hl => legal_others hlegal he hl, ?_, hstored id, ?_⟩
  · obtain ⟨hmem, hl, hid⟩ := mem_landings.mp he
    obtain ⟨earlier, later, hlog⟩ := List.append_of_mem hmem
    rw [hlog] at hlegal hle
    obtain ⟨sealed, -, -, hafter⟩ := hlegal.entry.stored hl
    exact ⟨based_of_few _ hlegal hle hid hl, hworked e hmem hl, by rw [hafter]⟩
  · intro earlier e later hlog hid
    rw [hlog] at hlegal
    rw [hlegal.entry.met, hid]
  · rw [hstored id]
    exact legal_replayed hlegal hworked hle

end History

section Example

open HumanGuards (release lead signOff)

def sessionId : CeremonyId := ⟨"r1", by decide⟩

def draft : CeremonyInstance :=
  CeremonyInstance.opened sessionId release CeremonyContext.empty ⟨0, 0⟩ none

def foreignFact : AuditFact where
  eventId := ⟨"r2:human_approval_recorded:guard:sign_off", by decide⟩
  eventType := .humanApprovalRecorded
  ceremonyId := ⟨"r2", by decide⟩
  definitionName := release.name
  definitionVersion := versionOne
  occurredAt := ⟨1, 0⟩
  actor := TamperEvidence.move.actor
  correlationId := none
  causationId := none
  trace := none

def signing (facts : List AuditFact) : Round :=
  ⟨[(release, .approveGuard signOff lead .human ⟨1, 0⟩)], fun _ => facts⟩

def signed (env : Rendering) (facts : List AuditFact) : World Work :=
  let opened := World.empty.concluded env none [] lostOpening ⟨draft, .new⟩ []
  opened.concluded env (some draft) (signing facts).work lostCommit
    ⟨((perform (signing facts).work draft).toOption.get rfl), .exactly CeremonyRevision.initial⟩ facts

theorem signed_runs (env : Rendering) (facts : List AuditFact) :
    ∃ clients, Runs env ⟨signed env facts, clients⟩ := by
  have h₀ : Runs env ⟨World.empty, []⟩ := .refl
  have h₁ := h₀.tail (.arrive (.opener draft []))
  have h₂ := h₁.tail (.advance (i := 0) rfl ⟨rfl, rfl⟩)
  have h₃ := h₂.tail (.arrive (.editor sessionId [signing facts]))
  have h₄ := h₃.tail (.advance (i := 1) rfl ⟨rfl, rfl⟩)
  have h₅ := h₄.tail (.advance (i := 1) rfl ⟨rfl, rfl⟩)
  have h₆ := h₅.tail (.advance (i := 1) rfl ⟨rfl, rfl⟩)
  exact ⟨_, h₆⟩

theorem no_lost_update_signed :
    ∃ clients, Runs TamperEvidence.table ⟨signed TamperEvidence.table [], clients⟩ ∧
      (landings (signed TamperEvidence.table []).log sessionId).length < 2 ^ 64 - 1 ∧
      NoLostUpdate TamperEvidence.table (signed TamperEvidence.table []) sessionId := by
  obtain ⟨clients, hr⟩ := signed_runs TamperEvidence.table []
  have hfew : (landings (signed TamperEvidence.table []).log sessionId).length < 2 ^ 64 - 1 := by
    have htwo : (landings (signed TamperEvidence.table []).log sessionId).length = 2 := rfl
    omega
  exact ⟨clients, hr, hfew, no_lost_update TamperEvidence.table _ hr sessionId hfew⟩

/-- A commit with a fact of another session loses no race and lands nowhere. -/
theorem refused_without_conflict :
    ¬ ∀ (env : Rendering) (c : Config (calls Work) (World Work)), Runs env c →
      ∀ e ∈ c.world.log, e.landed = false → e.answer = .error e.lost := by
  intro h
  obtain ⟨clients, hr⟩ := signed_runs TamperEvidence.table [foreignFact]
  have hlost : (Except.error (.invariantViolated
      "a commit cannot carry audit facts from another ceremony") : Except DomainError LoadedSession) =
        .error lostCommit :=
    h _ _ hr _ (List.mem_of_getElem? (i := 1) rfl) rfl
  simp [lostCommit] at hlost

end Example

end Choreographer.LostUpdates
