import Choreographer.WinnerSelection

namespace Choreographer.CouncilRuns

open Choreographer.Lib.SortedMaps Choreographer.Lib.Updates Choreographer.Lib.Programs
open Choreographer.Texts Choreographer.Values Choreographer.Contracts Choreographer.Deliberations
open Choreographer.Deliberate Choreographer.WinnerSelection

/-- Nothing is stored and nothing is announced. -/
def Kept (w w' : World) : Prop := w'.repository = w.repository ∧ w'.published = w.published

instance : IsPreorder World Kept where
  refl _ := ⟨rfl, rfl⟩
  trans _ _ _ h h' := ⟨h'.1.trans h.1, h'.2.trans h.2⟩

section Quiet

/-- A part of a run that leaves the world as it is and never says that there is no
valid proposal. -/
abbrev Quiet {α : Type} (p : Council.Run α) (Q : α → Prop) : Prop := Meets exec Kept p Q IsPortError

theorem quiet_ask (c : Call) (h : ∀ w a w', exec c w a w' → Kept w w') :
    Quiet (ask c) fun _ => True :=
  Meets.lift fun w a w' hr => h w a w' (returns_call.mp hr)

theorem quiet_answer {α : Type} {p : Prog calls (Except DomainError α)}
    (h : ∀ w a w', Returns exec p w a w' → Answers w a w' w) :
    Quiet (ExceptT.mk p) fun _ => True := by
  intro w r w' hr
  rcases h w r w' hr with ⟨⟨v, rfl⟩, rfl⟩ | ⟨e, rfl, he, rfl⟩
  · exact ⟨⟨rfl, rfl⟩, trivial⟩
  · exact ⟨⟨rfl, rfl⟩, he⟩

end Quiet

section Checks

variable (d : Deliberation)

/-- What is done to a deliberation never moves it to another task. -/
abbrev Plain (x : Except DomainError Deliberation) : Prop :=
  Outcome (fun d' => d'.taskId = d.taskId) IsPortError x

theorem outcome_text {rule : TextRule} (raw : String) :
    Outcome (fun _ => True) IsPortError (Text.new raw : Except DomainError (Text rule)) := by
  unfold Text.new
  split
  · trivial
  · next e h =>
    simp only [TextRule.check] at h
    split at h
    · obtain rfl := Except.error.inj h
      simp [Outcome, IsPortError]
    · split at h
      · obtain rfl := Except.error.inj h
        simp [Outcome, IsPortError]
      · split at h
        · obtain rfl := Except.error.inj h
          simp [Outcome, IsPortError]
        · simp at h

theorem outcome_okOr {α : Type} {o : Option α} {e : DomainError} (he : IsPortError e) :
    Outcome (fun _ => True) IsPortError (okOr o e) := by
  cases o with
  | none => exact he
  | some a => trivial

theorem outcome_requirePhase (expected : DeliberationPhase) :
    Outcome (fun _ => True) IsPortError (d.requirePhase expected) := by
  unfold Deliberation.requirePhase
  split
  · trivial
  · simp [Outcome, IsPortError]

theorem outcome_proposal (id : ProposalId) (author : AgentId) (specialty : Specialty)
    (content : String) (attributes : Attributes) (now : OffsetDateTime) :
    Outcome (fun _ => True) IsPortError
      (Proposal.new id author specialty content attributes now) := by
  unfold Proposal.new
  split
  · simp [Outcome, IsPortError]
  · trivial

theorem outcome_revise (p : Proposal) (content : String) (now : OffsetDateTime) :
    Outcome (fun _ => True) IsPortError (p.revise content now) := by
  unfold Proposal.revise
  split
  · simp [Outcome, IsPortError]
  · trivial

theorem plain_addProposal (p : Proposal) : Plain d (d.addProposal p) := by
  refine (outcome_requirePhase d .proposing).bind fun _ _ => ?_
  split
  · simp [Outcome, IsPortError]
  · rfl

theorem plain_reviseProposal (id : ProposalId) (content : String) (now : OffsetDateTime) :
    Plain d (d.reviseProposal id content now) := by
  refine (outcome_requirePhase d .revising).bind fun _ _ => ?_
  refine (outcome_okOr (by simp [IsPortError])).bind fun p _ => ?_
  exact (outcome_revise p content now).bind fun _ _ => rfl

theorem plain_attachOutcome (id : ProposalId) (outcome : ValidationOutcome) :
    Plain d (d.attachOutcome id outcome) := by
  refine (outcome_requirePhase d .validating).bind fun _ _ => ?_
  split
  · simp [Outcome, IsPortError]
  · split
    · simp [Outcome, IsPortError]
    · rfl

theorem plain_advance : Plain d d.advance := by
  unfold Deliberation.advance
  split
  · simp [Outcome, IsPortError]
  · split
    · simp [Outcome, IsPortError]
    · split
      · simp [Outcome, IsPortError]
      · rfl

theorem outcome_materializeRankedTuples (ids : List ProposalId) :
    Outcome (fun _ => True) IsPortError (d.materializeRankedTuples ids) := by
  induction ids with
  | nil => trivial
  | cons id ids ih =>
    unfold Deliberation.materializeRankedTuples at ih ⊢
    rw [List.mapM_cons]
    refine Outcome.bind (P := fun _ => True) ?_ fun t _ => ih.bind fun _ _ => trivial
    refine (outcome_okOr (by simp [IsPortError])).bind fun p _ => ?_
    exact (outcome_okOr (by simp [IsPortError])).bind fun _ _ => trivial

theorem outcome_complete (now : OffsetDateTime) :
    Outcome (fun _ => True) IsPortError (d.complete now) := by
  refine (outcome_requirePhase d .scoring).bind fun _ _ => ?_
  exact (outcome_materializeRankedTuples d _).bind fun _ _ => trivial

theorem outcome_prioritizeValidOutputs (ranked : List RankedOutcome) :
    Outcome (fun _ => True) IsPortError (prioritizeValidOutputs d ranked) := by
  refine (outcome_requirePhase d .completed).bind fun _ _ => ?_
  split
  · simp [Outcome, IsPortError]
  · exact (outcome_materializeRankedTuples d _).bind fun _ _ => trivial

end Checks

section Stages

theorem quiet_uuid : Quiet (ask .uuid) fun _ => True :=
  quiet_ask .uuid fun _ _ _ h => h ▸ ⟨rfl, rfl⟩

theorem quiet_now : Quiet (ask .now) fun _ => True :=
  quiet_ask .now fun _ _ _ h => h ▸ ⟨rfl, rfl⟩

theorem quiet_newProposalId : Quiet newProposalId fun _ => True :=
  quiet_uuid.bind fun raw _ => Meets.ofExcept (outcome_text raw)

theorem quiet_seedProposals (task : Task) (now : OffsetDateTime) (agents : List AgentId)
    (d : Deliberation) :
    Quiet (seedProposals task now agents d) fun x => x.1.taskId = d.taskId := by
  induction agents generalizing d with
  | nil => exact Meets.pure rfl
  | cons agent rest ih =>
    refine (quiet_answer fun _ _ _ h => returns_call.mp h).bind fun content _ => ?_
    refine quiet_newProposalId.bind fun id _ => ?_
    refine (Meets.ofExcept (outcome_proposal id agent _ content _ now)).bind fun p _ => ?_
    refine (Meets.ofExcept (plain_addProposal d p)).bind fun d' hd' => ?_
    refine (ih d').bind fun x hx => ?_
    exact Meets.pure (hx.trans hd')

theorem quiet_reviewPeer (constraints : TaskConstraints) (agent : AgentId) (peer : ProposalId)
    (d : Deliberation) :
    Quiet (reviewPeer constraints agent peer d) fun d' => d'.taskId = d.taskId := by
  refine (Meets.ofExcept (outcome_okOr (by simp [IsPortError]))).bind fun p _ => ?_
  refine (quiet_answer fun _ _ _ h => returns_call.mp h).bind fun feedback _ => ?_
  refine (quiet_answer fun _ _ _ h => returns_call.mp h).bind fun revision _ => ?_
  refine quiet_now.bind fun now _ => ?_
  exact Meets.ofExcept (plain_reviseProposal d peer revision now)

theorem quiet_reviewRound (constraints : TaskConstraints) (pairs : List (AgentId × ProposalId))
    (d : Deliberation) :
    Quiet (reviewRound constraints pairs d) fun d' => d'.taskId = d.taskId := by
  induction pairs generalizing d with
  | nil => exact Meets.pure rfl
  | cons pair rest ih =>
    refine (quiet_reviewPeer constraints pair.1 pair.2 d).bind fun d₁ h₁ => ?_
    have h := ih d₁
    rw [h₁] at h
    exact h

theorem quiet_reviewRounds (constraints : TaskConstraints) (pairs : List (AgentId × ProposalId))
    (rounds : Nat) (d : Deliberation) :
    Quiet (reviewRounds constraints pairs rounds d) fun d' => d'.taskId = d.taskId := by
  induction rounds generalizing d with
  | zero => exact Meets.pure rfl
  | succ rounds ih =>
    refine (quiet_reviewRound constraints pairs d).bind fun d₁ h₁ => ?_
    have h := ih d₁
    rw [h₁] at h
    exact h

theorem quiet_runPeerReviewRounds (agents : List AgentId) (ids : List ProposalId)
    (constraints : TaskConstraints) (d : Deliberation) :
    Quiet (runPeerReviewRounds agents ids constraints d) fun d' => d'.taskId = d.taskId := by
  simp only [runPeerReviewRounds]
  split
  · exact Meets.pure rfl
  · split
    · exact Meets.throw (by simp [IsPortError])
    · exact quiet_reviewRounds constraints _ _ d

theorem quiet_runValidators (content : String) (constraints : TaskConstraints)
    (validators : List Nat) : Quiet (runValidators content constraints validators) fun _ => True := by
  induction validators with
  | nil => exact Meets.pure trivial
  | cons v rest ih =>
    refine (quiet_answer fun _ _ _ h => returns_call.mp h).bind fun report _ => ?_
    exact ih.bind fun _ _ => Meets.pure trivial

theorem quiet_attachValidations (self : DeliberateUseCase) (constraints : TaskConstraints)
    (ids : List ProposalId) (d : Deliberation) :
    Quiet (attachValidations self constraints ids d) fun d' => d'.taskId = d.taskId := by
  induction ids generalizing d with
  | nil => exact Meets.pure rfl
  | cons id rest ih =>
    refine (Meets.ofExcept (outcome_okOr (by simp [IsPortError]))).bind fun p _ => ?_
    refine (quiet_runValidators p.content constraints _).bind fun reports _ => ?_
    refine (quiet_answer fun _ _ _ h => returns_call.mp h).bind fun score _ => ?_
    refine (Meets.ofExcept (plain_attachOutcome d id ⟨score, reports⟩)).bind fun d₁ h₁ => ?_
    have h := ih d₁
    rw [h₁] at h
    exact h

/-- What is known when the ranking is closed. The tuples are in the order of their
scores, and a contract puts the valid ones first. -/
def Closed (task : Task) (d : Deliberation) (ranked : List RankedOutcome) : Prop :=
  d.taskId = task.id ∧ ∃ sorted ts, Sealed d ts ∧ ranked = numbered ts ∧
    (sorted.Pairwise fun a b => ranksBefore a b = true) ∧
    ts = if task.constraints.outputContract.isSome then passing sorted ++ failing sorted else sorted

theorem outcome_and_eq {ε α : Type} {x : Except ε α} {Q : α → Prop} {E : ε → Prop}
    (h : Outcome Q E x) : Outcome (fun a => Q a ∧ x = .ok a) E x := by
  cases x with
  | ok a => exact ⟨h, rfl⟩
  | error e => exact h

theorem quiet_deliberated (self : DeliberateUseCase) (task : Task) :
    Quiet (deliberated self task) fun x => Closed task x.1 x.2.1 := by
  refine quiet_now.bind fun startedAt _ => ?_
  refine (quiet_answer fun _ _ _ h => returns_call.mp h).bind fun council _ => ?_
  refine (quiet_answer fun _ _ _ h => returns_call.mp h).bind fun agents _ => ?_
  dsimp only
  split
  · exact (Meets.throw (Q := fun _ => False) (by simp [IsPortError])).bind fun _ h => h.elim
  refine quiet_now.bind fun now _ => ?_
  refine (quiet_seedProposals task now agents _).bind fun ⟨d₀, ids⟩ h₀ => ?_
  refine (Meets.ofExcept (plain_advance d₀)).bind fun d₁ h₁ => ?_
  refine (quiet_runPeerReviewRounds agents ids task.constraints d₁).bind fun d₂ h₂ => ?_
  refine (Meets.ofExcept (plain_advance d₂)).bind fun d₃ h₃ => ?_
  refine (quiet_attachValidations self task.constraints _ d₃).bind fun d₄ h₄ => ?_
  refine (Meets.ofExcept (plain_advance d₄)).bind fun d₅ h₅ => ?_
  refine quiet_now.bind fun completedAt _ => ?_
  refine (Meets.ofExcept (outcome_and_eq (outcome_complete d₅ completedAt))).bind
    fun ⟨d₆, ranked⟩ h₆ => ?_
  obtain ⟨sorted, hsealed, rfl, h₆, hsorted⟩ := complete_ok h₆.2
  have hid : d₆.taskId = task.id := by rw [h₆, h₅, h₄, h₃, h₂, h₁, h₀]; rfl
  dsimp only
  split
  · next hc =>
    refine (Meets.ofExcept (outcome_and_eq (outcome_prioritizeValidOutputs d₆ _))).bind
      fun ⟨d₇, ranked⟩ h₇ => Meets.pure ?_
    obtain ⟨hsealed', rfl, hsame⟩ := prioritizeValidOutputs_ok hsealed h₇.2
    exact ⟨hsame.trans hid, sorted, _, hsealed', rfl, hsorted, by rw [if_pos hc]⟩
  · next hc =>
    refine Meets.pure ?_
    exact ⟨hid, sorted, _, hsealed, rfl, hsorted, by rw [if_neg hc]⟩

theorem outcome_newWithCausation (id : EventId) (emittedAt : OffsetDateTime) (source : String)
    (correlation causation : Option EventId) : Outcome (fun _ => True) IsPortError
      (EventEnvelope.newWithCausation id emittedAt source correlation causation) := by
  simp only [EventEnvelope.newWithCausation]
  split
  · simp [Outcome, IsPortError]
  · split
    · simp [Outcome, IsPortError]
    · trivial

theorem quiet_envelope (self : DeliberateUseCase) (emittedAt : OffsetDateTime)
    (metadata : TaskMetadata) : Quiet (envelope self emittedAt metadata) fun _ => True := by
  refine (quiet_uuid.bind fun raw _ => Meets.ofExcept (outcome_text raw)).bind fun id _ => ?_
  exact Meets.ofExcept (outcome_newWithCausation id emittedAt self.source _ _)

theorem Answers.refusal {α : Type} {w w' done : World} {e : DomainError}
    (h : Answers w (.error e : Except DomainError α) w' done) :
    IsPortError e ∧ w' = { w with refused := w.refused ++ [e] } := by
  rcases h with ⟨⟨_, he⟩, _⟩ | ⟨e, he, hp, rfl⟩
  · simp at he
  · obtain rfl := Except.error.inj he
    exact ⟨hp, rfl⟩

theorem Answers.success {α : Type} {w w' done : World} {a : α}
    (h : Answers w (.ok a : Except DomainError α) w' done) : w' = done := by
  rcases h with ⟨_, rfl⟩ | ⟨e, he, _⟩
  · rfl
  · simp at he

/-- What the last stage comes to. Either keeping the books was refused, or the
deliberation is stored and everything hangs on the choice of the winner. -/
theorem finalize_cases {self : DeliberateUseCase} {d : Deliberation} {ranked : List RankedOutcome}
    {task : Task} {t : OffsetDateTime} {v w' : World} {r : Except DomainError DeliberateOutput}
    (h : Returns exec (finalize self d ranked task t).run v r w') :
    (∃ e, r = .error e ∧ IsPortError e ∧ w'.published = v.published ∧
      w'.refused = v.refused ++ [e]) ∨
    w'.repository = v.repository.insert d.taskId d ∧
      ((∃ e, pickWinner ranked task.constraints = .error e ∧ r = .error e ∧
        w'.published = v.published) ∨
      ∃ c, pickWinner ranked task.constraints = .ok c ∧
        (r = .ok ⟨d, c.proposal.id⟩ ∨ ∃ e, r = .error e ∧ IsPortError e)) := by
  obtain ⟨e, hsave, rfl⟩ | ⟨_, v₁, hsave, h⟩ := returns_bindE.mp h
  · obtain ⟨hp, rfl⟩ := Answers.refusal (returns_call.mp hsave)
    exact .inl ⟨e, rfl, hp, rfl, rfl⟩
  obtain rfl := Answers.success (returns_call.mp hsave)
  obtain ⟨e, hrecord, rfl⟩ | ⟨_, v₂, hrecord, h⟩ := returns_bindE.mp h
  · obtain ⟨hp, rfl⟩ := Answers.refusal (returns_call.mp hrecord)
    exact .inl ⟨e, rfl, hp, rfl, rfl⟩
  obtain rfl := Answers.success (returns_call.mp hrecord)
  obtain ⟨e, hpick, rfl⟩ | ⟨c, v₃, hpick, h⟩ := returns_bindE.mp h
  · obtain ⟨hchosen, rfl⟩ := returns_ofExcept.mp hpick
    exact .inr ⟨rfl, .inl ⟨e, hchosen.symm, rfl, rfl⟩⟩
  obtain ⟨hchosen, rfl⟩ := returns_ofExcept.mp hpick
  obtain ⟨e, henv, rfl⟩ | ⟨env, v₄, henv, h⟩ := returns_bindE.mp h
  · obtain ⟨hk, he⟩ := quiet_envelope self t task.metadata _ _ _ henv
    exact .inr ⟨hk.1, .inr ⟨c, hchosen.symm, .inr ⟨e, rfl, he⟩⟩⟩
  obtain ⟨hk, _⟩ := quiet_envelope self t task.metadata _ _ _ henv
  obtain ⟨e, hpub, rfl⟩ | ⟨_, v₅, hpub, h⟩ := returns_bindE.mp h
  · obtain ⟨hp, rfl⟩ := Answers.refusal (returns_call.mp hpub)
    exact .inr ⟨hk.1, .inr ⟨c, hchosen.symm, .inr ⟨e, rfl, hp⟩⟩⟩
  obtain rfl := Answers.success (returns_call.mp hpub)
  obtain ⟨rfl, rfl⟩ := returns_pure.mp h
  exact .inr ⟨hk.1, .inr ⟨c, hchosen.symm, .inl rfl⟩⟩

end Stages

section Runs

variable {self : DeliberateUseCase} {task : Task} {w w' : World}

theorem deliberate_cases {r : Except DomainError DeliberateOutput}
    (h : Returns exec (deliberate self task).run w r w') :
    (∃ e, Returns exec (deliberated self task).run w (.error e) w' ∧ r = .error e ∧
      IsPortError e ∧ Kept w w') ∨
    ∃ d ranked t v, Returns exec (deliberated self task).run w (.ok (d, ranked, t)) v ∧
      Closed task d ranked ∧ Kept w v ∧
      Returns exec (finalize self d ranked task t).run v r w' := by
  obtain ⟨e, he, rfl⟩ | ⟨⟨d, ranked, t⟩, v, hd, hf⟩ := returns_bindE.mp h
  · obtain ⟨hk, hp⟩ := quiet_deliberated self task _ _ _ he
    exact .inl ⟨e, he, rfl, hp, hk⟩
  · obtain ⟨hk, hc⟩ := quiet_deliberated self task _ _ _ hd
    exact .inr ⟨d, ranked, t, v, hd, hc, hk, hf⟩

theorem deliberate_ok {out : DeliberateOutput}
    (h : Returns exec (deliberate self task).run w (.ok out) w') :
    ∃ ranked c, Closed task out.deliberation ranked ∧
      w'.repository.get? task.id = some out.deliberation ∧
      pickWinner ranked task.constraints = .ok c ∧ out.winnerProposalId = c.proposal.id := by
  obtain ⟨e, _, he, _⟩ | ⟨d, ranked, t, v, _, hc, _, hf⟩ := deliberate_cases h
  · simp at he
  · obtain ⟨e, he, _⟩ | ⟨hrepo, ⟨e, _, he, _⟩ | ⟨c, hpick, hr | ⟨e, he, _⟩⟩⟩ := finalize_cases hf
    · simp at he
    · simp at he
    · obtain rfl := Except.ok.inj hr
      refine ⟨ranked, c, hc, ?_, hpick, rfl⟩
      rw [hrepo, ← hc.1]
      exact OrdMap.get?_insert_self ..
    · simp at he

theorem Closed.contract {d : Deliberation} {ranked : List RankedOutcome}
    {contract : OutputContract} (h : Closed task d ranked)
    (hc : task.constraints.outputContract = some contract) :
    ∃ sorted, Sealed d (passing sorted ++ failing sorted) ∧
      ranked = numbered (passing sorted ++ failing sorted) ∧
      sorted.Pairwise fun a b => ranksBefore a b = true := by
  obtain ⟨_, sorted, ts, hsealed, rfl, hsorted, hts⟩ := h
  rw [hc, Option.isSome_some, if_pos rfl] at hts
  exact ⟨sorted, hts ▸ hsealed, by rw [hts], hsorted⟩

theorem head_ranking {d : Deliberation} {ts : List Tuple} {c : RankedOutcome} (h : Sealed d ts)
    (hc : (numbered ts).head? = some c) : d.ranking.head? = some c.proposal.id := by
  cases ts with
  | nil => simp [numbered] at hc
  | cons t rest =>
    have hp : t.2.1 = c.proposal := by
      simp only [numbered, List.head?_mapIdx, List.head?_cons, Option.map_some,
        Option.some.injEq] at hc
      rw [← hc]
    rw [h.ranking, ← hp, h.id_eq (List.mem_cons_self ..)]
    rfl

end Runs

section Gated

theorem mergeSort_pair {α : Type} (le : α → α → Bool) (a b : α) :
    [a, b].mergeSort le = if le a b then [a, b] else [b, a] := by
  simp [List.mergeSort, List.MergeSort.Internal.splitInTwo, List.merge]

def triage : Specialty := ⟨"triage", by decide⟩

/-- A task that asks for an output of some form and for no review. -/
def posed (id : TaskId) (description : String) (contract : OutputContract) (attributes : Attributes)
    (metadata : TaskMetadata) : Task where
  id := id
  specialty := triage
  description := description
  constraints := ⟨0, none, some contract⟩
  attributes := attributes
  externalContext := none
  metadata := metadata

def gated : Task :=
  posed ⟨"task", by decide⟩ "choose" ⟨"decision", .jsonObject, OrdMap.empty, "", none⟩
    Attributes.empty ⟨none, none, none, Attributes.empty⟩

def first : AgentId := ⟨"a", by decide⟩
def second : AgentId := ⟨"b", by decide⟩

def triageCouncil : Council := ⟨⟨"c", by decide⟩, triage, OrdSet.ofList [first, second]⟩

def useCase : DeliberateUseCase := ⟨1, "choreographer"⟩

def hasty : ProposalId := ⟨"p1", by decide⟩
def careful : ProposalId := ⟨"p2", by decide⟩
def epoch : OffsetDateTime := ⟨0, 0⟩

def high : Score := ⟨⟨oneBits, by decide⟩, by decide⟩
def low : Score := ⟨⟨0, by decide⟩, by decide⟩

def schemaReport (passed : Bool) : ValidatorReport :=
  ⟨"schema", passed, "checked", Attributes.empty, by decide⟩

def draftOn (attributes : Attributes) (id : ProposalId) (agent : AgentId) (content : String) :
    Proposal :=
  ⟨id, agent, triage, content, attributes, epoch, epoch, 0⟩

def draftOf (id : ProposalId) (agent : AgentId) (content : String) : Proposal :=
  draftOn Attributes.empty id agent content

def emptyWorld : World := ⟨OrdMap.empty, [], []⟩

variable (id : TaskId) (attributes : Attributes)

/-- The proposal with the better score is the one that fails. -/
def tuples : List Tuple :=
  [(hasty, draftOn attributes hasty first "one", ⟨high, [schemaReport false]⟩),
    (careful, draftOn attributes careful second "two", ⟨low, [schemaReport true]⟩)]

def judged : Deliberation where
  taskId := id
  specialty := triage
  roundsBudget := 0
  phase := .scoring
  proposals := OrdMap.ofList ((tuples attributes).map fun t => (t.1, t.2.1))
  outcomes := OrdMap.ofList ((tuples attributes).map fun t => (t.1, t.2.2))
  ranking := []
  startedAt := epoch
  completedAt := none
  filed id p h := by
    have hmem := OrdMap.mem_entries.mpr h
    have hentries : (OrdMap.ofList ((tuples attributes).map fun t => (t.1, t.2.1))).entries =
      [(hasty, draftOn attributes hasty first "one"),
        (careful, draftOn attributes careful second "two")] := rfl
    rw [hentries] at hmem
    simp only [List.mem_cons, Prod.mk.injEq, List.not_mem_nil, or_false] at hmem
    rcases hmem with ⟨rfl, rfl⟩ | ⟨rfl, rfl⟩ <;> rfl

def rankedOn (ids : List ProposalId) : Deliberation :=
  { judged id attributes with ranking := ids, phase := .completed, completedAt := some epoch }

def ranked (ids : List ProposalId) : Deliberation := rankedOn gated.id Attributes.empty ids

theorem judged_complete : (judged id attributes).complete epoch =
    .ok (rankedOn id attributes [hasty, careful], numbered (tuples attributes)) := by
  have hm : (judged id attributes).materializeRankedTuples (judged id attributes).proposals.keys =
      .ok (tuples attributes) := rfl
  have hs : (tuples attributes).mergeSort ranksBefore = tuples attributes := by
    rw [tuples, mergeSort_pair]
    rfl
  unfold Deliberation.complete
  rw [hm, show (judged id attributes).requirePhase .scoring = .ok () from rfl]
  change Except.ok ({ judged id attributes with
    ranking := ((tuples attributes).mergeSort ranksBefore).map Prod.fst
    phase := .completed
    completedAt := some epoch }, numbered ((tuples attributes).mergeSort ranksBefore)) = _
  rw [hs]
  rfl

def stage (phase : DeliberationPhase) : Deliberation :=
  { judged id attributes with phase, outcomes := OrdMap.empty }

variable (description : String) (contract : OutputContract) (metadata : TaskMetadata)

theorem posed_deliberated :
    Returns exec (deliberated useCase (posed id description contract attributes metadata)).run
      emptyWorld (.ok (rankedOn id attributes [careful, hasty],
        numbered (tuples attributes).reverse, epoch)) emptyWorld := by
  refine returns_bind_ok.mpr ⟨epoch, emptyWorld, .ask (a := epoch) rfl (.done _ _), ?_⟩
  refine returns_bind_ok.mpr ⟨triageCouncil, emptyWorld,
    .ask (a := Except.ok triageCouncil) (.inl ⟨⟨_, rfl⟩, rfl⟩) (.done _ _), ?_⟩
  refine returns_bind_ok.mpr ⟨[first, second], emptyWorld,
    .ask (a := Except.ok [first, second]) (.inl ⟨⟨_, rfl⟩, rfl⟩) (.done _ _), ?_⟩
  refine returns_bind_ok.mpr ⟨epoch, emptyWorld, .ask (a := epoch) rfl (.done _ _), ?_⟩
  refine returns_bind_ok.mpr ⟨(stage id attributes .proposing, [hasty, careful]), emptyWorld, ?_, ?_⟩
  · refine .ask (a := Except.ok "one") (.inl ⟨⟨_, rfl⟩, rfl⟩) ?_
    refine .ask (a := "p1") rfl ?_
    refine .ask (a := Except.ok "two") (.inl ⟨⟨_, rfl⟩, rfl⟩) ?_
    refine .ask (a := "p2") rfl ?_
    exact .done _ _
  refine returns_bind_ok.mpr ⟨stage id attributes .revising, emptyWorld, .done _ _, ?_⟩
  refine returns_bind_ok.mpr ⟨stage id attributes .revising, emptyWorld, .done _ _, ?_⟩
  refine returns_bind_ok.mpr ⟨stage id attributes .validating, emptyWorld, .done _ _, ?_⟩
  refine returns_bind_ok.mpr ⟨{ judged id attributes with phase := .validating }, emptyWorld, ?_, ?_⟩
  · refine .ask (a := Except.ok (schemaReport false)) (.inl ⟨⟨_, rfl⟩, rfl⟩) ?_
    refine .ask (a := Except.ok high) (.inl ⟨⟨_, rfl⟩, rfl⟩) ?_
    refine .ask (a := Except.ok (schemaReport true)) (.inl ⟨⟨_, rfl⟩, rfl⟩) ?_
    refine .ask (a := Except.ok low) (.inl ⟨⟨_, rfl⟩, rfl⟩) ?_
    exact .done _ _
  refine returns_bind_ok.mpr ⟨judged id attributes, emptyWorld, .done _ _, ?_⟩
  refine returns_bind_ok.mpr ⟨epoch, emptyWorld, .ask (a := epoch) rfl (.done _ _), ?_⟩
  refine returns_bind_ok.mpr ⟨(rankedOn id attributes [hasty, careful], numbered (tuples attributes)),
    emptyWorld, returns_ofExcept.mpr ⟨(judged_complete id attributes).symm, rfl⟩, ?_⟩
  exact .done _ _

def announcedOn : World where
  repository := OrdMap.empty.insert id (rankedOn id attributes [careful, hasty])
  published := [⟨⟨⟨"e", by decide⟩, epoch, "choreographer", metadata.correlationId,
    metadata.causationId⟩, id, triage, careful, low, 2, DurationMs.zero, none⟩]
  refused := []

theorem posed_runs :
    Returns exec (deliberate useCase (posed id description contract attributes metadata)).run
      emptyWorld (.ok ⟨rankedOn id attributes [careful, hasty], careful⟩)
      (announcedOn id attributes metadata) := by
  refine returns_bind_ok.mpr ⟨_, emptyWorld, posed_deliberated .., ?_⟩
  refine .ask (a := Except.ok ()) (.inl ⟨⟨_, rfl⟩, rfl⟩) ?_
  refine .ask (a := Except.ok ()) (.inl ⟨⟨_, rfl⟩, rfl⟩) ?_
  refine .ask (a := "e") rfl ?_
  refine .ask (a := Except.ok ()) (.inl ⟨⟨_, rfl⟩, rfl⟩) ?_
  exact .done _ _

end Gated

end Choreographer.CouncilRuns
