import Choreographer.CouncilRuns
import Mathlib.Data.List.Rotate

namespace Choreographer.PeerReview

open Choreographer.Lib.SortedMaps Choreographer.Lib.Updates Choreographer.Lib.Programs
open Choreographer.Texts Choreographer.Values Choreographer.Contracts Choreographer.Deliberations
open Choreographer.Deliberate

/-- Agents whose critiques and revisions are functions of what they are shown. -/
structure Peers where
  critique : AgentId → String → TaskConstraints → String
  revise : AgentId → String → String → String

def Peers.review (peers : Peers) (constraints : TaskConstraints) (agent : AgentId)
    (content : String) : String :=
  peers.revise agent content (peers.critique agent content constraints)

/-- Of the world only this is known: its agents are these. -/
structure Peers.Speak {W : Type} (peers : Peers)
    (answer : (c : calls.Call) → W → calls.Answer c × W) : Prop where
  critique : ∀ agent content constraints w,
    (answer (Call.critique agent content constraints) w).1 =
      .ok (peers.critique agent content constraints)
  revise : ∀ agent content feedback w,
    (answer (Call.revise agent content feedback) w).1 = .ok (peers.revise agent content feedback)

/-- The rounds of a review that visits the agents of each round in an order of its own. -/
def reviewVisits (constraints : TaskConstraints) :
    List (List (AgentId × ProposalId)) → Deliberation → Council.Run Deliberation
  | [], deliberation => pure deliberation
  | visits :: rest, deliberation => do
    let deliberation ← reviewRound constraints visits deliberation
    reviewVisits constraints rest deliberation

/-- A proposal that was rewritten a number of times, the last time at a given moment. -/
def rewritten (f : String → String) (n : Nat) (updatedAt : OffsetDateTime) (draft : Proposal) :
    Proposal :=
  { draft with
    content := f^[n] draft.content
    updatedAt
    revisionCount := toU32 n }

theorem rewritten_zero {f : String → String} {draft : Proposal} (h : draft.revisionCount = 0) :
    rewritten f 0 draft.updatedAt draft = draft := by
  have hzero : toU32 0 = 0 := Fin.ext (Nat.zero_min _)
  rw [rewritten, Function.iterate_zero_apply, hzero, ← h]

theorem saturatingSucc_toU32 (n : Nat) : saturatingSucc (toU32 n) = toU32 (n + 1) := by
  apply Fin.ext
  rw [saturatingSucc_val]
  simp only [toU32]
  omega

theorem toU32_val (n : U32) : toU32 n.val = n := by
  apply Fin.ext
  have h := n.isLt
  simp only [toU32]
  omega

theorem revise_rewritten {f : String → String} {n : Nat} {draft : Proposal}
    (earlier now : OffsetDateTime) (h : trim (f^[n + 1] draft.content) ≠ "") :
    (rewritten f n earlier draft).revise (f (f^[n] draft.content)) now =
      .ok (rewritten f (n + 1) now draft) := by
  rw [Function.iterate_succ_apply'] at h
  simp only [Proposal.revise, if_neg h, rewritten, saturatingSucc_toU32,
    Function.iterate_succ_apply']

section Seeding

variable {W : Type} {exec : Semantics calls W}

theorem addProposal_ok {d d' : Deliberation} {p : Proposal} (h : d.addProposal p = .ok d') :
    d'.phase = d.phase ∧ d.proposals.get? p.id = none ∧
      d'.proposals = d.proposals.insert p.id p := by
  simp only [Deliberation.addProposal, except_bind_eq_ok] at h
  obtain ⟨_, _, h⟩ := h
  split at h
  · simp at h
  · next hnew =>
    obtain rfl := Except.ok.inj h
    refine ⟨rfl, ?_, rfl⟩
    simpa [OrdMap.contains] using hnew

theorem proposal_new_ok {id : ProposalId} {author : AgentId} {specialty : Specialty}
    {content : String} {attributes : Attributes} {now : OffsetDateTime} {p : Proposal}
    (h : Proposal.new id author specialty content attributes now = .ok p) :
    p = ⟨id, author, specialty, content, attributes, now, now, 0⟩ := by
  simp only [Proposal.new] at h
  split at h
  · simp at h
  · exact (Except.ok.inj h).symm

/-- A draft as it was filed for its author. -/
def DraftOf (d : Deliberation) (author : AgentId) (id : ProposalId) : Prop :=
  ∃ draft, d.proposals.get? id = some draft ∧ draft.id = id ∧ draft.author = author ∧
    draft.revisionCount = 0

/-- Seeding files one draft for each agent, in their order and under new ids, and nothing
else. -/
theorem seedProposals_ok {task : Task} {now : OffsetDateTime} {agents : List AgentId}
    {d₀ d : Deliberation} {ids : List ProposalId} {w w' : W}
    (h : Returns exec (seedProposals task now agents d₀).run w (.ok (d, ids)) w') :
    d.phase = d₀.phase ∧ List.Forall₂ (DraftOf d) agents ids ∧ ids.Nodup ∧
      (∀ id ∈ ids, d₀.proposals.get? id = none) ∧
      ∀ id, id ∉ ids → d.proposals.get? id = d₀.proposals.get? id := by
  induction agents generalizing d₀ d ids w w' with
  | nil =>
    obtain ⟨hr, _⟩ := returns_pure.mp h
    obtain ⟨rfl, rfl⟩ := Prod.mk.inj (Except.ok.inj hr)
    exact ⟨rfl, .nil, List.nodup_nil, by simp, fun _ _ => rfl⟩
  | cons agent rest ih =>
    obtain ⟨content, w₁, _, h⟩ := returns_bind_ok.mp h
    obtain ⟨id, w₂, _, h⟩ := returns_bind_ok.mp h
    obtain ⟨p, w₃, hp, h⟩ := returns_bind_ok.mp h
    obtain ⟨d₁, w₄, hd₁, h⟩ := returns_bind_ok.mp h
    obtain ⟨⟨d₂, tail⟩, w₅, hrest, h⟩ := returns_bind_ok.mp h
    obtain ⟨hr, _⟩ := returns_pure.mp h
    obtain ⟨rfl, rfl⟩ := Prod.mk.inj (Except.ok.inj hr)
    obtain rfl := proposal_new_ok (returns_ofExcept.mp hp).1.symm
    obtain ⟨hphase, hnew, hins⟩ := addProposal_ok (returns_ofExcept.mp hd₁).1.symm
    obtain ⟨hphase', hall, hnodup, hfresh, hframe⟩ := ih hrest
    have hid : id ∉ tail := by
      intro hmem
      have hnone := hfresh id hmem
      rw [hins, OrdMap.get?_insert_self] at hnone
      simp at hnone
    refine ⟨hphase'.trans hphase, .cons ?_ hall, List.nodup_cons.mpr ⟨hid, hnodup⟩, ?_, ?_⟩
    · refine ⟨⟨id, agent, task.specialty, content, task.attributes, now, now, 0⟩, ?_, rfl, rfl, rfl⟩
      rw [hframe id hid, hins, OrdMap.get?_insert_self]
    · intro j hj
      rcases List.mem_cons.mp hj with rfl | hj
      · exact hnew
      · have hne : j ≠ id := fun hji => hid (hji ▸ hj)
        have hnone := hfresh j hj
        rwa [hins, OrdMap.get?_insert_ne _ hne] at hnone
    · intro j hj
      have hne : j ≠ id := fun hji => hj (hji ▸ List.mem_cons_self)
      rw [hframe j fun hjt => hj (List.mem_cons_of_mem id hjt), hins, OrdMap.get?_insert_ne _ hne]

end Seeding

section Visits

variable {W : Type} {answer : (c : calls.Call) → W → calls.Answer c × W} {peers : Peers}
  {constraints : TaskConstraints}

/-- Where the reviews stand: each proposal under review has as many revisions as it had
visits, and every other one is as it was. -/
structure Visited (f : AgentId → String → String) (drafts : OrdMap ProposalId Proposal)
    (pairs visits : List (AgentId × ProposalId)) (d : Deliberation) : Prop where
  phase : d.phase = .revising
  visited : ∀ pair ∈ pairs, ∀ draft, drafts.get? pair.2 = some draft → ∃ updatedAt,
    d.proposals.get? pair.2 = some (rewritten (f pair.1) (visits.count pair) updatedAt draft)
  others : ∀ id, id ∉ pairs.map Prod.snd → d.proposals.get? id = drafts.get? id

theorem reviseProposal_ok {d : Deliberation} {id : ProposalId} {p q : Proposal} {content : String}
    {now : OffsetDateTime} (hphase : d.phase = .revising) (hget : d.proposals.get? id = some p)
    (hrevise : p.revise content now = .ok q) (hid : q.id = id) :
    ∃ d', d.reviseProposal id content now = .ok d' ∧ d'.phase = .revising ∧
      d'.proposals = d.proposals.insert id q := by
  subst hid
  refine ⟨{ d with
    proposals := d.proposals.insert q.id q
    filed := d.filed_insert q }, ?_, hphase, rfl⟩
  refine except_bind_eq_ok.mpr ⟨(), ?_, except_bind_eq_ok.mpr ⟨p, okOr_eq_ok.mpr hget, ?_⟩⟩
  · rw [Deliberation.requirePhase, if_pos hphase]
  · exact except_bind_eq_ok.mpr ⟨q, hrevise, rfl⟩

theorem interpret_checked {α : Type} (x : Except DomainError α) (w : W) :
    (checked x).run.interpret answer w = (x, w) := rfl

theorem interpret_critique (hpeers : peers.Speak answer) (agent : AgentId) (content : String)
    (constraints : TaskConstraints) (w : W) :
    ∃ w', (ExceptT.mk (Prog.call (I := calls) (.critique agent content constraints)) :
      Council.Run String).run.interpret answer w =
      (.ok (peers.critique agent content constraints), w') :=
  ⟨_, Prod.ext (hpeers.critique ..) rfl⟩

theorem interpret_revise (hpeers : peers.Speak answer) (agent : AgentId) (content feedback : String)
    (w : W) :
    ∃ w', (ExceptT.mk (Prog.call (I := calls) (.revise agent content feedback)) :
      Council.Run String).run.interpret answer w =
      (.ok (peers.revise agent content feedback), w') :=
  ⟨_, Prod.ext (hpeers.revise ..) rfl⟩

theorem reviewPeer_interpret (hpeers : peers.Speak answer) (constraints : TaskConstraints)
    (agent : AgentId) {peer : ProposalId} {d : Deliberation} {p : Proposal}
    (hget : d.proposals.get? peer = some p) (w : W) :
    ∃ now w', (reviewPeer constraints agent peer d).run.interpret answer w =
      (d.reviseProposal peer (peers.review constraints agent p.content) now, w') := by
  obtain ⟨w₁, h₁⟩ := interpret_critique hpeers agent p.content constraints w
  obtain ⟨w₂, h₂⟩ := interpret_revise hpeers agent p.content
    (peers.critique agent p.content constraints) w₁
  refine ⟨(answer Call.now w₂).1, (answer Call.now w₂).2, ?_⟩
  unfold reviewPeer
  rw [interpret_bindE, interpret_checked, hget, okOr, proceed_ok, interpret_bindE, h₁, proceed_ok,
    interpret_bindE, h₂, proceed_ok]
  rfl

theorem visited_reviewPeer (hpeers : peers.Speak answer) {drafts : OrdMap ProposalId Proposal}
    {pairs visits : List (AgentId × ProposalId)} {pair : AgentId × ProposalId} {d : Deliberation}
    {draft : Proposal} (hpairs : (pairs.map Prod.snd).Nodup)
    (h : Visited (peers.review constraints) drafts pairs visits d) (hmem : pair ∈ pairs)
    (hdraft : drafts.get? pair.2 = some draft) (hid : draft.id = pair.2)
    (haccepted : trim ((peers.review constraints pair.1)^[visits.count pair + 1] draft.content) ≠ "")
    (w : W) :
    ∃ d' w', (reviewPeer constraints pair.1 pair.2 d).run.interpret answer w = (.ok d', w') ∧
      Visited (peers.review constraints) drafts pairs (visits ++ [pair]) d' := by
  obtain ⟨earlier, hget⟩ := h.visited pair hmem draft hdraft
  obtain ⟨now, w', hrun⟩ := reviewPeer_interpret hpeers constraints pair.1 hget w
  obtain ⟨d', hd', hphase, hins⟩ := reviseProposal_ok h.phase hget
    (revise_rewritten earlier now haccepted) hid
  refine ⟨d', w', ?_, hphase, ?_, ?_⟩
  · rw [hrun, ← hd']
    rfl
  · intro other hother draft' hdraft'
    by_cases hsame : other = pair
    · subst hsame
      obtain rfl : draft = draft' := Option.some.inj (hdraft.symm.trans hdraft')
      refine ⟨now, ?_⟩
      rw [hins, OrdMap.get?_insert_self, List.count_append, List.count_singleton_self]
    · have hne : other.2 ≠ pair.2 := fun heq => hsame (List.inj_on_of_nodup_map hpairs hother hmem heq)
      obtain ⟨updatedAt, hkept⟩ := h.visited other hother draft' hdraft'
      refine ⟨updatedAt, ?_⟩
      rw [hins, OrdMap.get?_insert_ne _ hne, hkept, List.count_append,
        List.count_singleton, if_neg (by simpa using Ne.symm hsame), Nat.add_zero]
  · intro id hid'
    have hne : id ≠ pair.2 := fun heq => hid' (heq ▸ List.mem_map_of_mem hmem)
    rw [hins, OrdMap.get?_insert_ne _ hne, h.others id hid']

/-- Drafts that can be reviewed so many times, each by an agent of its own. -/
structure Reviewable (peers : Peers) (constraints : TaskConstraints)
    (drafts : OrdMap ProposalId Proposal) (pairs : List (AgentId × ProposalId)) (rounds : Nat) :
    Prop where
  distinct : (pairs.map Prod.snd).Nodup
  drafted : ∀ pair ∈ pairs, ∃ draft, drafts.get? pair.2 = some draft ∧ draft.id = pair.2 ∧
    ∀ k < rounds, trim ((peers.review constraints pair.1)^[k + 1] draft.content) ≠ ""

variable {drafts : OrdMap ProposalId Proposal} {pairs : List (AgentId × ProposalId)} {rounds : Nat}

theorem visited_reviewRound (hpeers : peers.Speak answer)
    (hdrafts : Reviewable peers constraints drafts pairs rounds)
    (visits : List (AgentId × ProposalId)) {before : List (AgentId × ProposalId)} {d : Deliberation}
    (hvisits : ∀ pair ∈ visits, pair ∈ pairs)
    (hcount : ∀ pair ∈ pairs, (before ++ visits).count pair ≤ rounds)
    (h : Visited (peers.review constraints) drafts pairs before d) (w : W) :
    ∃ d' w', (reviewRound constraints visits d).run.interpret answer w = (.ok d', w') ∧
      Visited (peers.review constraints) drafts pairs (before ++ visits) d' := by
  induction visits generalizing before d w with
  | nil => exact ⟨d, w, rfl, by rwa [List.append_nil]⟩
  | cons pair rest ih =>
    have hmem := hvisits pair List.mem_cons_self
    obtain ⟨draft, hdraft, hid, haccepted⟩ := hdrafts.drafted pair hmem
    have hlt : before.count pair < rounds := by
      have hle := hcount pair hmem
      rw [List.count_append, List.count_cons_self] at hle
      omega
    obtain ⟨d₁, w₁, hrun, h₁⟩ := visited_reviewPeer hpeers hdrafts.distinct h hmem hdraft hid
      (haccepted _ hlt) w
    have hsplit : before ++ pair :: rest = before ++ [pair] ++ rest := by simp
    rw [hsplit] at hcount ⊢
    obtain ⟨d', w', hrest, h'⟩ :=
      ih (fun p hp => hvisits p (List.mem_cons_of_mem pair hp)) hcount h₁ w₁
    refine ⟨d', w', ?_, h'⟩
    rw [reviewRound, interpret_bindE, hrun]
    exact hrest

theorem count_of_perm {visits : List (AgentId × ProposalId)} {pair : AgentId × ProposalId}
    (hpairs : (pairs.map Prod.snd).Nodup) (hperm : visits.Perm pairs) (hmem : pair ∈ pairs) :
    visits.count pair = 1 := by
  rw [hperm.count_eq]
  exact List.count_eq_one_of_mem (List.Nodup.of_map Prod.snd hpairs) hmem

theorem visited_reviewVisits (hpeers : peers.Speak answer)
    (hdrafts : Reviewable peers constraints drafts pairs rounds)
    (orders : List (List (AgentId × ProposalId))) {before : List (AgentId × ProposalId)}
    {d : Deliberation} (horders : ∀ visits ∈ orders, visits.Perm pairs)
    (hcount : ∀ pair ∈ pairs, before.count pair + orders.length = rounds)
    (h : Visited (peers.review constraints) drafts pairs before d) (w : W) :
    ∃ d' w' after, (reviewVisits constraints orders d).run.interpret answer w = (.ok d', w') ∧
      Visited (peers.review constraints) drafts pairs after d' ∧
      ∀ pair ∈ pairs, after.count pair = rounds := by
  induction orders generalizing before d w with
  | nil => exact ⟨d, w, before, rfl, h, hcount⟩
  | cons visits rest ih =>
    have hperm := horders visits List.mem_cons_self
    have hnext : ∀ pair ∈ pairs, (before ++ visits).count pair + rest.length = rounds := by
      intro pair hmem
      have hone := count_of_perm hdrafts.distinct hperm hmem
      have hall := hcount pair hmem
      rw [List.length_cons] at hall
      rw [List.count_append]
      omega
    have hle : ∀ pair ∈ pairs, (before ++ visits).count pair ≤ rounds := by
      intro pair hmem
      have hall := hnext pair hmem
      omega
    obtain ⟨d₁, w₁, hrun, h₁⟩ := visited_reviewRound hpeers hdrafts visits
      (fun _ hp => hperm.mem_iff.mp hp) hle h w
    obtain ⟨d', w', after, hrest, h'⟩ :=
      ih (fun v hv => horders v (List.mem_cons_of_mem visits hv)) hnext h₁ w₁
    refine ⟨d', w', after, ?_, h'⟩
    rw [reviewVisits, interpret_bindE, hrun]
    exact hrest

theorem reviewRounds_eq (constraints : TaskConstraints) (pairs : List (AgentId × ProposalId))
    (rounds : Nat) (d : Deliberation) :
    reviewRounds constraints pairs rounds d =
      reviewVisits constraints (List.replicate rounds pairs) d := by
  induction rounds generalizing d with
  | zero => rfl
  | succ rounds ih =>
    rw [List.replicate_succ, reviewRounds, reviewVisits]
    simp only [ih]

end Visits

/-- How the reviews end: each agent has rewritten the draft of the next one, as often as
there were rounds, and who wrote it under which id is as before. -/
structure Reviewed (peers : Peers) (constraints : TaskConstraints) (agents : List AgentId)
    (ids : List ProposalId) (d e : Deliberation) : Prop where
  rewritten : ∀ (i : Nat) (reviewer author : AgentId) (id : ProposalId),
    agents[i]? = some reviewer → agents[(i + 1) % agents.length]? = some author →
    ids[(i + 1) % agents.length]? = some id →
    ∃ draft updatedAt, d.proposals.get? id = some draft ∧ draft.id = id ∧ draft.author = author ∧
      e.proposals.get? id = some { draft with
        content := (peers.review constraints reviewer)^[constraints.rounds.val] draft.content
        updatedAt
        revisionCount := constraints.rounds }
  others : ∀ id, id ∉ ids → e.proposals.get? id = none

section Rounds

variable {agents : List AgentId} {ids : List ProposalId}

theorem getElem?_pairs (hlen : ids.length = agents.length) {i : Nat} {reviewer : AgentId}
    {id : ProposalId} (hreviewer : agents[i]? = some reviewer)
    (hid : ids[(i + 1) % agents.length]? = some id) :
    (agents.zip (ids.rotate 1))[i]? = some (reviewer, id) := by
  obtain ⟨hi, _⟩ := List.getElem?_eq_some_iff.mp hreviewer
  rw [List.getElem?_zip_eq_some]
  refine ⟨hreviewer, ?_⟩
  rw [List.getElem?_rotate (by omega), hlen, hid]

theorem exists_of_mem_pairs (hlen : ids.length = agents.length) {pair : AgentId × ProposalId}
    (h : pair ∈ agents.zip (ids.rotate 1)) :
    ∃ i, agents[i]? = some pair.1 ∧ ids[(i + 1) % agents.length]? = some pair.2 := by
  obtain ⟨i, hi⟩ := List.mem_iff_getElem?.mp h
  obtain ⟨hreviewer, hid⟩ := List.getElem?_zip_eq_some.mp hi
  obtain ⟨hlt, _⟩ := List.getElem?_eq_some_iff.mp hreviewer
  rw [List.getElem?_rotate (by omega), hlen] at hid
  exact ⟨i, hreviewer, hid⟩

theorem map_snd_pairs (hlen : ids.length = agents.length) :
    (agents.zip (ids.rotate 1)).map Prod.snd = ids.rotate 1 :=
  List.map_snd_zip (by simp [hlen])

variable {peers : Peers} {constraints : TaskConstraints} {d e : Deliberation}

theorem draftOf_getElem? (hdrafts : List.Forall₂ (DraftOf d) agents ids) {j : Nat} {author : AgentId}
    {id : ProposalId} (hauthor : agents[j]? = some author) (hid : ids[j]? = some id) :
    DraftOf d author id :=
  List.forall₂_zip hdrafts (List.mem_of_getElem? (List.getElem?_zip_eq_some.mpr ⟨hauthor, hid⟩))

theorem advance_seeded (hphase : d.phase = .proposing)
    (hdrafts : List.Forall₂ (DraftOf d) agents ids) (hne : agents ≠ []) :
    d.advance = .ok { d with phase := .revising } := by
  have hsize : d.proposals.size ≠ 0 := by
    intro hzero
    cases hdrafts with
    | nil => exact hne rfl
    | cons hfirst _ =>
      obtain ⟨draft, hget, _⟩ := hfirst
      have hmem := OrdMap.mem_entries.mpr hget
      rw [List.eq_nil_of_length_eq_zero hzero] at hmem
      simp at hmem
  simp [Deliberation.advance, DeliberationPhase.next, hphase, hsize]

theorem reviewable (hids : ids.Nodup) (hdrafts : List.Forall₂ (DraftOf d) agents ids)
    (haccepted : ∀ (i : Nat) (reviewer : AgentId) (id : ProposalId) (draft : Proposal),
      agents[i]? = some reviewer → ids[(i + 1) % agents.length]? = some id →
      d.proposals.get? id = some draft → ∀ k < constraints.rounds.val,
        trim ((peers.review constraints reviewer)^[k + 1] draft.content) ≠ "") :
    Reviewable peers constraints d.proposals (agents.zip (ids.rotate 1)) constraints.rounds.val := by
  have hlen := hdrafts.length_eq
  refine ⟨?_, fun pair hpair => ?_⟩
  · rw [map_snd_pairs hlen.symm]
    exact List.nodup_rotate.mpr hids
  · obtain ⟨i, hreviewer, hid⟩ := exists_of_mem_pairs hlen.symm hpair
    obtain ⟨hlt, _⟩ := List.getElem?_eq_some_iff.mp hid
    obtain ⟨draft, hget, hown, _⟩ :=
      draftOf_getElem? hdrafts (List.getElem?_eq_getElem (hlen ▸ hlt)) hid
    exact ⟨draft, hget, hown, haccepted i pair.1 pair.2 draft hreviewer hid hget⟩

theorem visited_nothing (hphase : d.phase = .revising)
    (hdrafts : List.Forall₂ (DraftOf d) agents ids) (hlen : ids.length = agents.length)
    (f : AgentId → String → String) :
    Visited f d.proposals (agents.zip (ids.rotate 1)) [] d := by
  refine ⟨hphase, fun pair hpair draft hget => ⟨draft.updatedAt, ?_⟩, fun _ _ => rfl⟩
  obtain ⟨i, _, hid⟩ := exists_of_mem_pairs hlen hpair
  obtain ⟨hlt, _⟩ := List.getElem?_eq_some_iff.mp hid
  obtain ⟨draft', hget', _, _, hzero⟩ :=
    draftOf_getElem? hdrafts (List.getElem?_eq_getElem (hlen ▸ hlt)) hid
  obtain rfl := Option.some.inj (hget.symm.trans hget')
  rw [hget, List.count_nil, rewritten_zero hzero]

theorem reviewed_of_visited {after : List (AgentId × ProposalId)}
    (hdrafts : List.Forall₂ (DraftOf d) agents ids)
    (hnone : ∀ id, id ∉ ids → d.proposals.get? id = none)
    (h : Visited (peers.review constraints) d.proposals (agents.zip (ids.rotate 1)) after e)
    (hcount : ∀ pair ∈ agents.zip (ids.rotate 1), after.count pair = constraints.rounds.val) :
    Reviewed peers constraints agents ids d e := by
  have hlen := hdrafts.length_eq.symm
  refine ⟨fun i reviewer author id hreviewer hauthor hid => ?_, fun id hid => ?_⟩
  · obtain ⟨draft, hget, hown, hby, _⟩ := draftOf_getElem? hdrafts hauthor hid
    have hmem := List.mem_of_getElem? (getElem?_pairs hlen hreviewer hid)
    obtain ⟨updatedAt, hrewritten⟩ := h.visited _ hmem draft hget
    refine ⟨draft, updatedAt, hget, hown, hby, ?_⟩
    rw [hrewritten, hcount _ hmem, rewritten, toU32_val]
  · rw [h.others id, hnone id hid]
    rw [map_snd_pairs hlen]
    exact fun hmem => hid (List.mem_rotate.mp hmem)

end Rounds

/-- After its rounds a review of two or more agents has taken every draft as many times
through its one reviewer as there were rounds, in whatever order each round visits the
agents; with fewer agents nothing is touched. -/
theorem peer_review_closed_form {W : Type} (answer : (c : calls.Call) → W → calls.Answer c × W)
    (peers : Peers) (hpeers : peers.Speak answer) (task : Task) (startedAt now : OffsetDateTime)
    (agents : List AgentId) (ids : List ProposalId) (d : Deliberation) (w w' : W)
    (hseed : (seedProposals task now agents (Deliberation.start task.id task.specialty
      task.constraints.rounds startedAt)).run.interpret answer w = (.ok (d, ids), w'))
    (haccepted : ∀ (i : Nat) (reviewer : AgentId) (id : ProposalId) (draft : Proposal),
      agents[i]? = some reviewer → ids[(i + 1) % agents.length]? = some id →
      d.proposals.get? id = some draft → ∀ k < task.constraints.rounds.val,
        trim ((peers.review task.constraints reviewer)^[k + 1] draft.content) ≠ "") :
    ids.length = agents.length ∧
    (2 ≤ agents.length → ∃ d₁, d.advance = .ok d₁ ∧
      (∀ v, ∃ e v', (runPeerReviewRounds agents ids task.constraints d₁).run.interpret answer v =
        (.ok e, v') ∧ Reviewed peers task.constraints agents ids d e) ∧
      ∀ orders : List (List (AgentId × ProposalId)), orders.length = task.constraints.rounds.val →
        (∀ visits ∈ orders, visits.Perm (agents.zip (ids.rotate 1))) →
        ∀ v, ∃ e v', (reviewVisits task.constraints orders d₁).run.interpret answer v =
          (.ok e, v') ∧ Reviewed peers task.constraints agents ids d e) ∧
    (agents.length < 2 → ∀ (d₁ : Deliberation) (v : W),
      (runPeerReviewRounds agents ids task.constraints d₁).run.interpret answer v = (.ok d₁, v)) := by
  have hrun : Returns (fun _ _ _ _ => True : Semantics calls Unit) (seedProposals task now agents
      (Deliberation.start task.id task.specialty task.constraints.rounds startedAt)).run ()
      (.ok (d, ids)) () := by
    rw [show (.ok (d, ids) : Except DomainError _) = _ from (congrArg Prod.fst hseed).symm]
    apply returns_interpret (fun _ : W => ())
    exact fun _ _ => trivial
  obtain ⟨hphase, hdrafts, hids, _, hframe⟩ := seedProposals_ok hrun
  have hlen := hdrafts.length_eq.symm
  refine ⟨hlen, fun htwo => ?_, fun hfew d₁ v => ?_⟩
  · have hne : agents ≠ [] := by
      rintro rfl
      simp at htwo
    have hdrafts' : List.Forall₂ (DraftOf { d with phase := .revising }) agents ids := hdrafts
    have hfirst := visited_nothing rfl hdrafts' hlen (peers.review task.constraints)
    -- Any orders of the rounds will do, so also the one the source takes.
    have horders : ∀ orders : List (List (AgentId × ProposalId)),
        orders.length = task.constraints.rounds.val →
        (∀ visits ∈ orders, visits.Perm (agents.zip (ids.rotate 1))) →
        ∀ v, ∃ e v', (reviewVisits task.constraints orders { d with phase := .revising }).run.interpret
          answer v = (.ok e, v') ∧ Reviewed peers task.constraints agents ids d e := by
      intro orders hrounds hperms v
      obtain ⟨e, v', after, hreview, hvisited, hcount⟩ := visited_reviewVisits hpeers
        (reviewable hids hdrafts haccepted) orders hperms (by simp [hrounds]) hfirst v
      exact ⟨e, v', hreview, reviewed_of_visited hdrafts hframe hvisited hcount⟩
    refine ⟨_, advance_seeded hphase hdrafts hne, fun v => ?_, horders⟩
    have hsame := horders (List.replicate task.constraints.rounds.val (agents.zip (ids.rotate 1)))
      (by simp) (fun visits hv => by rw [List.eq_of_mem_replicate hv]) v
    rw [← reviewRounds_eq] at hsame
    unfold runPeerReviewRounds
    by_cases hzero : task.constraints.rounds.val = 0
    · rw [hzero] at hsame
      simpa only [hzero, true_or, if_true, reviewRounds] using hsame
    · have hnot : ¬ (task.constraints.rounds.val = 0 ∨ agents.length < 2) := by omega
      simpa only [if_neg hnot, hlen, ne_eq, not_true_eq_false, if_false] using hsame
  · unfold runPeerReviewRounds
    simp only [hfew, or_true, if_true]
    rfl

section Exchange

open Choreographer.CouncilRuns

def annotators : Peers where
  critique agent _ _ := agent.asStr
  revise _ content feedback := content ++ feedback

def exchange : (c : calls.Call) → List String → calls.Answer c × List String
  | .uuid, w => (w.headD "", w.tail)
  | .generate agent _, w => (.ok agent.asStr, w)
  | .critique agent content constraints, w => (.ok (annotators.critique agent content constraints), w)
  | .revise agent content feedback, w => (.ok (annotators.revise agent content feedback), w)
  | .now, w => (epoch, w)
  | .elapsed, w => (DurationMs.zero, w)
  | .council _, w | .councils, w | .contract _, w | .resolveAll _, w | .validate _ _ _, w
  | .score _, w | .save _, w | .get _, w | .recordDeliberation _ _, w
  | .publishDeliberationCompleted _, w => (.error (.notFound "port"), w)

def twice : Deliberate.Task :=
  { gated with constraints := { gated.constraints with rounds := 2 } }

def drafted : Deliberation where
  taskId := gated.id
  specialty := triage
  roundsBudget := 2
  phase := .proposing
  proposals := (OrdMap.empty.insert hasty (draftOf hasty first "a")).insert careful
    (draftOf careful second "b")
  outcomes := OrdMap.empty
  ranking := []
  startedAt := epoch
  completedAt := none
  filed := (({ Deliberation.start gated.id triage 2 epoch with
    proposals := OrdMap.empty.insert hasty (draftOf hasty first "a")
    filed := (Deliberation.start gated.id triage 2 epoch).filed_insert
      (draftOf hasty first "a") } : Deliberation)).filed_insert (draftOf careful second "b")

theorem exchange_seeded : (seedProposals twice epoch [first, second] (Deliberation.start twice.id
    twice.specialty twice.constraints.rounds epoch)).run.interpret exchange ["p1", "p2"] =
      (.ok (drafted, [hasty, careful]), []) := by
  rfl

theorem exchange_accepted (i : Nat) (reviewer : AgentId) (id : ProposalId) (draft : Proposal)
    (hreviewer : [first, second][i]? = some reviewer)
    (hid : [hasty, careful][(i + 1) % [first, second].length]? = some id)
    (hdraft : drafted.proposals.get? id = some draft) (k : Nat)
    (hk : k < twice.constraints.rounds.val) :
    trim ((annotators.review twice.constraints reviewer)^[k + 1] draft.content) ≠ "" := by
  have hk : k = 0 ∨ k = 1 := by
    have h : k < 2 := hk
    omega
  match i, hreviewer, hid with
  | 0, hreviewer, hid =>
    obtain rfl := Option.some.inj hreviewer
    obtain rfl := Option.some.inj hid
    obtain rfl := Option.some.inj hdraft
    rcases hk with rfl | rfl <;> decide
  | 1, hreviewer, hid =>
    obtain rfl := Option.some.inj hreviewer
    obtain rfl := Option.some.inj hid
    obtain rfl := Option.some.inj hdraft
    rcases hk with rfl | rfl <;> decide
  | i + 2, hreviewer, _ => simp at hreviewer

theorem peer_review_closed_form_exchange :
    ∃ d₁, drafted.advance = .ok d₁ ∧ ∃ e w', (runPeerReviewRounds [first, second] [hasty, careful]
      twice.constraints d₁).run.interpret exchange [] = (.ok e, w') ∧
      (e.proposals.get? careful).map Proposal.content = some "baa" ∧
      (e.proposals.get? hasty).map Proposal.content = some "abb" := by
  obtain ⟨_, htwo, _⟩ := peer_review_closed_form exchange annotators
    ⟨fun _ _ _ _ => rfl, fun _ _ _ _ => rfl⟩ twice epoch epoch [first, second] [hasty, careful]
    drafted ["p1", "p2"] [] exchange_seeded exchange_accepted
  obtain ⟨d₁, hadvance, hrun, _⟩ := htwo (by decide)
  obtain ⟨e, w', hreview, hreviewed⟩ := hrun []
  refine ⟨d₁, hadvance, e, w', hreview, ?_, ?_⟩
  · obtain ⟨draft, _, hdraft, _, _, he⟩ := hreviewed.rewritten 0 first second careful rfl rfl rfl
    obtain rfl := Option.some.inj hdraft
    rw [he]
    rfl
  · obtain ⟨draft, _, hdraft, _, _, he⟩ := hreviewed.rewritten 1 second first hasty rfl rfl rfl
    obtain rfl := Option.some.inj hdraft
    rw [he]
    rfl

end Exchange

end Choreographer.PeerReview
