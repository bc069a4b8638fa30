import Choreographer.Lib.Runs
import Choreographer.MemoryProjection
import Choreographer.Participants

namespace Choreographer.PreparedSteps

open Choreographer.Lib.SortedMaps Choreographer.Lib.Updates Choreographer.Lib.Runs
open Choreographer.Lib.Padding
open Choreographer.Texts Choreographer.Values Choreographer.DefinitionParts
open Choreographer.Definition Choreographer.StepConfig Choreographer.Deliberate
open Choreographer.SessionFacts Choreographer.MemoryProjection Choreographer.Participants

section Ids

theorem dash_notMem_repr (n : Nat) : '-' ∉ n.repr.toList := notMem_repr (by decide) n

theorem agentIdText_inj {s s' : Specialty} {i i' : Nat}
    (h : agentIdText s i = agentIdText s' i') : s = s' ∧ i = i' := by
  have hlist : s.asStr.toList ++ '-' :: i.repr.toList = s'.asStr.toList ++ '-' :: i'.repr.toList := by
    have htext := congrArg String.toList h
    simpa [agentIdText] using htext
  obtain ⟨hs, hi⟩ := last_sep_split (dash_notMem_repr i) (dash_notMem_repr i') hlist
  exact ⟨Text.ext (String.toList_inj.mp hs), decimal_injective (String.toList_inj.mp hi)⟩

theorem trim_agentIdText (s : Specialty) (i : Nat) : trim (agentIdText s i) = agentIdText s i := by
  rw [agentIdText, String.append_assoc, String.append_assoc]
  exact trim_led ⟨'a', _, rfl, by decide⟩ (((tidy_repr i).append _).append _)

end Ids

section Plans

variable {m : OrdMap AgentId AgentDescriptor} {agent d : AgentDescriptor} {id : AgentId}
  {l : List AgentDescriptor}

theorem get?_plan_of_some (h : m.get? id = some d) : (plan m agent).get? id = some d := by
  unfold plan
  split_ifs with hcontains
  · exact h
  · have hne : id ≠ agent.id := by
      rintro rfl
      exact hcontains (OrdMap.contains_iff.mpr ⟨d, h⟩)
    rw [OrdMap.get?_insert_ne _ hne, h]

theorem get?_plan (h : (plan m agent).get? id = some d) :
    m.get? id = some d ∨ d = agent ∧ agent.id = id := by
  unfold plan at h
  split_ifs at h with hcontains
  · exact .inl h
  · rw [OrdMap.get?_insert] at h
    by_cases hid : id = agent.id
    · rw [if_pos hid] at h
      exact .inr ⟨(Option.some.inj h).symm, hid.symm⟩
    · rw [if_neg hid] at h
      exact .inl h

theorem contains_plan : (plan m agent).contains id = true ↔ m.contains id = true ∨ agent.id = id := by
  unfold plan
  split_ifs with hcontains
  · constructor
    · exact .inl
    · rintro (h | rfl)
      · exact h
      · exact hcontains
  · rw [OrdMap.contains_insert_iff, or_comm, @eq_comm _ id]

theorem get?_foldl_plan_of_some (h : m.get? id = some d) : (l.foldl plan m).get? id = some d := by
  induction l generalizing m with
  | nil => exact h
  | cons agent l ih => exact ih (get?_plan_of_some h)

theorem get?_foldl_plan (h : (l.foldl plan m).get? id = some d) :
    m.get? id = some d ∨ d ∈ l ∧ d.id = id := by
  induction l generalizing m with
  | nil => exact .inl h
  | cons agent l ih =>
    rcases ih h with h | ⟨hd, hid⟩
    · rcases get?_plan h with h | ⟨rfl, hid⟩
      · exact .inl h
      · exact .inr ⟨List.mem_cons_self, hid⟩
    · exact .inr ⟨List.mem_cons_of_mem _ hd, hid⟩

theorem contains_foldl_plan :
    (l.foldl plan m).contains id = true ↔ m.contains id = true ∨ ∃ d ∈ l, d.id = id := by
  induction l generalizing m with
  | nil => simp
  | cons agent l ih =>
    rw [List.foldl_cons, ih, contains_plan]
    simp only [List.mem_cons, exists_eq_or_imp, or_assoc]

end Plans

section Declared

variable {definition : CeremonyDefinition} {step : CeremonyStep} {declared : Declaration}
  {d : AgentDescriptor}

theorem participant_ok {index : Nat}
    (h : participant definition step declared index = .ok d) :
    d.id.asStr = agentIdText declared.specialty index ∧ d.specialty = declared.specialty ∧
      d.kind = declared.kind := by
  simp only [participant, except_bind_eq_ok] at h
  obtain ⟨id, hid, attributes, _, hd⟩ := h
  obtain rfl := Except.ok.inj hd
  have htext := (TextRule.check_ok.mp (Text.new_eq_ok.mp hid)).1
  exact ⟨htext.trans (trim_agentIdText ..), rfl, rfl⟩

variable (definition) in
/-- An agent that a step of the definition declares. -/
def Planned (d : AgentDescriptor) : Prop :=
  ∃ step ∈ definition.parts.steps.values, ∃ declared, declaration step = .ok declared ∧
    (∃ index, d.id.asStr = agentIdText declared.specialty index) ∧
    d.specialty = declared.specialty ∧ d.kind = declared.kind

theorem Planned.named (h : Planned definition d) :
    ∃ index, d.id.asStr = agentIdText d.specialty index := by
  obtain ⟨_, _, declared, _, ⟨index, hid⟩, hspecialty, _⟩ := h
  exact ⟨index, hspecialty ▸ hid⟩

theorem fromDefinition_ok {participants : List AgentDescriptor}
    (h : fromDefinition definition = .ok participants) :
    (∀ d ∈ participants, Planned definition d) ∧
      ∀ step ∈ definition.parts.steps.values, ∃ declared, declaration step = .ok declared ∧
        ∀ index < declared.count, ∃ d ∈ participants,
          d.id.asStr = agentIdText declared.specialty index := by
  simp only [fromDefinition, except_bind_eq_ok] at h
  obtain ⟨descriptors, hmap, hd⟩ := h
  obtain rfl := Except.ok.inj hd
  constructor
  · intro d hd
    obtain ⟨id, hget⟩ := OrdMap.mem_values.mp hd
    rcases get?_foldl_plan hget with hget | ⟨hmem, _⟩
    · simp at hget
    · obtain ⟨ds, hds, hd⟩ := List.mem_flatten.mp hmem
      obtain ⟨step, hstep, hfrom⟩ := (mem_of_mapM_ok hmap).mp hds
      simp only [participantsFromStep, except_bind_eq_ok] at hfrom
      obtain ⟨declared, hdeclared, hrange⟩ := hfrom
      obtain ⟨index, _, hparticipant⟩ := (mem_of_mapM_ok hrange).mp hd
      obtain ⟨hid, hspecialty, hkind⟩ := participant_ok hparticipant
      exact ⟨step, hstep, declared, hdeclared, ⟨index, hid⟩, hspecialty, hkind⟩
  · intro step hstep
    obtain ⟨k, hk, hget⟩ := List.mem_iff_getElem.mp hstep
    obtain ⟨ds, hds, hfrom⟩ := getElem?_of_mapM_ok hmap (List.getElem?_eq_some_iff.mpr ⟨hk, hget⟩)
    simp only [participantsFromStep, except_bind_eq_ok] at hfrom
    obtain ⟨declared, hdeclared, hrange⟩ := hfrom
    refine ⟨declared, hdeclared, fun index hindex => ?_⟩
    have hrangeGet : (List.range declared.count)[index]? = some index := by
      simp [hindex]
    obtain ⟨d, hd, hparticipant⟩ := getElem?_of_mapM_ok hrange hrangeGet
    have hmem : d ∈ descriptors.flatten :=
      List.mem_flatten.mpr ⟨ds, List.mem_of_getElem? hds, List.mem_of_getElem? hd⟩
    have hcontains : (descriptors.flatten.foldl plan OrdMap.empty).contains d.id = true :=
      contains_foldl_plan.mpr (.inr ⟨d, hmem, rfl⟩)
    obtain ⟨d', hd'⟩ := OrdMap.contains_iff.mp hcontains
    rcases get?_foldl_plan hd' with hnone | ⟨_, hid⟩
    · simp at hnone
    · refine ⟨d', OrdMap.mem_values.mpr ⟨_, hd'⟩, ?_⟩
      rw [hid]
      exact (participant_ok hparticipant).1

end Declared

section Preparing

variable {create : AgentDescriptor → Except DomainError Unit} {r : Registries}

theorem unlessExists_eq (x : Preparing Unit) (r : Registries) :
    (unlessExists x).on r = (match x.on r with
      | (.error (.alreadyExists _), r) => (.ok (), r)
      | (.error e, r) => (.error e, r)
      | (.ok _, r) => (.ok (), r) : Except DomainError Unit × Registries) := rfl

theorem unlessExists_on (p : Registries → Bool) (what : String) (f : Registries → Registries)
    (r : Registries) :
    (unlessExists (do check fun r => require (p r) (.alreadyExists what); modify f)).on r =
      (.ok (), if p r then f r else r) := by
  rw [unlessExists_eq]
  simp only [bind_on, check_on, modify_on]
  cases p r with
  | true => rfl
  | false => rfl

theorem registerAgent_on (agent : AgentDescriptor) (r : Registries) :
    (unlessExists (registerAgent agent)).on r = (.ok (), { r with agents := plan r.agents agent }) := by
  rw [registerAgent, unlessExists_on]
  unfold plan
  by_cases hcontains : r.agents.contains agent.id = true
  · simp [hcontains]
  · simp [hcontains]

def seat (councils : OrdMap Specialty Council) (council : Council) : OrdMap Specialty Council :=
  if councils.contains council.specialty then councils
  else councils.insert council.specialty council

theorem registerCouncil_on (council : Council) (r : Registries) :
    (unlessExists (registerCouncil council)).on r =
      (.ok (), { r with councils := seat r.councils council }) := by
  rw [registerCouncil, unlessExists_on]
  unfold seat
  by_cases hcontains : r.councils.contains council.specialty = true
  · simp [hcontains]
  · simp [hcontains]

theorem enlist_on (agents : List AgentDescriptor) (groups : Groups) (r : Registries) :
    ∃ taken, taken <+: agents ∧
      ((enlist create agents groups).on r).2 = { r with agents := taken.foldl plan r.agents } ∧
      ∀ groups', ((enlist create agents groups).on r).1 = .ok groups' →
        taken = agents ∧ groups' = agents.foldl Groups.add groups := by
  induction agents generalizing groups r with
  | nil =>
    refine ⟨[], List.prefix_rfl, rfl, fun groups' h => ⟨rfl, ?_⟩⟩
    exact (Except.ok.inj h).symm
  | cons agent rest ih =>
    cases hcreate : create agent with
    | error e =>
      refine ⟨[], List.nil_prefix, ?_, fun groups' h => ?_⟩
      · simp only [enlist, bind_on, check_on, hcreate, List.foldl_nil]
      · simp [enlist, bind_on, check_on, hcreate] at h
    | ok _ =>
      obtain ⟨taken, hlead, hstate, hok⟩ :=
        ih (Groups.add groups agent) { r with agents := plan r.agents agent }
      have hon : (enlist create (agent :: rest) groups).on r =
          (enlist create rest (Groups.add groups agent)).on
            { r with agents := plan r.agents agent } := by
        simp only [enlist, bind_on, check_on, hcreate, registerAgent_on]
      refine ⟨agent :: taken, (List.prefix_cons_inj agent).mpr hlead, ?_, fun groups' h => ?_⟩
      · rw [hon, hstate]
        rfl
      · rw [hon] at h
        obtain ⟨rfl, hgroups⟩ := hok groups' h
        exact ⟨rfl, hgroups⟩

theorem newCouncil_ok {specialty : Specialty} {agents : OrdSet AgentId} {council : Council}
    (h : newCouncil specialty agents = .ok council) :
    council.specialty = specialty ∧ council.agents = agents := by
  simp only [newCouncil, except_bind_eq_ok] at h
  obtain ⟨id, _, _, _, hc⟩ := h
  obtain rfl := Except.ok.inj hc
  exact ⟨rfl, rfl⟩

/-- The councils that there were stay, and others are of these groups. -/
structure Seats (entries : List (Specialty × OrdSet AgentId))
    (before later : OrdMap Specialty Council) : Prop where
  kept : ∀ s c, before.get? s = some c → later.get? s = some c
  fresh : ∀ s c, later.get? s = some c → before.get? s = some c ∨ (s, c.agents) ∈ entries

theorem seats_seat {specialty : Specialty} {agents : OrdSet AgentId}
    {entries : List (Specialty × OrdSet AgentId)} {councils : OrdMap Specialty Council}
    {council : Council} (hs : council.specialty = specialty) (ha : council.agents = agents) :
    Seats ((specialty, agents) :: entries) councils (seat councils council) := by
  subst hs ha
  unfold seat
  split_ifs with hcontains
  · exact ⟨fun s c h => h, fun s c h => .inl h⟩
  · refine ⟨fun s c h => ?_, fun s c h => ?_⟩
    · have hne : s ≠ council.specialty := by
        rintro rfl
        exact hcontains (OrdMap.contains_iff.mpr ⟨c, h⟩)
      rw [OrdMap.get?_insert_ne _ hne, h]
    · rw [OrdMap.get?_insert] at h
      by_cases hsame : s = council.specialty
      · rw [if_pos hsame] at h
        obtain rfl := Option.some.inj h
        exact .inr (hsame ▸ List.mem_cons_self)
      · rw [if_neg hsame] at h
        exact .inl h

theorem convene_on (entries : List (Specialty × OrdSet AgentId)) (r : Registries) :
    ∃ councils, ((convene entries).on r).2 = { r with councils } ∧
      Seats entries r.councils councils ∧
      (((convene entries).on r).1 = .ok () →
        ∀ e ∈ entries, councils.contains e.1 = true) := by
  induction entries generalizing r with
  | nil => exact ⟨r.councils, rfl, ⟨fun s c h => h, fun s c h => .inl h⟩, fun _ e he => by simp at he⟩
  | cons e rest ih =>
    obtain ⟨specialty, agents⟩ := e
    cases hnew : newCouncil specialty agents with
    | error e =>
      refine ⟨r.councils, ?_, ⟨fun s c h => h, fun s c h => .inl h⟩, fun h => ?_⟩
      · simp only [convene, bind_on, check_on, hnew]
      · simp [convene, bind_on, check_on, hnew] at h
    | ok council =>
      obtain ⟨hs, ha⟩ := newCouncil_ok hnew
      have hon : (convene ((specialty, agents) :: rest)).on r =
          (convene rest).on { r with councils := seat r.councils council } := by
        simp only [convene, bind_on, check_on, hnew, registerCouncil_on]
      have hseat : Seats ((specialty, agents) :: rest) r.councils (seat r.councils council) :=
        seats_seat hs ha
      obtain ⟨councils, hstate, hseats, hok⟩ := ih { r with councils := seat r.councils council }
      refine ⟨councils, by rw [hon, hstate], ⟨?_, ?_⟩, fun h => ?_⟩
      · exact fun s c h => hseats.kept s c (hseat.kept s c h)
      · intro s c h
        rcases hseats.fresh s c h with h | h
        · exact hseat.fresh s c h
        · exact .inr (List.mem_cons_of_mem _ h)
      · rw [hon] at h
        intro e he
        rcases List.mem_cons.mp he with rfl | he
        · have hthere : (seat r.councils council).contains specialty = true := by
            unfold seat
            split_ifs with hcontains
            · exact hs ▸ hcontains
            · exact OrdMap.contains_insert_iff.mpr (.inl hs.symm)
          obtain ⟨c, hc⟩ := OrdMap.contains_iff.mp hthere
          exact OrdMap.contains_iff.mpr ⟨c, hseats.kept _ c hc⟩
        · exact hok h e he

theorem foldl_groups (agents : List AgentDescriptor) (groups : Groups) (s : Specialty)
    (id : AgentId) :
    (((agents.foldl Groups.add groups).get? s).getD OrdMap.empty).contains id = true ↔
      ((groups.get? s).getD OrdMap.empty).contains id = true ∨
        ∃ d ∈ agents, d.specialty = s ∧ d.id = id := by
  induction agents generalizing groups with
  | nil => simp
  | cons agent rest ih =>
    rw [List.foldl_cons, ih, Groups.add, OrdMap.get?_insert]
    by_cases hs : s = agent.specialty
    · subst hs
      simp only [if_true, Option.getD_some, OrdSet.contains_add, Bool.or_eq_true, decide_eq_true_eq,
        List.mem_cons, exists_eq_or_imp, true_and]
      rw [@eq_comm _ id, or_assoc, or_left_comm]
    · rw [if_neg hs]
      simp only [List.mem_cons, exists_eq_or_imp, Ne.symm hs, false_and, false_or]

theorem contains_groups (agents : List AgentDescriptor) (groups : Groups) (s : Specialty) :
    (agents.foldl Groups.add groups).contains s = true ↔
      groups.contains s = true ∨ ∃ d ∈ agents, d.specialty = s := by
  induction agents generalizing groups with
  | nil => simp
  | cons agent rest ih =>
    rw [List.foldl_cons, ih, Groups.add, OrdMap.contains_insert_iff]
    simp only [List.mem_cons, exists_eq_or_imp]
    rw [@eq_comm _ s, or_assoc, or_left_comm]

end Preparing

section Growing

variable {preparation : Preparation} {r r' : Registries} {participants : List AgentDescriptor}

/-- What there was stays, and what is new is for the definition. -/
structure Grown (definition : CeremonyDefinition) (r r' : Registries) : Prop where
  agentsKept : ∀ id d, r.agents.get? id = some d → r'.agents.get? id = some d
  agentsFresh : ∀ id d, r'.agents.get? id = some d →
    r.agents.get? id = some d ∨ Planned definition d ∧ d.id = id
  councilsKept : ∀ s c, r.councils.get? s = some c → r'.councils.get? s = some c
  councilsFresh : ∀ s c, r'.councils.get? s = some c → r.councils.get? s = some c ∨
    ∀ id, c.agents.contains id = true → r'.agents.contains id = true ∧
      ∃ d, Planned definition d ∧ d.specialty = s ∧ d.id = id

theorem Grown.refl (definition : CeremonyDefinition) (r : Registries) : Grown definition r r where
  agentsKept _ _ h := h
  agentsFresh _ _ h := .inl h
  councilsKept _ _ h := h
  councilsFresh _ _ h := .inl h

theorem execute_on {create : AgentDescriptor → Except DomainError Unit}
    (participants : List AgentDescriptor) (r : Registries) :
    (∃ taken e, taken <+: participants ∧
      (execute create participants).on r =
        (.error e, { r with agents := taken.foldl plan r.agents })) ∨
      (execute create participants).on r =
        (convene (participants.foldl Groups.add OrdMap.empty).entries).on
          { r with agents := participants.foldl plan r.agents } := by
  obtain ⟨taken, hlead, hstate, hok⟩ := @enlist_on create participants OrdMap.empty r
  cases hrun : (enlist create participants OrdMap.empty).on r with
  | mk result registries =>
    rw [hrun] at hstate hok
    obtain rfl : registries = _ := hstate
    cases result with
    | error e =>
      refine .inl ⟨taken, e, hlead, ?_⟩
      simp only [execute, bind_on, hrun]
    | ok groups =>
      obtain ⟨rfl, rfl⟩ := hok groups rfl
      refine .inr ?_
      simp only [execute, bind_on, hrun]

theorem grown_agents {definition : CeremonyDefinition} {taken : List AgentDescriptor}
    (h : ∀ d ∈ taken, Planned definition d) :
    Grown definition r { r with agents := taken.foldl plan r.agents } where
  agentsKept _ _ := get?_foldl_plan_of_some
  agentsFresh id d hd := by
    rcases get?_foldl_plan hd with hd | ⟨hmem, hid⟩
    · exact .inl hd
    · exact .inr ⟨h d hmem, hid⟩
  councilsKept _ _ h := h
  councilsFresh _ _ h := .inl h

theorem mem_group {s : Specialty} {ids : OrdSet AgentId} {id : AgentId}
    (h : (s, ids) ∈ (participants.foldl Groups.add OrdMap.empty).entries) :
    ids.contains id = true ↔ ∃ d ∈ participants, d.specialty = s ∧ d.id = id := by
  have hget := OrdMap.mem_entries.mp h
  have hgroup := foldl_groups participants OrdMap.empty s id
  rw [hget] at hgroup
  simpa [OrdMap.contains] using hgroup

theorem grown_after (preparation : Preparation) (r : Registries) :
    Grown preparation.definition r (after preparation r) := by
  cases hplan : fromDefinition preparation.definition with
  | error e =>
    have hafter : after preparation r = r := by
      simp only [after, prepare, bind_on, check_on, hplan]
    rw [hafter]
    exact Grown.refl _ r
  | ok participants =>
    have hplanned := (fromDefinition_ok hplan).1
    have hafter : after preparation r = ((execute preparation.create participants).on r).2 := by
      simp only [after, prepare, bind_on, check_on, hplan]
    rw [hafter]
    rcases @execute_on preparation.create participants r with ⟨taken, e, hlead, hrun⟩ | hrun
    · rw [hrun]
      exact grown_agents fun d hd => hplanned d (hlead.subset hd)
    · rw [hrun]
      obtain ⟨councils, hstate, hseats, _⟩ := convene_on
        (participants.foldl Groups.add OrdMap.empty).entries
        { r with agents := participants.foldl plan r.agents }
      rw [hstate]
      have hagents := grown_agents (r := r) hplanned
      refine { hagents with councilsKept := hseats.kept, councilsFresh := fun s c hc => ?_ }
      rcases hseats.fresh s c hc with hc | hc
      · exact .inl hc
      · refine .inr fun id hid => ?_
        obtain ⟨d, hd, hs, hdid⟩ := (mem_group hc).mp hid
        exact ⟨contains_foldl_plan.mpr (.inr ⟨d, hd, hdid⟩), d, hplanned d hd, hs, hdid⟩

theorem count_pos {step : CeremonyStep} {declared : Declaration}
    (h : declaration step = .ok declared) : 0 < declared.count := by
  simp only [declaration, except_bind_eq_ok] at h
  obtain ⟨specialty, _, kind, _, labels, _, h⟩ := h
  split_ifs at h with hempty
  · simp only [except_bind_eq_ok] at h
    obtain ⟨numAgents, _, _, hcount, hd⟩ := h
    obtain rfl := Except.ok.inj hcount
    obtain rfl := Except.ok.inj hd
    cases numAgents with
    | none => exact Nat.one_pos
    | some num => exact num.valid.1
  · obtain rfl := Except.ok.inj h
    exact List.length_pos_iff.mpr (by simpa using hempty)

/-- After a success each step has a council: one that was there, or one with all the agents the
step declares. -/
theorem councils_after (h : ((prepare preparation).on r).1 = .ok ()) {step : CeremonyStep}
    (hstep : step ∈ preparation.definition.parts.steps.values) :
    ∃ declared, declaration step = .ok declared ∧ ∃ council,
      (after preparation r).councils.get? declared.specialty = some council ∧
      (r.councils.get? declared.specialty = some council ∨
        ∀ index < declared.count, ∃ id, id.asStr = agentIdText declared.specialty index ∧
          council.agents.contains id = true) := by
  cases hplan : fromDefinition preparation.definition with
  | error e => simp [prepare, bind_on, check_on, hplan] at h
  | ok participants =>
    obtain ⟨hplanned, hall⟩ := fromDefinition_ok hplan
    obtain ⟨declared, hdeclared, hindexes⟩ := hall step hstep
    refine ⟨declared, hdeclared, ?_⟩
    have hrun : (prepare preparation).on r = (execute preparation.create participants).on r := by
      simp only [prepare, bind_on, check_on, hplan]
    unfold after
    rw [hrun] at h ⊢
    rcases @execute_on preparation.create participants r with ⟨taken, e, _, hexecute⟩ | hexecute
    · simp [hexecute] at h
    rw [hexecute] at h ⊢
    obtain ⟨councils, hstate, hseats, hok⟩ := convene_on
      (participants.foldl Groups.add OrdMap.empty).entries
      { r with agents := participants.foldl plan r.agents }
    -- Whoever has a declared name is of the declared specialty.
    have hnamed (index : Nat) (hindex : index < declared.count) : ∃ d ∈ participants,
        d.specialty = declared.specialty ∧ d.id.asStr = agentIdText declared.specialty index := by
      obtain ⟨d, hd, hid⟩ := hindexes index hindex
      obtain ⟨index', hid'⟩ := (hplanned d hd).named
      exact ⟨d, hd, (agentIdText_inj (hid'.symm.trans hid)).1, hid⟩
    obtain ⟨first, hfirst, hspecialty, _⟩ := hnamed 0 (count_pos hdeclared)
    have hgroup : (participants.foldl Groups.add OrdMap.empty).contains declared.specialty = true :=
      (contains_groups ..).mpr (.inr ⟨first, hfirst, hspecialty⟩)
    obtain ⟨ids, hids⟩ := OrdMap.contains_iff.mp hgroup
    obtain ⟨council, hcouncil⟩ := OrdMap.contains_iff.mp
      (hok h (declared.specialty, ids) (OrdMap.mem_entries.mpr hids))
    refine ⟨council, by rw [hstate]; exact hcouncil, ?_⟩
    rcases hseats.fresh _ _ hcouncil with hold | hnew
    · exact .inl hold
    · refine .inr fun index hindex => ?_
      obtain ⟨d, hd, hs, hid⟩ := hnamed index hindex
      exact ⟨d.id, hid, (mem_group hnew).mpr ⟨d, hd, hs, rfl⟩⟩

end Growing

section Runs

variable {preparation : Preparation} {r : Registries}

/-- In the registries a name says which specialty an agent has, a specialty which kind, and whoever
sits in a council can be called. -/
structure Orderly (r : Registries) : Prop where
  named : ∀ id d, r.agents.get? id = some d →
    ∃ index, id.asStr = agentIdText d.specialty index
  alike : ∀ id d id' d', r.agents.get? id = some d → r.agents.get? id' = some d' →
    d.specialty = d'.specialty → d.kind = d'.kind
  seated : ∀ s c id, r.councils.get? s = some c → c.agents.contains id = true →
    ∃ d, r.agents.get? id = some d ∧ d.specialty = s

theorem orderly_new : Orderly Registries.new where
  named id d h := by simp [Registries.new] at h
  alike id d id' d' h := by simp [Registries.new] at h
  seated s c id h := by simp [Registries.new] at h

/-- No step asks for more agents than an earlier council has, nor for another kind of agent than
the other steps of its specialty and the agents that are there. -/
def Meets (r : Registries) (preparation : Preparation) : Prop :=
  ∀ step ∈ preparation.definition.parts.steps.values, ∀ declared,
    declaration step = .ok declared →
      (∀ council, r.councils.get? declared.specialty = some council →
        declared.count ≤ council.agents.size) ∧
      (∀ step' ∈ preparation.definition.parts.steps.values, ∀ declared',
        declaration step' = .ok declared' → declared'.specialty = declared.specialty →
          declared'.kind = declared.kind) ∧
      ∀ id agent, r.agents.get? id = some agent → agent.specialty = declared.specialty →
        agent.kind = declared.kind

theorem kind_of_meets (hmeets : Meets r preparation) {step : CeremonyStep} {declared : Declaration}
    (hstep : step ∈ preparation.definition.parts.steps.values)
    (hdeclared : declaration step = .ok declared) {id : AgentId} {d : AgentDescriptor}
    (hd : (after preparation r).agents.get? id = some d) (hs : d.specialty = declared.specialty) :
    d.kind = declared.kind := by
  obtain ⟨_, halone, hknown⟩ := hmeets step hstep declared hdeclared
  rcases (grown_after preparation r).agentsFresh id d hd with hold | ⟨hplanned, _⟩
  · exact hknown id d hold hs
  · obtain ⟨step', hstep', declared', hdeclared', _, hs', hkind⟩ := hplanned
    exact hkind.trans (halone step' hstep' declared' hdeclared' (hs'.symm.trans hs))

theorem orderly_after (h : Orderly r) (hmeets : Meets r preparation) :
    Orderly (after preparation r) := by
  have hgrown := grown_after preparation r
  have hnamed (id : AgentId) (d : AgentDescriptor)
      (hd : (after preparation r).agents.get? id = some d) :
      ∃ index, id.asStr = agentIdText d.specialty index := by
    rcases hgrown.agentsFresh id d hd with hold | ⟨hplanned, rfl⟩
    · exact h.named id d hold
    · exact hplanned.named
  refine ⟨hnamed, fun id d id' d' hd hd' hs => ?_, fun s c id hc hid => ?_⟩
  · rcases hgrown.agentsFresh id d hd with hold | ⟨hplanned, _⟩
    · rcases hgrown.agentsFresh id' d' hd' with hold' | ⟨hplanned', _⟩
      · exact h.alike id d id' d' hold hold' hs
      · obtain ⟨step, hstep, declared, hdeclared, _, hs', hkind⟩ := hplanned'
        rw [hkind]
        exact kind_of_meets hmeets hstep hdeclared hd (hs.trans hs')
    · obtain ⟨step, hstep, declared, hdeclared, _, hs', hkind⟩ := hplanned
      rw [hkind]
      exact (kind_of_meets hmeets hstep hdeclared hd' (hs.symm.trans hs')).symm
  · rcases hgrown.councilsFresh s c hc with hold | hfresh
    · obtain ⟨d, hd, hs⟩ := h.seated s c id hold hid
      exact ⟨d, hgrown.agentsKept id d hd, hs⟩
    · obtain ⟨hthere, d, hplanned, rfl, rfl⟩ := hfresh id hid
      obtain ⟨d', hd'⟩ := OrdMap.contains_iff.mp hthere
      obtain ⟨index, hindex⟩ := hplanned.named
      obtain ⟨index', hindex'⟩ := hnamed d.id d' hd'
      exact ⟨d', hd', (agentIdText_inj (hindex'.symm.trans hindex)).1⟩

theorem orderly_run {preparations : List Preparation}
    (h : ∀ before p later, preparations = before ++ p :: later →
      Meets (run after before Registries.new) p) :
    Orderly (run after preparations Registries.new) := by
  induction preparations using List.reverseRecOn with
  | nil => exact orderly_new
  | append_singleton preparations p ih =>
    obtain ⟨hbefore, hlast⟩ := forall_split_concat.mp h
    rw [run_concat]
    exact orderly_after (ih hbefore) hlast

/-- The council of the step has as many agents as the step declares, and those its deliberation
picks are of the declared kind. -/
def Provided (r : Registries) (step : CeremonyStep) : Prop :=
  ∃ declared council agents, declaration step = .ok declared ∧
    r.councils.get? declared.specialty = some council ∧
    resolveAll r council.agents.keys = .ok agents ∧ declared.count ≤ agents.length ∧
    ∀ numAgents, (stepConfig step).numAgents = .ok numAgents →
      ∃ picked, resolveAll r (picks council (numAgents.map NumAgents.get)) = .ok picked ∧
        ∀ agent ∈ picked, agent.kind = declared.kind

theorem resolveAll_seated (h : Orderly r) {s : Specialty} {c : Council}
    (hc : r.councils.get? s = some c) {ids : List AgentId} (hids : ids ⊆ c.agents.keys) :
    ∃ agents, resolveAll r ids = .ok agents ∧ agents.length = ids.length ∧
      ∀ agent ∈ agents, (∃ id, r.agents.get? id = some agent) ∧ agent.specialty = s := by
  induction ids with
  | nil => exact ⟨[], rfl, rfl, by simp⟩
  | cons id ids ih =>
    obtain ⟨hid, hrest⟩ := List.cons_subset.mp hids
    obtain ⟨d, hd, hs⟩ := h.seated s c id hc (OrdMap.mem_keys.mp hid)
    obtain ⟨agents, hagents, hlen, hall⟩ := ih hrest
    have hresolve : resolve r id = .ok d := by simp [resolve, hd]
    refine ⟨d :: agents, ?_, by simp [hlen], ?_⟩
    · rw [resolveAll] at hagents ⊢
      rw [List.mapM_cons, hresolve, hagents]
      rfl
    · intro agent hagent
      rcases List.mem_cons.mp hagent with rfl | hagent
      · exact ⟨⟨id, hd⟩, hs⟩
      · exact hall agent hagent

theorem picks_subset (council : Council) (numAgents : Option U32) :
    picks council numAgents ⊆ council.agents.keys := by
  cases numAgents with
  | none => exact List.Subset.refl _
  | some n => exact List.take_subset _ _

theorem count_le_size {s : Specialty} {agents : OrdSet AgentId} {count : Nat}
    (h : ∀ index < count, ∃ id : AgentId, id.asStr = agentIdText s index ∧
      agents.contains id = true) : count ≤ agents.size := by
  have hnodup : ((List.range count).map (agentIdText s)).Nodup :=
    List.nodup_range.map fun i j hij => (agentIdText_inj hij).2
  have hsub : (List.range count).map (agentIdText s) ⊆ agents.keys.map Text.asStr := by
    intro text htext
    obtain ⟨index, hindex, rfl⟩ := List.mem_map.mp htext
    obtain ⟨id, hid, hcontains⟩ := h index (List.mem_range.mp hindex)
    exact List.mem_map.mpr ⟨id, OrdMap.mem_keys.mpr hcontains, hid⟩
  have hle := (List.subperm_of_subset hnodup hsub).length_le
  simpa [OrdMap.keys, OrdMap.size] using hle

theorem provided_after (h : Orderly r) (hmeets : Meets r preparation)
    (hok : ((prepare preparation).on r).1 = .ok ()) {step : CeremonyStep}
    (hstep : step ∈ preparation.definition.parts.steps.values) :
    Provided (after preparation r) step := by
  have hafter := orderly_after h hmeets
  obtain ⟨declared, hdeclared, council, hcouncil, hmembers⟩ := councils_after hok hstep
  have hsize : declared.count ≤ council.agents.size := by
    rcases hmembers with hold | hall
    · exact (hmeets step hstep declared hdeclared).1 council hold
    · exact count_le_size hall
  obtain ⟨agents, hagents, hlen, _⟩ := resolveAll_seated hafter hcouncil (List.Subset.refl _)
  refine ⟨declared, council, agents, hdeclared, hcouncil, hagents, ?_, fun numAgents _ => ?_⟩
  · rw [hlen]
    simpa [OrdMap.keys, OrdMap.size] using hsize
  · obtain ⟨picked, hpicked, _, hall⟩ :=
      resolveAll_seated hafter hcouncil (picks_subset council (numAgents.map NumAgents.get))
    refine ⟨picked, hpicked, fun agent hagent => ?_⟩
    obtain ⟨⟨id, hid⟩, hs⟩ := hall agent hagent
    exact kind_of_meets hmeets hstep hdeclared hid hs

theorem prepared_steps_provided (preparations : List Preparation)
    (hmeets : ∀ before p later, preparations = before ++ p :: later →
      Meets (run after before Registries.new) p) :
    ∀ before p later, preparations = before ++ p :: later →
      ((prepare p).on (run after before Registries.new)).1 = .ok () →
      ∀ step ∈ p.definition.parts.steps.values,
        Provided (run after (before ++ [p]) Registries.new) step := by
  intro before p later hsplit hok step hstep
  have hbefore : Orderly (run after before Registries.new) := by
    apply orderly_run
    intro b q l hb
    exact hmeets b q (l ++ p :: later) (by simp [hsplit, hb])
  rw [run_concat]
  exact provided_after hbefore (hmeets before p later hsplit) hok hstep

end Runs

section Panels

def asking (num : U64) : Attributes :=
  (Attributes.new (OrdMap.ofList [("num_agents", .number (.posInt num))])).toOption.getD
    Attributes.empty

def tasting (num : U64) : CeremonyStep :=
  ⟨⟨"taste", by decide⟩, ⟨"OPEN", by decide⟩, ⟨"panel", by decide⟩, asking num,
    Steps.RetryPolicy.singleAttempt, none⟩

def panel? (num : U64) : Except DomainError CeremonyDefinition :=
  CeremonyDefinition.new ⟨"tasting", by decide⟩ ⟨"1.0", by decide⟩ none [] []
    [⟨⟨"OPEN", by decide⟩, .initial⟩, ⟨⟨"SHUT", by decide⟩, .terminal⟩]
    [⟨⟨"OPEN", by decide⟩, ⟨"SHUT", by decide⟩, ⟨"shut", by decide⟩, OrdMap.empty⟩]
    [tasting num] [] []

def pair : CeremonyDefinition := (panel? 2).toOption.get (by decide +kernel)
def single : CeremonyDefinition := (panel? 1).toOption.get (by decide +kernel)

def willing (definition : CeremonyDefinition) : Preparation := ⟨definition, fun _ => .ok ()⟩

theorem ok_of_isSome {ε : Type} {x : Except ε Unit} (h : x.toOption.isSome = true) : x = .ok () := by
  cases x with
  | error e => simp [Except.toOption] at h
  | ok u => rfl

theorem pair_steps : pair.parts.steps.values = [tasting 2] := rfl

theorem single_steps : single.parts.steps.values = [tasting 1] := rfl

theorem pair_prepared : ((prepare (willing pair)).on Registries.new).1 = .ok () :=
  ok_of_isSome (by decide +kernel)

def fits (r : Registries) (step : CeremonyStep) : Bool :=
  match declaration step with
  | .ok declared =>
    ((r.councils.get? declared.specialty).all fun council =>
      decide (declared.count ≤ council.agents.size)) &&
      r.agents.values.all fun agent => decide (agent.kind = declared.kind)
  | .error _ => true

theorem meets_of_fits {r : Registries} {preparation : Preparation} {step : CeremonyStep}
    (hsteps : preparation.definition.parts.steps.values = [step]) (h : fits r step = true) :
    Meets r preparation := by
  intro step' hstep declared hdeclared
  rw [hsteps, List.mem_singleton] at hstep
  subst hstep
  simp only [fits, hdeclared, Bool.and_eq_true, List.all_eq_true, decide_eq_true_eq] at h
  refine ⟨fun council hcouncil => ?_, fun step'' hstep'' declared'' hdeclared'' _ => ?_,
    fun id agent hagent _ => ?_⟩
  · simpa [hcouncil] using h.1
  · rw [hsteps, List.mem_singleton] at hstep''
    subst hstep''
    rw [Except.ok.inj (hdeclared.symm.trans hdeclared'')]
  · exact h.2 agent (OrdMap.mem_values.mpr ⟨id, hagent⟩)

theorem pair_single_meets : ∀ before p later, [willing pair, willing single] = before ++ p :: later →
    Meets (run after before Registries.new) p := by
  rw [forall_split_cons, forall_split_cons]
  refine ⟨meets_of_fits pair_steps (by decide +kernel), ?_, forall_split_nil⟩
  exact meets_of_fits single_steps (by decide +kernel)

/-- A council of two serves a ceremony that asks for one taster as well. -/
theorem prepared_steps_provided_pair :
    Provided (run after [willing pair] Registries.new) (tasting 2) ∧
      Provided (run after [willing pair, willing single] Registries.new) (tasting 1) := by
  have hpair : tasting 2 ∈ (willing pair).definition.parts.steps.values := by
    change tasting 2 ∈ pair.parts.steps.values
    rw [pair_steps]
    exact List.mem_singleton_self _
  have hsingle : tasting 1 ∈ (willing single).definition.parts.steps.values := by
    change tasting 1 ∈ single.parts.steps.values
    rw [single_steps]
    exact List.mem_singleton_self _
  have hprovided := prepared_steps_provided _ pair_single_meets
  constructor
  · exact hprovided [] (willing pair) [willing single] rfl pair_prepared (tasting 2) hpair
  · exact hprovided [willing pair] (willing single) [] rfl (ok_of_isSome (by decide +kernel))
      (tasting 1) hsingle

/-- Two tasters are asked for, and the council of the first ceremony has one. -/
theorem pair_after_single_not_provided :
    ((prepare (willing pair)).on (run after [willing single] Registries.new)).1 = .ok () ∧
      tasting 2 ∈ (willing pair).definition.parts.steps.values ∧
      ¬ Provided (run after [willing single, willing pair] Registries.new) (tasting 2) := by
  refine ⟨ok_of_isSome (by decide +kernel), ?_, ?_⟩
  · change tasting 2 ∈ pair.parts.steps.values
    rw [pair_steps]
    exact List.mem_singleton_self _
  · rintro ⟨declared, council, agents, hdeclared, hcouncil, hagents, hcount, _⟩
    have htext : (declaration (tasting 2)).toOption.map (fun d => (d.specialty.asStr, d.count)) =
        some ("panel", 2) := by decide +kernel
    have hsize : ((run after [willing single, willing pair] Registries.new).councils.get?
        ⟨"panel", by decide⟩).map (fun c => c.agents.keys.length) = some 1 := by decide +kernel
    rw [hdeclared] at htext
    obtain ⟨hspecialty, htwo⟩ : declared.specialty.asStr = "panel" ∧ declared.count = 2 := by
      simpa [Except.toOption] using htext
    have hpanel : declared.specialty = ⟨"panel", by decide⟩ := Text.ext hspecialty
    rw [← hpanel, hcouncil] at hsize
    have hone : council.agents.keys.length = 1 := by simpa using hsize
    have hlen := congrArg List.length (map_eq_of_mapM_ok hagents)
    rw [List.length_map, List.length_map] at hlen
    omega

end Panels

end Choreographer.PreparedSteps
