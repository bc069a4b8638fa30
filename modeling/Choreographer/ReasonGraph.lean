import Choreographer.Lib.Runs
import Choreographer.SessionRecords

namespace Choreographer.ReasonGraph

open Choreographer.Lib.SortedMaps Choreographer.Lib.Updates Choreographer.Lib.Runs
open Choreographer.Texts Choreographer.Values Choreographer.Steps Choreographer.DefinitionParts
open Choreographer.Definition Choreographer.Agenda Choreographer.Instance Choreographer.Operations
open Choreographer.SessionRecords

variable {d : CeremonyDefinition} {i i' : CeremonyInstance} {op : Operation}

/-- Something holds all along the calls on a session if and only if each of them meets a
condition, when that is so of every call that is accepted. -/
theorem runAll_always_iff (Inv : CeremonyInstance → Prop) {Good : CeremonyInstance → Prop}
    {Meets : CeremonyInstance → Operation → Prop}
    (hkeeps : ∀ i op i', Effect d i op i' → Inv i → Inv i')
    (hgood : ∀ i op i', op.answer d i = .ok () → Effect d i op i' → Inv i → Good i →
      (Good i' ↔ Meets i op))
    (hrefused : ∀ i op e, op.answer d i = .error e → Meets i op) (hstart : Inv i) (hfirst : Good i)
    (ops : List Operation) :
    (∀ before later, ops = before ++ later → Good (runAll d before i)) ↔
      ∀ before op later, ops = before ++ op :: later → Meets (runAll d before i) op := by
  apply @always_iff _ _ (fun op i => op.after d i) i Inv Good Meets
  · intro i op hi
    rcases after_cases d op i with ⟨_, -, hsame⟩ | ⟨-, heffect⟩
    · rwa [hsame]
    · exact hkeeps i op _ heffect hi
  · intro i op hi hg
    rcases after_cases d op i with ⟨e, he, hsame⟩ | ⟨haccepted, heffect⟩
    · rw [hsame]
      exact iff_of_true hg (hrefused i op e he)
    · exact hgood i op _ haccepted heffect hi hg
  · exact hstart
  · exact hfirst

/-- What an accepted call does to the reasons of a session, and to the answers they are about. -/
inductive ReasonStep (d : CeremonyDefinition) (i : CeremonyInstance) :
    Operation → CeremonyInstance → Prop
  | kept {op : Operation} {i' : CeremonyInstance} (hreasons : i'.reasons = i.reasons)
      (hanswers : ∀ item' ∈ i'.interventions, item'.responses = [] ∨
        ∃ item ∈ i.interventions, item.id = item'.id ∧ item.responses = item'.responses) :
      ReasonStep d i op i'
  | answered {op : Operation} {before after : List CeremonyIntervention}
      {item item' : CeremonyIntervention} {now : OffsetDateTime}
      (hitem : i.interventions = before ++ item :: after)
      (firstSuch : ∀ other ∈ before, other.id ≠ item.id) (hid : item'.id = item.id)
      (hone : item'.responses.length = item.responses.length + 1) :
      ReasonStep d i op (answered item.id now i before after item')
  | asserted {roleId : RoleId} {fromRecord toRecord : CeremonyRecordRef}
      {kind : CeremonyReasonKind} {why : String} {confidence : MemoryConfidence}
      {now : OffsetDateTime} {reason : CeremonyReason} (declared : (d.role roleId).isSome = true)
      (hfrom : OnRecord i fromRecord) (hto : OnRecord i toRecord)
      (entitled : i.requireAsserter roleId fromRecord kind = .ok ())
      (hreason : CeremonyReason.new fromRecord toRecord kind why confidence (some roleId) now =
        .ok reason) :
      ReasonStep d i (.assertReason roleId fromRecord toRecord kind why confidence now)
        { i with reasons := i.reasons ++ [reason], updatedAt := now }

theorem reasonStep_of_effect (h : Effect d i op i') : ReasonStep d i op i' := by
  cases h with
  | respond active allowed hitem hid first can =>
    subst hid
    exact .answered hitem first rfl List.length_append
  | respondWithEvidence active allowed hitem hid first can =>
    subst hid
    exact .answered hitem first rfl List.length_append
  | assertReason matching declared hfrom hto entitled hreason =>
    exact .asserted declared hfrom hto entitled hreason
  | requestIntervention =>
    refine .kept rfl ?_
    intro item' hitem'
    rcases List.mem_append.mp hitem' with hold | hnew
    · exact .inr ⟨item', hold, rfl, rfl⟩
    · rw [List.mem_singleton.mp hnew]
      exact .inl rfl
  | @closeIntervention _ _ _ before after item active allowed hitem =>
    refine .kept rfl ?_
    intro item' hitem'
    rcases AgendaIntegrity.mem_replaced hitem hitem' with rfl | hold
    · exact .inr ⟨item, by simp [hitem], rfl, rfl⟩
    · exact .inr ⟨item', hold, rfl, rfl⟩
  | _ => exact .kept rfl fun item' hitem' => .inr ⟨item', hitem', rfl, rfl⟩

/-- The engine's reason for a contribution: it answers its item. -/
structure Answering (agendaItem : CeremonyInterventionId) (ordinal : U32) (reason : CeremonyReason) :
    Prop where
  kind : reason.kind = .answers
  fromRecord : reason.fromRecord = .contribution agendaItem ordinal
  toRecord : reason.toRecord = .agendaItem agendaItem
  nobody : reason.assertedBy = none

/-- How many of the engine's reasons start from this contribution. -/
def answersFrom (i : CeremonyInstance) (agendaItem : CeremonyInterventionId) (ordinal : U32) : Nat :=
  i.reasons.countP fun reason =>
    reason.kind = .answers ∧ reason.fromRecord = .contribution agendaItem ordinal

theorem answersReason_spec {agendaItem : CeremonyInterventionId} {now : OffsetDateTime}
    {reason : CeremonyReason} (h : i.answersReason agendaItem now = some reason) :
    ∃ item ordinal, i.intervention agendaItem = some item ∧
      CeremonyInstance.lastOrdinal item.responses = some ordinal ∧
      Answering agendaItem ordinal reason := by
  simp only [CeremonyInstance.answersReason, Option.bind_eq_bind, Option.bind_eq_some_iff] at h
  obtain ⟨item, hitem, ordinal, hordinal, h⟩ := h
  refine ⟨item, ordinal, hitem, hordinal, ?_⟩
  cases hn : CeremonyReason.new (.contribution agendaItem ordinal) (.agendaItem agendaItem)
    .answers "a contribution made against this agenda item" .high none now with
  | error e => simp [hn, Except.toOption] at h
  | ok r =>
    rw [hn] at h
    obtain rfl := Option.some.inj h
    obtain ⟨hfrom, hto, hkind, hnobody, -⟩ := CeremonyReason.new_ok hn
    exact ⟨hkind, hfrom, hto, hnobody⟩

theorem answersReason_isSome {agendaItem : CeremonyInterventionId} {now : OffsetDateTime}
    {item : CeremonyIntervention} {ordinal : U32} (hitem : i.intervention agendaItem = some item)
    (hordinal : CeremonyInstance.lastOrdinal item.responses = some ordinal) :
    ∃ reason, i.answersReason agendaItem now = some reason := by
  have hok : ∃ reason, CeremonyReason.new (.contribution agendaItem ordinal)
      (.agendaItem agendaItem) .answers "a contribution made against this agenda item" .high none
      now = .ok reason := by
    have hapart : CeremonyRecordRef.contribution agendaItem ordinal ≠ .agendaItem agendaItem := by
      simp
    unfold CeremonyReason.new
    rw [dif_neg hapart, if_neg (by decide), if_neg (by decide)]
    exact ⟨_, rfl⟩
  obtain ⟨reason, hreason⟩ := hok
  refine ⟨reason, ?_⟩
  simp [CeremonyInstance.answersReason, hitem, hordinal, hreason, Except.toOption]

/-- What a session sees to by itself of its reasons. -/
structure Told (d : CeremonyDefinition) (i : CeremonyInstance) : Prop where
  onRecord : ∀ reason ∈ i.reasons, OnRecord i reason.fromRecord ∧ OnRecord i reason.toRecord
  answers : ∀ reason ∈ i.reasons, reason.kind = .answers →
    ∃ agendaItem ordinal, Answering agendaItem ordinal reason
  asserted : ∀ reason ∈ i.reasons, reason.kind ≠ .answers →
    ∃ roleId, reason.assertedBy = some roleId ∧ (d.role roleId).isSome = true

section Answered

variable {before : List CeremonyIntervention} {item item' : CeremonyIntervention}

theorem intervention_replaced (i : CeremonyInstance) (after : List CeremonyIntervention)
    (hid : item'.id = item.id) (firstSuch : ∀ other ∈ before, other.id ≠ item.id) :
    ({ i with interventions := before ++ item' :: after } : CeremonyInstance).intervention item.id =
      some item' := by
  simp only [CeremonyInstance.intervention, List.find?_append]
  have hbefore : before.find? (fun other => decide (other.id = item.id)) = none := by
    apply List.find?_eq_none.mpr
    intro other hother
    simpa using firstSuch other hother
  rw [hbefore]
  simp [hid]

theorem lastOrdinal_eq_some {α : Type} {l : List α} {ordinal : U32} :
    CeremonyInstance.lastOrdinal l = some ordinal ↔ l.length = ordinal.val + 1 := by
  unfold CeremonyInstance.lastOrdinal
  split_ifs with h
  · have hpos : 0 < l.length := List.length_pos_iff.mpr h.1
    simp only [Option.some.injEq, Fin.ext_iff]
    omega
  · simp only [false_iff]
    intro hl
    have hlt := ordinal.isLt
    apply h
    refine ⟨?_, by omega⟩
    rintro rfl
    simp at hl

end Answered

theorem mem_reasons_answered {before after : List CeremonyIntervention}
    {item item' : CeremonyIntervention} {now : OffsetDateTime} {reason : CeremonyReason}
    (firstSuch : ∀ other ∈ before, other.id ≠ item.id) (hid : item'.id = item.id)
    (hone : item'.responses.length = item.responses.length + 1)
    (h : reason ∈ (answered item.id now i before after item').reasons) :
    reason ∈ i.reasons ∨ ∃ ordinal : U32, ordinal.val = item.responses.length ∧
      Answering item.id ordinal reason := by
  rcases List.mem_append.mp h with hold | hnew
  · exact .inl hold
  · rw [Option.mem_toList] at hnew
    obtain ⟨found, ordinal, hfound, hordinal, hanswering⟩ := answersReason_spec hnew
    rw [intervention_replaced _ _ hid firstSuch] at hfound
    obtain rfl := Option.some.inj hfound
    rw [lastOrdinal_eq_some] at hordinal
    exact .inr ⟨ordinal, by omega, hanswering⟩

theorem onRecord_answering {agendaItem : CeremonyInterventionId} {ordinal : U32}
    {reason : CeremonyReason} (h : Answering agendaItem ordinal reason) {item : CeremonyIntervention}
    (hitem : i.intervention agendaItem = some item) (hlt : ordinal.val < item.responses.length) :
    OnRecord i reason.fromRecord ∧ OnRecord i reason.toRecord := by
  rw [h.fromRecord, h.toRecord]
  simp [OnRecord, CeremonyInstance.requireRecord, hitem, hlt]

theorem ne_answers {roleId : RoleId} {fromRecord : CeremonyRecordRef} {kind : CeremonyReasonKind}
    (h : i.requireAsserter roleId fromRecord kind = .ok ()) : kind ≠ .answers := by
  rintro rfl
  simp [CeremonyInstance.requireAsserter, CeremonyReasonKind.asserter] at h

theorem told_step (hi' : Distinct i') (honward : Onward i i') (h : ReasonStep d i op i')
    (hi : Told d i) : Told d i' := by
  have hkept : ∀ reason ∈ i.reasons, OnRecord i' reason.fromRecord ∧ OnRecord i' reason.toRecord :=
    fun reason hreason => ⟨onRecord_onward honward hi' (hi.onRecord reason hreason).1,
      onRecord_onward honward hi' (hi.onRecord reason hreason).2⟩
  cases h with
  | kept hreasons =>
    refine ⟨?_, ?_, ?_⟩
    · rw [hreasons]
      exact hkept
    · rw [hreasons]
      exact hi.answers
    · rw [hreasons]
      exact hi.asserted
  | @answered _ before after item item' now hitem firstSuch hid hone =>
    refine ⟨?_, ?_, ?_⟩
    · intro reason hreason
      rcases mem_reasons_answered firstSuch hid hone hreason with hold | ⟨ordinal, hval, hnew⟩
      · exact hkept reason hold
      · apply onRecord_answering hnew (intervention_replaced _ _ hid firstSuch)
        omega
    · intro reason hreason hkind
      rcases mem_reasons_answered firstSuch hid hone hreason with hold | ⟨ordinal, -, hnew⟩
      · exact hi.answers reason hold hkind
      · exact ⟨item.id, ordinal, hnew⟩
    · intro reason hreason hkind
      rcases mem_reasons_answered firstSuch hid hone hreason with hold | ⟨ordinal, -, hnew⟩
      · exact hi.asserted reason hold hkind
      · exact absurd hnew.kind hkind
  | @asserted roleId _ _ kind _ _ _ reason declared hfrom hto entitled hreason =>
    obtain ⟨hf, ht, hk, hby, -⟩ := CeremonyReason.new_ok hreason
    have hkind := ne_answers entitled
    have hmem : ∀ other ∈ i.reasons ++ [reason], other ∈ i.reasons ∨ other = reason := by
      simp
    refine ⟨?_, ?_, ?_⟩
    · intro other hother
      rcases hmem other hother with hold | rfl
      · exact hkept other hold
      · rw [hf, ht]
        exact ⟨onRecord_onward honward hi' hfrom, onRecord_onward honward hi' hto⟩
    · intro other hother hanswers
      rcases hmem other hother with hold | rfl
      · exact hi.answers other hold hanswers
      · exact absurd (hk.symm.trans hanswers) hkind
    · intro other hother hother'
      rcases hmem other hother with hold | rfl
      · exact hi.asserted other hold hother'
      · exact ⟨roleId, hby, declared⟩

/-- Exactly one of the engine's reasons starts from each contribution. -/
def Paired (i : CeremonyInstance) : Prop :=
  ∀ item ∈ i.interventions, ∀ ordinal : U32, ordinal.val < item.responses.length →
    answersFrom i item.id ordinal = 1

/-- Few enough answers to number them all. -/
def Numbered (i : CeremonyInstance) : Prop :=
  ∀ item ∈ i.interventions, item.responses.length < 2 ^ 32

theorem answersFrom_of_absent (hi : Told d i) {agendaItem : CeremonyInterventionId} {ordinal : U32}
    (h : ¬ OnRecord i (.contribution agendaItem ordinal)) :
    answersFrom i agendaItem ordinal = 0 := by
  apply List.countP_eq_zero.mpr
  intro reason hreason hboth
  have hfrom := (of_decide_eq_true hboth).2
  apply h
  rw [← hfrom]
  exact (hi.onRecord reason hreason).1

theorem numbered_onward (h : Onward i i') (hi' : Numbered i') : Numbered i := by
  intro item hitem
  obtain ⟨item', hitem', hf⟩ := h.items item hitem
  exact hf.responses.length_le.trans_lt (hi' item' hitem')

theorem onRecord_contribution (hd : Distinct i) {item : CeremonyIntervention}
    (hitem : item ∈ i.interventions) {ordinal : U32} :
    OnRecord i (.contribution item.id ordinal) ↔ ordinal.val < item.responses.length := by
  have hfound := (intervention_eq_some hd).mpr ⟨hitem, rfl⟩
  simp [OnRecord, CeremonyInstance.requireRecord, hfound]

theorem reasons_answered (i : CeremonyInstance) (now : OffsetDateTime)
    {before : List CeremonyIntervention} (after : List CeremonyIntervention)
    {item item' : CeremonyIntervention}
    (firstSuch : ∀ other ∈ before, other.id ≠ item.id) (hid : item'.id = item.id)
    (hone : item'.responses.length = item.responses.length + 1)
    (hfew : item'.responses.length < 2 ^ 32) :
    ∃ ordinal reason, ordinal.val = item.responses.length ∧ Answering item.id ordinal reason ∧
      (answered item.id now i before after item').reasons = i.reasons ++ [reason] := by
  have hordinal : CeremonyInstance.lastOrdinal item'.responses =
      some ⟨item.responses.length, by omega⟩ := lastOrdinal_eq_some.mpr hone
  obtain ⟨reason, hreason⟩ := answersReason_isSome
    (intervention_replaced i after hid firstSuch) hordinal
  obtain ⟨found, ordinal, hfound, hlast, hanswering⟩ := answersReason_spec hreason
  rw [intervention_replaced _ _ hid firstSuch] at hfound
  obtain rfl := Option.some.inj hfound
  rw [lastOrdinal_eq_some] at hlast
  refine ⟨ordinal, reason, by omega, hanswering, ?_⟩
  rw [answered, hreason]
  rfl

theorem answersFrom_concat {reason : CeremonyReason}
    (hreasons : i'.reasons = i.reasons ++ [reason]) (agendaItem : CeremonyInterventionId)
    (ordinal : U32) :
    answersFrom i' agendaItem ordinal = answersFrom i agendaItem ordinal +
      if reason.kind = .answers ∧ reason.fromRecord = .contribution agendaItem ordinal then 1
      else 0 := by
  simp [answersFrom, hreasons, List.countP_append, List.countP_singleton]

theorem mem_replaced_distinct {before after : List CeremonyIntervention}
    {item item' x : CeremonyIntervention} (hd : Distinct i)
    (hitem : i.interventions = before ++ item :: after) (hx : x ∈ before ++ item' :: after) :
    x = item' ∨ x ∈ i.interventions ∧ x.id ≠ item.id := by
  rw [Distinct, hitem] at hd
  have hperm : (before ++ item :: after).Perm (item :: (before ++ after)) := List.perm_middle
  have hothers := (hperm.map CeremonyIntervention.id).nodup_iff.mp hd
  rw [List.map_cons, List.nodup_cons] at hothers
  have hmem := List.perm_middle.mem_iff.mp hx
  rcases List.mem_cons.mp hmem with rfl | hrest
  · exact .inl rfl
  · refine .inr ⟨?_, fun he => hothers.1 (List.mem_map.mpr ⟨x, hrest, he⟩)⟩
    rw [hitem]
    exact hperm.mem_iff.mpr (List.mem_cons_of_mem _ hrest)

theorem paired_step (hd : Distinct i) (hi : Told d i) (hn : Numbered i') (h : ReasonStep d i op i')
    (hp : Paired i) : Paired i' := by
  cases h with
  | kept hreasons hanswers =>
    intro item' hitem' ordinal hlt
    rcases hanswers item' hitem' with hnone | ⟨item, hitem, hid, hsame⟩
    · simp [hnone] at hlt
    · rw [answersFrom, hreasons, ← hid]
      exact hp item hitem ordinal (by rw [hsame]; exact hlt)
  | @asserted _ _ _ kind _ _ _ reason declared hfrom hto entitled hreason =>
    intro item hitem ordinal hlt
    rw [answersFrom_concat rfl, hp item hitem ordinal hlt, if_neg]
    rintro ⟨hanswers, -⟩
    exact ne_answers entitled ((CeremonyReason.new_ok hreason).2.2.1.symm.trans hanswers)
  | @answered _ before after item item' now hitem firstSuch hid hone =>
    obtain ⟨last, reason, hlast, hnew, hreasons⟩ :=
      reasons_answered i now after firstSuch hid hone (hn item' (by simp [answered]))
    have hmem : item ∈ i.interventions := by simp [hitem]
    intro x hx ordinal hlt
    rw [answersFrom_concat hreasons, hnew.fromRecord]
    rcases mem_replaced_distinct hd hitem hx with rfl | ⟨hold, hother⟩
    · rw [hid]
      by_cases hnewest : ordinal = last
      · subst hnewest
        have habsent : ¬ OnRecord i (.contribution item.id ordinal) := by
          rw [onRecord_contribution hd hmem]
          omega
        rw [answersFrom_of_absent hi habsent, if_pos ⟨hnew.kind, rfl⟩]
      · have hne : ordinal.val ≠ last.val := fun he => hnewest (Fin.ext he)
        have hbefore : ordinal.val < item.responses.length := by omega
        rw [hp item hmem ordinal hbefore, if_neg]
        rintro ⟨-, hsame⟩
        simp only [CeremonyRecordRef.contribution.injEq, true_and] at hsame
        exact hnewest hsame.symm
    · rw [hp x hold ordinal hlt, if_neg]
      rintro ⟨-, hsame⟩
      simp only [CeremonyRecordRef.contribution.injEq] at hsame
      exact hother hsame.1.symm

section Steps

/-- The session really produced this: if it is a step, it ran. -/
def Produced (i : CeremonyInstance) (record : CeremonyRecordRef) : Prop :=
  OnRecord i record ∧ ∀ stepId, record = .step stepId → Ran i stepId

/-- The reasons of a session are between things it has on record, and the engine's own are
one for each contribution. -/
structure Connected (d : CeremonyDefinition) (i : CeremonyInstance) : Prop extends Told d i where
  apart : ∀ reason ∈ i.reasons, reason.fromRecord ≠ reason.toRecord
  paired : Paired i

/-- And everything they are between was really produced. -/
structure Grounded (d : CeremonyDefinition) (i : CeremonyInstance) : Prop extends Connected d i where
  produced : ∀ reason ∈ i.reasons, Produced i reason.fromRecord ∧ Produced i reason.toRecord

/-- Whoever gives a reason for a step, or with one, waits until the step has been started. -/
def CitesWhatRan (d : CeremonyDefinition) (i : CeremonyInstance) : Operation → Prop
  | .assertReason roleId fromRecord toRecord kind why confidence now =>
    (Operation.assertReason roleId fromRecord toRecord kind why confidence now).answer d i = .ok () →
      ∀ stepId, fromRecord = .step stepId ∨ toRecord = .step stepId → Ran i stepId
  | _ => True

/-- Every step that a reason is about has been started. -/
def Anchored (i : CeremonyInstance) : Prop :=
  ∀ reason ∈ i.reasons, ∀ stepId,
    reason.fromRecord = .step stepId ∨ reason.toRecord = .step stepId → Ran i stepId

theorem anchored_kept (honward : Onward i i') (hi : Anchored i) (h : ∀ reason ∈ i'.reasons,
    reason ∈ i.reasons ∨ ∃ agendaItem ordinal, Answering agendaItem ordinal reason) :
    Anchored i' := by
  intro reason hreason stepId hstep
  rcases h reason hreason with hold | ⟨agendaItem, ordinal, hnew⟩
  · exact honward.ran stepId (hi reason hold stepId hstep)
  · simp [hnew.fromRecord, hnew.toRecord] at hstep

theorem anchored_step (h : Effect d i op i') (haccepted : op.answer d i = .ok ())
    (hi : Anchored i) : Anchored i' ↔ CitesWhatRan d i op := by
  have honward := effect_onward h
  cases op with
  | assertReason roleId fromRecord toRecord kind why confidence now =>
    cases h with
    | @assertReason _ _ _ _ _ _ _ reason matching declared hfrom hto entitled hreason =>
      obtain ⟨hf, ht, -⟩ := CeremonyReason.new_ok hreason
      constructor
      · intro hall _ stepId hstep
        rw [← hf, ← ht] at hstep
        exact hall reason (by simp) stepId hstep
      · intro hcites other hother stepId hstep
        rcases List.mem_append.mp hother with hold | hnew
        · exact hi other hold stepId hstep
        · rw [List.mem_singleton.mp hnew, hf, ht] at hstep
          exact hcites haccepted stepId hstep
  | _ =>
    refine iff_of_true (anchored_kept honward hi ?_) trivial
    cases reasonStep_of_effect h with
    | kept hreasons =>
      rw [hreasons]
      exact fun reason hreason => .inl hreason
    | answered hitem firstSuch hid hone =>
      intro reason hreason
      rcases mem_reasons_answered firstSuch hid hone hreason with hold | ⟨ordinal, -, hnew⟩
      · exact .inl hold
      · exact .inr ⟨_, ordinal, hnew⟩

theorem citesWhatRan_of_refused {e : DomainError} (h : op.answer d i = .error e) :
    CitesWhatRan d i op := by
  cases op with
  | assertReason =>
    intro haccepted
    rw [h] at haccepted
    simp at haccepted
  | _ => trivial

end Steps

/-- What is kept whatever is cited. -/
structure Orderly (d : CeremonyDefinition) (i : CeremonyInstance) : Prop where
  distinct : Distinct i
  told : Told d i
  paired : Numbered i → Paired i

theorem orderly_effect (h : Effect d i op i') (hi : Orderly d i) : Orderly d i' := by
  have honward := effect_onward h
  have hdistinct := distinct_effect h hi.distinct
  refine ⟨hdistinct, told_step hdistinct honward (reasonStep_of_effect h) hi.told, ?_⟩
  intro hn
  exact paired_step hi.distinct hi.told hn (reasonStep_of_effect h)
    (hi.paired (numbered_onward honward hn))

theorem orderly_run (id : CeremonyId) (context : CeremonyContext) (now : OffsetDateTime)
    (bound : Option CeremonyDefinitionDigest) (ops : List Operation) :
    Orderly d (runAll d ops (CeremonyInstance.opened id d context now bound)) := by
  apply runAll_keeps
  · exact fun i op i' hi heffect => orderly_effect heffect hi
  · have hreasons : (CeremonyInstance.opened id d context now bound).reasons = [] := rfl
    have hitems : (CeremonyInstance.opened id d context now bound).interventions = [] := rfl
    refine ⟨List.nodup_nil, ⟨?_, ?_, ?_⟩, fun _ => ?_⟩
    · simp [hreasons]
    · simp [hreasons]
    · simp [hreasons]
    · simp [Paired, hitems]

theorem anchored_run_iff (id : CeremonyId) (context : CeremonyContext) (now : OffsetDateTime)
    (bound : Option CeremonyDefinitionDigest) (ops : List Operation) :
    (∀ before later, ops = before ++ later →
      Anchored (runAll d before (CeremonyInstance.opened id d context now bound))) ↔
    ∀ before op later, ops = before ++ op :: later →
      CitesWhatRan d (runAll d before (CeremonyInstance.opened id d context now bound)) op := by
  apply runAll_always_iff (fun _ => True)
  · exact fun _ _ _ _ _ => trivial
  · exact fun i op i' haccepted heffect _ hi => anchored_step heffect haccepted hi
  · exact fun i op e hrefused => citesWhatRan_of_refused hrefused
  · trivial
  · exact fun reason hreason => absurd hreason List.not_mem_nil

/-- However many calls, the reasons of a session stay connected, and they stay grounded if
and only if nobody cites a step that was not started. -/
theorem reasons_grounded_iff (d : CeremonyDefinition) (id : CeremonyId) (context : CeremonyContext)
    (now : OffsetDateTime) (bound : Option CeremonyDefinitionDigest) (ops : List Operation)
    (hfew : Numbered (runAll d ops (CeremonyInstance.opened id d context now bound))) :
    (∀ before later, ops = before ++ later →
      Connected d (runAll d before (CeremonyInstance.opened id d context now bound))) ∧
    ((∀ before later, ops = before ++ later →
        Grounded d (runAll d before (CeremonyInstance.opened id d context now bound))) ↔
      ∀ before op later, ops = before ++ op :: later →
        CitesWhatRan d (runAll d before (CeremonyInstance.opened id d context now bound)) op) := by
  have hconnected : ∀ before later, ops = before ++ later →
      Connected d (runAll d before (CeremonyInstance.opened id d context now bound)) := by
    rintro before later rfl
    rw [runAll_append] at hfew
    have horderly := @orderly_run d id context now bound before
    have hnumbered := numbered_onward (onward_run later _) hfew
    exact { horderly.told with
      apart := fun reason _ => reason.apart
      paired := horderly.paired hnumbered }
  refine ⟨hconnected, ?_⟩
  rw [← anchored_run_iff]
  constructor
  · intro hall before later hsplit reason hreason stepId hstep
    obtain ⟨hfrom, hto⟩ := (hall before later hsplit).produced reason hreason
    exact hstep.elim (hfrom.2 stepId) (hto.2 stepId)
  · intro hall before later hsplit
    have hc := hconnected before later hsplit
    refine { hc with produced := fun reason hreason => ?_ }
    obtain ⟨hfrom, hto⟩ := hc.onRecord reason hreason
    have hran := hall before later hsplit reason hreason
    exact ⟨⟨hfrom, fun stepId h => hran stepId (.inl h)⟩, hto, fun stepId h => hran stepId (.inr h)⟩

section Survey

def afield : StateId := ⟨"afield", by decide⟩
def mapped : StateId := ⟨"mapped", by decide⟩
def hand : TransitionTrigger := ⟨"hand_in", by decide⟩
def measure : StepId := ⟨"measure", by decide⟩
def draw : StepId := ⟨"draw", by decide⟩
def surveyor : RoleId := ⟨"surveyor", by decide⟩
def terrain : CeremonyInterventionId := ⟨"terrain", by decide⟩

def stepOf (stepId : StepId) : CeremonyStep :=
  ⟨stepId, afield, ⟨"manual", by decide⟩, Attributes.empty, RetryPolicy.singleAttempt, none⟩

def survey : CeremonyDefinition :=
  (CeremonyDefinition.new ⟨"survey", by decide⟩ versionOne none [] []
    [⟨afield, .initial⟩, ⟨mapped, .terminal⟩] [⟨afield, mapped, hand, OrdMap.empty⟩]
    [stepOf measure, stepOf draw] []
    [⟨surveyor, OrdSet.ofList [.step measure, .step draw, .transition hand, .requestIntervention,
      .respondToIntervention], by decide⟩]).toOption.get (by decide +kernel)

def opened : CeremonyInstance :=
  CeremonyInstance.opened ⟨"sv1", by decide⟩ survey CeremonyContext.empty ⟨0, 0⟩ none

def remark : CeremonyInterventionContent := ⟨⟨"it is steep", by decide⟩, Attributes.empty⟩

def discussed : List Operation :=
  [.startStep (some surveyor) measure ⟨⟨"sam", by decide⟩, ⟨"m1", by decide⟩, ⟨0, 0⟩, ⟨1, 0⟩,
      by decide⟩ ⟨0, 0⟩,
    .requestIntervention terrain surveyor .opinion .table remark none ⟨1, 0⟩,
    .respondToIntervention terrain surveyor remark ⟨2, 0⟩,
    .assertReason surveyor (.contribution terrain 0) (.step measure) .followsFrom "measured" .high
      ⟨3, 0⟩]

theorem discussed_cites : ∀ before op later, discussed = before ++ op :: later →
    CitesWhatRan survey (runAll survey before opened) op := by
  simp only [discussed, forall_split_cons]
  refine ⟨trivial, trivial, trivial, ?_, forall_split_nil⟩
  rintro - stepId (hstep | hstep)
  · simp at hstep
  · obtain rfl := CeremonyRecordRef.step.inj hstep
    exact ⟨_, rfl, by decide⟩

theorem numbered_discussed : Numbered (runAll survey discussed opened) := by
  intro item hitem
  have hitems : (runAll survey discussed opened).interventions.map
      (fun item => item.responses.length) = [1] := rfl
  have hmem := List.mem_map_of_mem (f := fun item => item.responses.length) hitem
  rw [hitems, List.mem_singleton] at hmem
  omega

theorem reasons_grounded_discussed : Numbered (runAll survey discussed opened) ∧
    (runAll survey discussed opened).reasons.length = 2 ∧
    Grounded survey (runAll survey discussed opened) := by
  refine ⟨numbered_discussed, rfl, ?_⟩
  have h := reasons_grounded_iff survey ⟨"sv1", by decide⟩ CeremonyContext.empty ⟨0, 0⟩ none discussed
    numbered_discussed
  exact h.2.mpr discussed_cites discussed [] (by simp)

def unfounded : List Operation :=
  [.assertReason surveyor (.step draw) (.step measure) .followsFrom "drawn from it" .high ⟨1, 0⟩]

theorem unstarted_cited :
    ¬ ∀ (d : CeremonyDefinition) (id : CeremonyId) (context : CeremonyContext)
      (now : OffsetDateTime) (bound : Option CeremonyDefinitionDigest) (ops : List Operation),
      Numbered (runAll d ops (CeremonyInstance.opened id d context now bound)) →
        Grounded d (runAll d ops (CeremonyInstance.opened id d context now bound)) := by
  intro h
  have hg : Grounded survey (runAll survey unfounded opened) :=
    h survey ⟨"sv1", by decide⟩ CeremonyContext.empty ⟨0, 0⟩ none unfounded
      fun item hitem => absurd hitem List.not_mem_nil
  have hreasons : (runAll survey unfounded opened).reasons.map CeremonyReason.fromRecord =
      [.step draw] := rfl
  have hcited : CeremonyRecordRef.step draw ∈
      (runAll survey unfounded opened).reasons.map CeremonyReason.fromRecord := by
    rw [hreasons]
    exact List.mem_singleton_self _
  obtain ⟨reason, hreason, hfrom⟩ := List.mem_map.mp hcited
  obtain ⟨record, hrecord, hran⟩ := (hg.produced reason hreason).1.2 draw hfrom
  have hpending : ((runAll survey unfounded opened).stepRecords.get? draw).map
      StepExecutionRecord.status = some .pending := rfl
  rw [hrecord] at hpending
  exact hran (Option.some.inj hpending)

end Survey

end Choreographer.ReasonGraph
