import Choreographer.KernelPages
import Choreographer.MemoryProjection

namespace Choreographer.KernelReferences

open Choreographer.Texts Choreographer.Values Choreographer.Agenda Choreographer.MemoryValues
open Choreographer.SessionFacts Choreographer.MemoryProjection Choreographer.KernelPages

def entryRef (scope : MemoryScope) (id : MemoryEntryId) : String :=
  "entry:" ++ scope.asStr ++ ":" ++ id.asStr

theorem stripPrefix_append (lead s : String) : stripPrefix lead (lead ++ s) = some s := by
  unfold stripPrefix
  rw [if_pos (by simp), String.toList_append, List.drop_left, String.ofList_toList]

theorem entryIdFrom_entryRef (scope : MemoryScope) (id : MemoryEntryId) :
    entryIdFrom scope (entryRef scope id) = some id := by
  have hnew : Phrase.new id.asStr = .ok id := Phrase.new_eq_ok.mpr id.valid
  unfold entryIdFrom entryRef
  rw [stripPrefix_append]
  simp [hnew, Except.toOption]

section Colons

theorem colon_continued {a b x y : String} (hle : a.toList <+: b.toList)
    (h : a ++ ":" ++ x = b ++ ":" ++ y) :
    (a = b ∧ x = y) ∨ ∃ m, b = a ++ ":" ++ m ∧ x = m ++ ":" ++ y := by
  obtain ⟨m, hm⟩ := hle
  have hl : a.toList ++ ':' :: x.toList = b.toList ++ ':' :: y.toList := by
    have hlist := congrArg String.toList h
    simpa using hlist
  rw [← hm, List.append_assoc, List.append_cancel_left_eq] at hl
  cases m with
  | nil =>
    have hx : x.toList = y.toList := by simpa using hl
    exact .inl ⟨String.toList_inj.mp (by simpa using hm), String.toList_inj.mp hx⟩
  | cons c m =>
    obtain ⟨rfl, hx⟩ := List.cons.inj hl
    refine .inr ⟨String.ofList m, String.toList_inj.mp ?_, String.toList_inj.mp ?_⟩
    · simp [← hm]
    · simp [hx]

/-- Two texts joined at colons come apart alike, or the first part of one goes
on at a colon into the other text. -/
theorem colon_overlap {a b x y : String} (h : a ++ ":" ++ x = b ++ ":" ++ y) :
    (a = b ∧ x = y) ∨ (∃ m, b = a ++ ":" ++ m ∧ x = m ++ ":" ++ y) ∨
      ∃ m, a = b ++ ":" ++ m ∧ y = m ++ ":" ++ x := by
  have hl : a.toList ++ (":" ++ x).toList = b.toList ++ (":" ++ y).toList := by
    rw [← String.toList_append, ← String.toList_append, ← String.append_assoc, h,
      String.append_assoc]
  rcases List.prefix_or_prefix_of_prefix (List.prefix_append a.toList _)
    (hl ▸ List.prefix_append b.toList _) with hle | hle
  · rcases colon_continued hle h with heq | hm
    · exact .inl heq
    · exact .inr (.inl hm)
  · rcases colon_continued hle h.symm with ⟨hba, hyx⟩ | hm
    · exact .inl ⟨hba.symm, hyx.symm⟩
    · exact .inr (.inr hm)

theorem colon_mem_append (a b : String) : ':' ∈ (a ++ ":" ++ b).toList := by
  simp

end Colons

section References

variable {session session' : CeremonyId} {record record' : CeremonyRecordRef}

/-- The id of one session goes on into the name of a record on the agenda of
another, and stops where the name of a record of its own begins. -/
def Continues (session : CeremonyId) (record : CeremonyRecordRef) (session' : CeremonyId)
    (record' : CeremonyRecordRef) : Prop :=
  nameWord record = "agenda" ∧
    ((session'.asStr = session.asStr ++ ":agenda" ∧ nameRest record = entryText record') ∨
      ∃ m, session'.asStr = session.asStr ++ ":agenda:" ++ m ∧
        nameRest record = m ++ ":" ++ entryText record')

theorem colon_mem_entryText (record : CeremonyRecordRef) : ':' ∈ (entryText record).toList := by
  rw [entryText_eq]
  exact colon_mem_append _ _

theorem colon_notMem_snakeCase {rule : TextRule} (t : Text rule) (h : rule.allowed = isSnakeCase) :
    ':' ∉ t.asStr.toList := by
  intro hmem
  have hallowed := t.allowed_of_mem hmem
  rw [h] at hallowed
  revert hallowed
  decide

theorem agenda_of_colon_mem (h : ':' ∈ (nameRest record).toList) : nameWord record = "agenda" := by
  cases record with
  | step stepId => exact absurd h (colon_notMem_snakeCase stepId rfl)
  | agendaItem | contribution => rfl
  | guardDecision guardName => exact absurd h (colon_notMem_snakeCase guardName rfl)
  | transition ordinal => exact absurd h (colon_notMem_repr _)

theorem continues_iff :
    Continues session record session' record' ↔
      ∃ m, session'.asStr = session.asStr ++ ":" ++ m ∧
        entryText record = m ++ ":" ++ entryText record' := by
  rw [entryText_eq record]
  constructor
  · rintro ⟨hword, ⟨hsession, hrest⟩ | ⟨m, hsession, hrest⟩⟩
    · refine ⟨"agenda", ?_, by rw [hword, hrest]⟩
      rw [hsession, String.append_assoc]
      rfl
    · refine ⟨"agenda:" ++ m, ?_, ?_⟩
      · rw [hsession, String.append_assoc, String.append_assoc]
        rfl
      · rw [hword, hrest]
        simp only [String.append_assoc]
        rfl
  · rintro ⟨m, hsession, hname⟩
    rcases colon_overlap hname with ⟨hword, hrest⟩ | ⟨k, hm, hrest⟩ | ⟨k, hword, -⟩
    · have hagenda : nameWord record = "agenda" :=
        agenda_of_colon_mem (hrest ▸ colon_mem_entryText record')
      refine ⟨hagenda, .inl ⟨?_, hrest⟩⟩
      rw [hsession, ← hword, hagenda, String.append_assoc]
      rfl
    · have hagenda : nameWord record = "agenda" :=
        agenda_of_colon_mem (hrest ▸ colon_mem_append _ _)
      refine ⟨hagenda, .inr ⟨k, ?_, hrest⟩⟩
      rw [hsession, hm, hagenda]
      simp only [String.append_assoc]
      rfl
    · exact absurd (hword ▸ colon_mem_append m k) (colon_notMem_nameWord record)

/-- Two different records that come to one reference. -/
def Clash (session : CeremonyId) (record : CeremonyRecordRef) (session' : CeremonyId)
    (record' : CeremonyRecordRef) : Prop :=
  (session = session' ∧ (ReadsAs record record' ∨ ReadsAs record' record)) ∨
    Continues session record session' record' ∨ Continues session' record' session record

theorem entryText_of_readsAs (h : ReadsAs record record') : entryText record = entryText record' := by
  obtain ⟨item, item', ordinal, rfl, rfl, hitem⟩ := h
  rw [entryText_eq, entryText_eq, ← hitem]
  rfl

theorem ne_of_readsAs (h : ReadsAs record record') : record ≠ record' := by
  obtain ⟨item, item', ordinal, rfl, rfl, -⟩ := h
  simp

theorem ne_of_continues (h : Continues session record session' record') : session ≠ session' := by
  obtain ⟨m, hsession, -⟩ := continues_iff.mp h
  rintro rfl
  have hlength := congrArg String.length hsession
  simp only [String.length_append] at hlength
  have hcolon : ":".length = 1 := rfl
  omega

theorem same_place_iff :
    session.asStr ++ ":" ++ entryText record = session'.asStr ++ ":" ++ entryText record' ↔
      (session = session' ∧ record = record') ∨ Clash session record session' record' := by
  constructor
  · intro h
    rcases colon_overlap h with ⟨hsession, hname⟩ | hm | hm
    · have hsame : session = session' := Text.ext hsession
      rcases eq_of_entryText_eq hname with heq | hreads
      · exact .inl ⟨hsame, heq⟩
      · exact .inr (.inl ⟨hsame, hreads⟩)
    · exact .inr (.inr (.inl (continues_iff.mpr hm)))
    · exact .inr (.inr (.inr (continues_iff.mpr hm)))
  · rintro (⟨rfl, rfl⟩ | ⟨rfl, hreads | hreads⟩ | hcontinues | hcontinues)
    · rfl
    · rw [entryText_of_readsAs hreads]
    · rw [entryText_of_readsAs hreads]
    · obtain ⟨m, hsession, hname⟩ := continues_iff.mp hcontinues
      rw [hsession, hname]
      simp only [String.append_assoc]
    · obtain ⟨m, hsession, hname⟩ := continues_iff.mp hcontinues
      rw [hsession, hname]
      simp only [String.append_assoc]

theorem not_same_of_clash (h : Clash session record session' record') :
    ¬ (session = session' ∧ record = record') := by
  rintro ⟨rfl, rfl⟩
  rcases h with ⟨-, hreads | hreads⟩ | hcontinues | hcontinues
  · exact ne_of_readsAs hreads rfl
  · exact ne_of_readsAs hreads rfl
  · exact ne_of_continues hcontinues rfl
  · exact ne_of_continues hcontinues rfl

theorem entryRef_eq_iff {scope scope' : MemoryScope} {id id' : MemoryEntryId}
    (hscope : MemoryScope.ofCeremony session = .ok scope) (hid : entryId record = .ok id)
    (hscope' : MemoryScope.ofCeremony session' = .ok scope') (hid' : entryId record' = .ok id') :
    entryRef scope id = entryRef scope' id' ↔
      session.asStr ++ ":" ++ entryText record = session'.asStr ++ ":" ++ entryText record' := by
  unfold entryRef
  rw [ofCeremony_asStr hscope, ofCeremony_asStr hscope', entryId_asStr hid, entryId_asStr hid']
  simp only [String.append_assoc, String.append_right_inj]

end References

/-- References are unambiguous but for the records whose names, or the names of
whose sessions, read into one another at a colon. -/
theorem references_unambiguous_iff {session session' : CeremonyId}
    {record record' : CeremonyRecordRef} {scope scope' : MemoryScope} {id id' : MemoryEntryId}
    (hscope : MemoryScope.ofCeremony session = .ok scope) (hid : entryId record = .ok id)
    (hscope' : MemoryScope.ofCeremony session' = .ok scope') (hid' : entryId record' = .ok id') :
    ((entryRef scope id = entryRef scope' id' → session = session' ∧ record = record') ∧
        entryIdFrom scope (entryRef scope id) = some id) ↔
      ¬ Clash session record session' record' := by
  rw [entryRef_eq_iff hscope hid hscope' hid', same_place_iff]
  simp only [entryIdFrom_entryRef, and_true]
  constructor
  · intro hunique hclash
    exact not_same_of_clash hclash (hunique (.inr hclash))
  · rintro hnot (hsame | hclash)
    · exact hsame
    · exact absurd hclash hnot

def reviewSession : CeremonyId := ⟨"review", by decide⟩

def scopeSession : CeremonyId := ⟨"review:agenda:scope", by decide⟩

def budgetRecord : CeremonyRecordRef := .contribution ⟨"budget", by decide⟩ 0

def scopeBudgetRecord : CeremonyRecordRef := .contribution ⟨"scope:agenda:budget", by decide⟩ 0

def reviewScope : MemoryScope := ⟨"ceremony:review", by decide⟩

def scopeScope : MemoryScope := ⟨"ceremony:review:agenda:scope", by decide⟩

def budgetEntry : MemoryEntryId := ⟨"agenda:budget:contribution:0", by decide⟩

def scopeBudgetEntry : MemoryEntryId := ⟨"agenda:scope:agenda:budget:contribution:0", by decide⟩

theorem references_clash :
    MemoryScope.ofCeremony reviewSession = .ok reviewScope ∧
      entryId scopeBudgetRecord = .ok scopeBudgetEntry ∧
      MemoryScope.ofCeremony scopeSession = .ok scopeScope ∧
      entryId budgetRecord = .ok budgetEntry ∧
      reviewSession ≠ scopeSession ∧ scopeBudgetRecord ≠ budgetRecord ∧
      entryRef reviewScope scopeBudgetEntry = entryRef scopeScope budgetEntry :=
  ⟨Phrase.new_eq_ok.mpr (by decide), Phrase.new_eq_ok.mpr (by decide),
    Phrase.new_eq_ok.mpr (by decide), Phrase.new_eq_ok.mpr (by decide), by decide, by decide,
    by decide⟩

theorem references_unambiguous_review :
    ((entryRef reviewScope budgetEntry = entryRef reviewScope scopeBudgetEntry →
        reviewSession = reviewSession ∧ budgetRecord = scopeBudgetRecord) ∧
      entryIdFrom reviewScope (entryRef reviewScope budgetEntry) = some budgetEntry) ↔
      ¬ Clash reviewSession budgetRecord reviewSession scopeBudgetRecord :=
  references_unambiguous_iff (Phrase.new_eq_ok.mpr (by decide)) (Phrase.new_eq_ok.mpr (by decide))
    (Phrase.new_eq_ok.mpr (by decide)) (Phrase.new_eq_ok.mpr (by decide))

end Choreographer.KernelReferences
