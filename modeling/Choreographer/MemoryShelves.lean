import Choreographer.MemoryRuns
import Choreographer.ReasonGraph

namespace Choreographer.MemoryShelves

open Choreographer.Lib.SortedMaps Choreographer.Lib.Updates Choreographer.Lib.Runs
open Choreographer.Texts Choreographer.Values Choreographer.Definition Choreographer.Agenda
open Choreographer.Instance Choreographer.Operations Choreographer.SessionFacts
open Choreographer.Works Choreographer.MemoryValues Choreographer.SessionMemory
open Choreographer.MemoryProjection Choreographer.MemoryRecorder Choreographer.MemoryRuns
open Choreographer.SessionRecords

variable {i i' : CeremonyInstance} {shelf : Remembered} {v : Visit} {record : CeremonyRecordRef}
  {entry : MemoryEntry} {r : MemoryRequest}

/-- What memory has of a session is in order, whatever was refused. -/
structure Filed (i : CeremonyInstance) (shelf : Remembered) : Prop where
  distinct : Distinct i
  nodup : (shelf.entries.map MemoryEntry.id).Nodup
  keyed : ∀ record id, Memorable record → entryId record = .ok id →
    (shelf.keys.contains (keyOf i.id id.asStr) = true ↔ shelf.Holds id)
  backed : ∀ entry ∈ shelf.entries, ∃ record, Memorable record ∧ entryId record = .ok entry.id ∧
    OnRecord i record
  unasked : ∀ n, i.reasons.length ≤ n →
    shelf.keys.contains (keyOf i.id ("reason:" ++ n.repr)) = false

theorem entryText_ne_reason (hm : Memorable record) (n : Nat) :
    entryText record ≠ "reason:" ++ n.repr := by
  intro h
  have hlist := congrArg String.toList h
  cases record with
  | step | agendaItem => exact hm
  | contribution | guardDecision | transition => simp [entryText] at hlist

theorem makes_onRecord {d : CeremonyDefinition} {work : Work} (h : Makes d i work record entry) :
    OnRecord i record := by
  cases h with
  | contribution hwork hitem hordinal hentry =>
    obtain ⟨-, item, response, hitem, hresponse, -⟩ := contributionEntry_ok hentry
    have hlt := (List.getElem?_eq_some_iff.mp hresponse).1
    simp [OnRecord, CeremonyInstance.requireRecord, hitem, hlt]
  | decision hwork hentry =>
    obtain ⟨-, ⟨approval, happroval, -⟩ | ⟨-, deferral, hdeferral, -⟩⟩ := guardEntry_ok hentry
    · have hany := List.any_eq_true.mpr
        ⟨approval, List.mem_of_find?_eq_some happroval, List.find?_some happroval⟩
      simp only [OnRecord, CeremonyInstance.requireRecord, require_eq_ok, hany, Bool.true_or]
    · have hany := List.any_eq_true.mpr
        ⟨deferral, List.mem_of_find?_eq_some hdeferral, List.find?_some hdeferral⟩
      simp only [OnRecord, CeremonyInstance.requireRecord, require_eq_ok, hany, Bool.or_true]
  | ending hentry =>
    obtain ⟨-, ⟨ordinal, rfl, hlast⟩, ending, hending, -⟩ := endingEntry_ok hentry
    have hne : i.transitions ≠ [] := by
      rintro hnil
      simp [hnil] at hending
    have hpos := List.length_pos_iff.mpr hne
    simp only [OnRecord, CeremonyInstance.requireRecord, require_eq_ok, Bool.and_eq_true,
      decide_eq_true_eq]
    omega

theorem filed_onward (honward : Onward i i') (hid : i'.id = i.id) (hd : Distinct i')
    (h : Filed i shelf) : Filed i' shelf where
  distinct := hd
  nodup := h.nodup
  keyed := by
    rw [hid]
    exact h.keyed
  backed entry hentry := by
    obtain ⟨record, hm, hname, hrecord⟩ := h.backed entry hentry
    exact ⟨record, hm, hname, onRecord_onward honward hd hrecord⟩
  unasked n hn := by
    rw [hid]
    exact h.unasked n (honward.reasons.length_le.trans hn)

theorem holds_extend_entry (hentries : r.write.entries = [entry])
    (hfresh : shelf.keys.contains r.key = false) (id : MemoryEntryId) :
    (shelf.extend r.write r.key).Holds id ↔ id = entry.id ∨ shelf.Holds id := by
  rw [Remembered.extend_fresh hfresh, hentries]
  simp only [Remembered.Holds, List.mem_append, List.mem_singleton]
  constructor
  · rintro ⟨other, hold | rfl, rfl⟩
    · exact .inr ⟨other, hold, rfl⟩
    · exact .inl rfl
  · rintro (rfl | ⟨other, hold, rfl⟩)
    · exact ⟨entry, .inr rfl, rfl⟩
    · exact ⟨other, .inl hold, rfl⟩

theorem filed_entry (hasks : AsksEntry i entry r) (hm : Memorable record)
    (hname : entryId record = .ok entry.id) (hrecord : OnRecord i record) (h : Filed i shelf) :
    Filed i (shelf.extend r.write r.key) := by
  cases hkey : shelf.keys.contains r.key with
  | true => rwa [Remembered.extend_again hkey]
  | false =>
    have habsent : ¬ shelf.Holds entry.id := by
      rw [← h.keyed record entry.id hm hname, ← hasks.key, hkey]
      simp
    refine ⟨h.distinct, ?_, ?_, ?_, ?_⟩
    · rw [Remembered.extend_fresh hkey, hasks.entries, List.map_append, List.nodup_append]
      refine ⟨h.nodup, by simp, ?_⟩
      intro id hold other hnew he
      obtain ⟨e, hmem, rfl⟩ := List.mem_map.mp hold
      rw [List.map_singleton, List.mem_singleton] at hnew
      exact habsent ⟨e, hmem, he.trans hnew⟩
    · intro other id hother hid
      rw [holds_extend_entry hasks.entries hkey, Remembered.keys_extend, Bool.or_eq_true,
        decide_eq_true_eq, h.keyed other id hother hid, hasks.key]
      apply or_congr_left
      constructor
      · exact fun he => Phrase.ext (keyOf_inj he)
      · exact fun he => by rw [he]
    · rw [Remembered.extend_fresh hkey, hasks.entries]
      intro other hother
      rcases List.mem_append.mp hother with hold | hnew
      · exact h.backed other hold
      · rw [List.mem_singleton.mp hnew]
        exact ⟨record, hm, hname, hrecord⟩
    · intro n hn
      rw [Remembered.keys_extend, h.unasked n hn, hasks.key, Bool.or_false, decide_eq_false_iff_not]
      intro he
      have htext := (entryId_asStr hname).symm.trans (keyOf_inj he).symm
      exact entryText_ne_reason hm n htext

theorem filed_relation {n : Nat} {edge : MemoryRelation} (hlen : i'.reasons.length = n + 1)
    (hid : i'.id = i.id) (hbefore : i.reasons.length = n) (hasks : AsksRelation i' n edge r)
    (hold : Filed i shelf) (h : Filed i' shelf) : Filed i' (shelf.extend r.write r.key) := by
  have hkey : shelf.keys.contains r.key = false := by
    rw [hasks.key, hid]
    exact hold.unasked n hbefore.le
  have hentries : (shelf.extend r.write r.key).entries = shelf.entries := by
    rw [Remembered.extend_fresh hkey, hasks.entries, List.append_nil]
  refine ⟨h.distinct, by rw [hentries]; exact h.nodup, ?_, by rw [hentries]; exact h.backed, ?_⟩
  · intro record id hm hname
    rw [Remembered.Holds, hentries, Remembered.keys_extend, Bool.or_eq_true, decide_eq_true_eq,
      h.keyed record id hm hname, hasks.key]
    constructor
    · rintro (he | hheld)
      · have htext := (entryId_asStr hname).symm.trans (keyOf_inj he)
        exact absurd htext (entryText_ne_reason hm n)
      · exact hheld
    · exact .inr
  · intro m hm
    rw [Remembered.keys_extend, h.unasked m hm, hasks.key, Bool.or_false, decide_eq_false_iff_not]
    intro he
    have hsame := decimal_injective ((String.append_right_inj _).mp (keyOf_inj he))
    omega

theorem reasons_asserted {roleId : RoleId} {fromRecord toRecord : CeremonyRecordRef}
    {kind : CeremonyReasonKind} {why : String} {confidence : MemoryConfidence}
    {roleKind : AuditActorKind} (h : v.commits i = some i')
    (hwork : v.work = .assertReason roleId roleKind fromRecord toRecord kind why confidence) :
    ∃ reason, CeremonyReason.new fromRecord toRecord kind why confidence (some roleId) v.now =
      .ok reason ∧ i' = { i with reasons := i.reasons ++ [reason], updatedAt := v.now } := by
  have hop : operation v.now v.work =
      some (.assertReason roleId fromRecord toRecord kind why confidence v.now) := by
    rw [hwork]
    rfl
  cases commits_effect h hop with
  | assertReason matching declared hfrom hto entitled hreason => exact ⟨_, hreason, rfl⟩

theorem filed_leaves (hcommit : v.commits i = some i') (h : Filed i shelf) :
    Filed i' (v.leaves i' shelf) := by
  have hid := commits_id hcommit
  have hmoved := filed_onward (commits_onward hcommit) hid (commits_distinct hcommit h.distinct) h
  unfold Visit.leaves
  cases hr : request v.definition i' v.work with
  | none => exact hmoved
  | some r =>
    dsimp only
    split
    · rcases request_cases hr with ⟨record, entry, hmakes, hasks⟩ |
        ⟨_, _, _, _, _, _, _, _, edge, hwork, -, -, hasks⟩
      · exact filed_entry hasks hmakes.memorable hmakes.named (makes_onRecord hmakes) hmoved
      · obtain ⟨reason, -, hi'⟩ := reasons_asserted hcommit hwork
        have hlen : i'.reasons.length = i.reasons.length + 1 := by
          rw [hi']
          exact List.length_append
        have hlast : i'.reasons.length - 1 = i.reasons.length := by omega
        rw [hlast] at hasks
        exact filed_relation hlen hid rfl hasks h hmoved
    · exact hmoved

theorem filed_opened (id : CeremonyId) (d : CeremonyDefinition) (context : CeremonyContext)
    (now : OffsetDateTime) (bound : Option CeremonyDefinitionDigest) :
    Filed (CeremonyInstance.opened id d context now bound) Remembered.empty where
  distinct := List.nodup_nil
  nodup := List.nodup_nil
  keyed _ _ _ _ := by simp [Remembered.empty, Remembered.Holds, OrdMap.contains]
  backed := by simp [Remembered.empty]
  unasked _ _ := rfl

theorem entries_leaves (v : Visit) (i' : CeremonyInstance) (shelf : Remembered) :
    shelf.entries <+: (v.leaves i' shelf).entries := by
  unfold Visit.leaves
  split
  · next r _ =>
    split
    · cases hkey : shelf.keys.contains r.key with
      | true =>
        simpa only [Remembered.extend_again hkey] using List.prefix_rfl
      | false =>
        rw [Remembered.extend_fresh hkey]
        exact List.prefix_append _ _
    · exact List.prefix_rfl
  · exact List.prefix_rfl

theorem filed_run (events : List Event) :
    AllSessions Filed (run Event.after events World.new) :=
  @allSessions_run Filed (fun _ => True) filed_opened
    (fun _ _ _ _ _ hcommit h => filed_leaves hcommit h) events fun _ _ => trivial

/-- The call gives a reason between two records that are both taken for remembered. -/
def Relates (i : CeremonyInstance) (v : Visit) (fromRecord toRecord : CeremonyRecordRef) : Prop :=
  (∃ roleId roleKind kind why confidence,
    v.work = .assertReason roleId roleKind fromRecord toRecord kind why confidence) ∧
    (∃ scope, MemoryScope.ofCeremony i.id = .ok scope) ∧
    isRemembered i fromRecord = true ∧ isRemembered i toRecord = true

theorem memorable_of_isRemembered (h : isRemembered i record = true) : Memorable record := by
  cases record with
  | step | agendaItem => simp [isRemembered] at h
  | contribution | guardDecision | transition => trivial

theorem entryId_of_isRemembered (h : isRemembered i record = true) :
    ∃ id, entryId record = .ok id := by
  cases record with
  | step | agendaItem => simp [isRemembered] at h
  | contribution agendaItem ordinal =>
    simp only [isRemembered] at h
    split at h
    · next entry hentry => exact ⟨entry.id, (contributionEntry_ok hentry).1⟩
    · simp at h
  | guardDecision guardName =>
    simp only [isRemembered] at h
    split at h
    · next entry hentry => exact ⟨entry.id, (guardEntry_ok hentry).1⟩
    · simp at h
  | transition ordinal => exact entryId_transition ordinal

theorem relation_new_ok {fromRecord toRecord : CeremonyRecordRef} {kind : CeremonyReasonKind}
    {why : String} {confidence : MemoryConfidence} {assertedBy : Option RoleId}
    {assertedAt : OffsetDateTime} {reason : CeremonyReason}
    (h : CeremonyReason.new fromRecord toRecord kind why confidence assertedBy assertedAt =
      .ok reason)
    {fromEntry toEntry : MemoryEntryId} (hapart : fromEntry ≠ toEntry)
    (relationKind : MemoryRelationKind) :
    ∃ edge, MemoryRelation.new fromEntry toEntry relationKind reason.why reason.confidence =
      .ok edge ∧ edge.fromEntry = fromEntry ∧ edge.toEntry = toEntry := by
  unfold CeremonyReason.new at h
  split_ifs at h with _ hempty hlong
  obtain rfl := Except.ok.inj h
  have hcheck : PhraseRule.check ⟨"memory_relation.why", 512, fun _ => true⟩ (trim why) =
      .ok (trim why) :=
    PhraseRule.check_ok.mpr ⟨(trim_trim why).symm, hempty, not_lt.mp hlong, fun _ _ => rfl⟩
  have hphrase : Phrase.new (trim why) = .ok (⟨trim why, hcheck⟩ : MemoryWhy) :=
    Phrase.new_eq_ok.mpr hcheck
  refine ⟨⟨fromEntry, toEntry, relationKind, ⟨trim why, hcheck⟩, confidence, hapart⟩, ?_, rfl, rfl⟩
  rw [MemoryRelation.new, dif_neg hapart]
  simp only [hphrase]
  rfl

theorem isRemembered_asserted (reasons : List CeremonyReason) (now : OffsetDateTime) :
    isRemembered { i with reasons := reasons, updatedAt := now } = isRemembered i := by
  funext record
  cases record <;> rfl

section Relates

variable {fromRecord toRecord : CeremonyRecordRef}

theorem request_relates (hcommit : v.commits i = some i') (h : Relates i v fromRecord toRecord) :
    ∃ edge r, entryId fromRecord = .ok edge.fromEntry ∧ entryId toRecord = .ok edge.toEntry ∧
      request v.definition i' v.work = some r ∧ AsksRelation i' i.reasons.length edge r := by
  obtain ⟨⟨roleId, roleKind, kind, why, confidence, hwork⟩, ⟨scope, hscope⟩, hfrom, hto⟩ := h
  obtain ⟨reason, hreason, rfl⟩ := reasons_asserted hcommit hwork
  obtain ⟨hf, ht, -⟩ := CeremonyReason.new_ok hreason
  obtain ⟨fromEntry, hfromEntry⟩ := entryId_of_isRemembered hfrom
  obtain ⟨toEntry, htoEntry⟩ := entryId_of_isRemembered hto
  have hapart : fromEntry ≠ toEntry := by
    rintro rfl
    have hsame := entryId_inj (memorable_of_isRemembered hfrom) (memorable_of_isRemembered hto)
      hfromEntry htoEntry
    exact reason.apart (by rw [hf, ht, hsame])
  obtain ⟨edge, hedge, rfl, rfl⟩ := relation_new_ok hreason hapart (relationKind reason.kind)
  have hrelation : relation reason (isRemembered i) = .ok (some edge) := by
    simp only [relation, hf, ht, hfrom, hto, Bool.and_self, if_true, hfromEntry, htoEntry]
    exact congrArg (some <$> ·) hedge
  refine ⟨edge, ⟨scope, ⟨[], [edge], .inr (by simp)⟩, keyOf i.id ("reason:" ++ i.reasons.length.repr)⟩,
    hfromEntry, htoEntry, ?_, ⟨hscope, rfl, rfl, rfl⟩⟩
  rw [hwork]
  simp only [request, rememberReason, isRemembered_asserted, List.length_append,
    List.length_singleton, Nat.add_sub_cancel, List.getElem?_concat_length, Option.bind_eq_bind,
    Option.bind_some, hrelation]
  rw [writeWithKey_eq_some (trim_led ⟨'r', _, rfl, by decide⟩ (tidy_repr _)) (by simp)]
  exact ⟨rfl, hscope, rfl⟩

theorem leaves_relates (hcommit : v.commits i = some i') (hfiled : Filed i shelf)
    (hkept : v.kept = true) (h : Relates i v fromRecord toRecord) :
    ∃ edge, entryId fromRecord = .ok edge.fromEntry ∧ entryId toRecord = .ok edge.toEntry ∧
      (v.leaves i' shelf).entries = shelf.entries ∧
      (v.leaves i' shelf).relations = shelf.relations ++ [edge] := by
  obtain ⟨edge, r, hfrom, hto, hr, hasks⟩ := request_relates hcommit h
  have hfresh : shelf.keys.contains r.key = false := by
    rw [hasks.key, commits_id hcommit]
    exact hfiled.unasked _ le_rfl
  refine ⟨edge, hfrom, hto, ?_, ?_⟩
  · simp only [Visit.leaves, hr, hkept, if_true, Remembered.extend_fresh hfresh, hasks.entries,
      List.append_nil]
  · simp only [Visit.leaves, hr, hkept, if_true, Remembered.extend_fresh hfresh, hasks.relations]

end Relates

/-- What a call leaves in memory: nothing new, an entry nothing else goes by the name of, or a
reason. -/
theorem leaves_cases (hcommit : v.commits i = some i') (shelf : Remembered) :
    v.leaves i' shelf = shelf ∨
      (∃ record entry r, Makes v.definition i' v.work record entry ∧ AsksEntry i' entry r ∧
        v.kept = true ∧ shelf.keys.contains r.key = false ∧
        v.leaves i' shelf = shelf.extend r.write r.key) ∨
      v.kept = true ∧ ∃ fromRecord toRecord, Relates i v fromRecord toRecord := by
  cases hr : request v.definition i' v.work with
  | none => exact .inl (by simp only [Visit.leaves, hr])
  | some r =>
    cases hkept : v.kept with
    | false => exact .inl (by simp only [Visit.leaves, hr, hkept, Bool.false_eq_true, if_false])
    | true =>
      have hleaves : v.leaves i' shelf = shelf.extend r.write r.key := by
        simp only [Visit.leaves, hr, hkept, if_true]
      rcases request_cases hr with ⟨record, entry, hmakes, hasks⟩ |
        ⟨roleId, roleKind, f, t, kind, why, confidence, reason, edge, hwork, hlast, hedge, hasks⟩
      · cases hkey : shelf.keys.contains r.key with
        | true => exact .inl (by rw [hleaves, Remembered.extend_again hkey])
        | false => exact .inr (.inl ⟨record, entry, r, hmakes, hasks, rfl, hkey, hleaves⟩)
      · obtain ⟨given, hgiven, rfl⟩ := reasons_asserted hcommit hwork
        simp only [List.length_append, List.length_singleton, Nat.add_sub_cancel,
          List.getElem?_concat_length] at hlast
        obtain rfl := Option.some.inj hlast
        obtain ⟨hf, ht, -⟩ := CeremonyReason.new_ok hgiven
        rw [isRemembered_asserted, relation, hf, ht] at hedge
        split at hedge
        · next hboth =>
          rw [Bool.and_eq_true] at hboth
          exact .inr (.inr ⟨rfl, f, t, ⟨_, _, _, _, _, hwork⟩, ⟨_, hasks.scope⟩, hboth.1, hboth.2⟩)
        · simp at hedge

/-- There is an entry for this record. -/
def Has (shelf : Remembered) (record : CeremonyRecordRef) : Prop :=
  ∃ id, entryId record = .ok id ∧ shelf.Holds id

theorem has_iff {id : MemoryEntryId} (h : entryId record = .ok id) :
    Has shelf record ↔ shelf.Holds id := by
  constructor
  · rintro ⟨id', h', hholds⟩
    rw [h] at h'
    rwa [Except.ok.inj h']
  · exact fun hholds => ⟨id, h, hholds⟩

theorem holds_of_entries {shelf' : Remembered} (h : shelf'.entries = shelf.entries)
    (id : MemoryEntryId) : shelf'.Holds id ↔ shelf.Holds id := by
  rw [Remembered.Holds, h, Remembered.Holds]

theorem leaves_makes (hcommit : v.commits i = some i') (hkept : v.kept = true) {scope : MemoryScope}
    (hscope : MemoryScope.ofCeremony i.id = .ok scope) {entry : MemoryEntry}
    (hmakes : Makes v.definition i' v.work record entry) (shelf : Remembered) :
    ∃ r, AsksEntry i' entry r ∧ v.leaves i' shelf = shelf.extend r.write r.key := by
  rw [← commits_id hcommit] at hscope
  let r : MemoryRequest := ⟨scope, ⟨[entry], [], .inl (by simp)⟩, keyOf i'.id entry.id.asStr⟩
  have hasks : AsksEntry i' entry r := ⟨hscope, rfl, rfl, rfl⟩
  refine ⟨r, hasks, ?_⟩
  simp only [Visit.leaves, (request_makes hmakes).mpr hasks, hkept, if_true]

theorem holds_leaves (hcommit : v.commits i = some i') (hfiled : Filed i shelf)
    (hscope : ∃ scope, MemoryScope.ofCeremony i.id = .ok scope) (hm : Memorable record)
    {id : MemoryEntryId} (hid : entryId record = .ok id) :
    (v.leaves i' shelf).Holds id ↔ shelf.Holds id ∨ v.kept = true ∧
      ∃ entry, Makes v.definition i' v.work record entry := by
  constructor
  · intro hholds
    rcases leaves_cases hcommit shelf with hsame |
      ⟨made, entry, r, hmakes, hasks, hkept, hkey, hleaves⟩ | ⟨hkept, f, t, hrelates⟩
    · rw [hsame] at hholds
      exact .inl hholds
    · rw [hleaves, holds_extend_entry hasks.entries hkey] at hholds
      rcases hholds with rfl | hold
      · rw [entryId_inj hm hmakes.memorable hid hmakes.named]
        exact .inr ⟨hkept, entry, hmakes⟩
      · exact .inl hold
    · obtain ⟨_, -, -, hentries, -⟩ := leaves_relates hcommit hfiled hkept hrelates
      rw [holds_of_entries hentries] at hholds
      exact .inl hholds
  · rintro (hold | ⟨hkept, entry, hmakes⟩)
    · rcases leaves_cases hcommit shelf with hsame | ⟨_, _, r, -, hasks, -, hkey, hleaves⟩ |
        ⟨hkept, f, t, hrelates⟩
      · rwa [hsame]
      · rw [hleaves, holds_extend_entry hasks.entries hkey]
        exact .inr hold
      · obtain ⟨_, -, -, hentries, -⟩ := leaves_relates hcommit hfiled hkept hrelates
        rwa [holds_of_entries hentries]
    · obtain ⟨scope, hscope⟩ := hscope
      have hname := hmakes.named
      rw [hid] at hname
      have hname := Except.ok.inj hname
      obtain ⟨r, hasks, hleaves⟩ := leaves_makes hcommit hkept hscope hmakes shelf
      rw [hleaves]
      cases hkey : shelf.keys.contains r.key with
      | true =>
        rw [Remembered.extend_again hkey, hname, ← hfiled.keyed record entry.id hm hmakes.named,
          ← commits_id hcommit, ← hasks.key]
        exact hkey
      | false =>
        rw [holds_extend_entry hasks.entries hkey]
        exact .inl hname

end Choreographer.MemoryShelves
