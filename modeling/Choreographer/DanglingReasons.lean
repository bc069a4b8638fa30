import Choreographer.MemoryShelves

namespace Choreographer.DanglingReasons

open Choreographer.Lib.SortedMaps Choreographer.Lib.Updates Choreographer.Lib.Runs
open Choreographer.Texts Choreographer.Values Choreographer.DefinitionParts Choreographer.Definition
open Choreographer.Agenda Choreographer.Instance Choreographer.Works
open Choreographer.MemoryValues Choreographer.SessionMemory Choreographer.MemoryProjection
open Choreographer.MemoryRecorder Choreographer.MemoryRuns Choreographer.MemoryShelves

variable {i i' : CeremonyInstance} {shelf : Remembered} {v : Visit} {record : CeremonyRecordRef}

/-- Both ends of every reason are remembered, too. -/
def Whole (_ : CeremonyInstance) (shelf : Remembered) : Prop :=
  ∀ edge ∈ shelf.relations, shelf.Holds edge.fromEntry ∧ shelf.Holds edge.toEntry

/-- Whoever gives a reason gives it between records there are entries for. -/
def Founded (i : CeremonyInstance) (shelf : Remembered) (v : Visit) : Prop :=
  v.kept = true → ∀ fromRecord toRecord, Relates i v fromRecord toRecord →
    Has shelf fromRecord ∧ Has shelf toRecord

theorem whole_leaves (hcommit : v.commits i = some i') (hfiled : Filed i shelf)
    (h : Whole i shelf) : Whole i' (v.leaves i' shelf) ↔ Founded i shelf v := by
  by_cases hgives : v.kept = true ∧ ∃ fromRecord toRecord, Relates i v fromRecord toRecord
  · obtain ⟨hkept, f, t, hrelates⟩ := hgives
    obtain ⟨edge, hf, ht, hentries, hrelations⟩ := leaves_relates hcommit hfiled hkept hrelates
    have hnew : Whole i' (v.leaves i' shelf) ↔ Has shelf f ∧ Has shelf t := by
      simp only [Whole, hrelations, holds_of_entries hentries, has_iff hf, has_iff ht]
      constructor
      · exact fun hall => hall edge (by simp)
      · intro hboth other hother
        rcases List.mem_append.mp hother with hold | hlast
        · exact h other hold
        · rw [List.mem_singleton.mp hlast]
          exact hboth
    rw [hnew]
    constructor
    · intro hboth _ f' t' hrelates'
      obtain ⟨⟨_, _, _, _, _, hwork⟩, -⟩ := hrelates
      obtain ⟨⟨_, _, _, _, _, hwork'⟩, -⟩ := hrelates'
      rw [hwork] at hwork'
      obtain ⟨-, -, rfl, rfl, -⟩ := Work.assertReason.inj hwork'
      exact hboth
    · exact fun hfounded => hfounded hkept f t hrelates
  · refine iff_of_true ?_ fun hkept f t hrelates => absurd ⟨hkept, f, t, hrelates⟩ hgives
    rcases leaves_cases hcommit shelf with hsame | ⟨_, entry, r, -, hasks, -, hkey, hleaves⟩ | hg
    · rwa [hsame]
    · rw [hleaves]
      intro edge hedge
      rw [Remembered.extend_fresh hkey, hasks.relations, List.append_nil] at hedge
      obtain ⟨hfrom, hto⟩ := h edge hedge
      rw [holds_extend_entry hasks.entries hkey, holds_extend_entry hasks.entries hkey]
      exact ⟨.inr hfrom, .inr hto⟩
    · exact absurd hg hgives

/-- A call makes an entry for this record, and memory takes it. -/
def Lands (w : World) (id : CeremonyId) (record : CeremonyRecordRef) : Event → Prop
  | .opens .. => False
  | .calls v => v.id = id ∧ v.kept = true ∧ ∃ i i' entry, w.sessions id = some i ∧
      v.commits i = some i' ∧ Makes v.definition i' v.work record entry

/-- An earlier call did. -/
def Landed (events : List Event) (id : CeremonyId) (record : CeremonyRecordRef) : Prop :=
  ∃ before e later, events = before ++ e :: later ∧
    Lands (run Event.after before World.new) id record e

theorem has_after {w : World} (hw : Lawful w) (hfiled : AllSessions Filed w) {id : CeremonyId}
    (hscope : ∃ scope, MemoryScope.ofCeremony id = .ok scope) (hm : Memorable record) (e : Event) :
    Has ((e.after w).held id) record ↔ Has (w.held id) record ∨ Lands w id record e := by
  cases e with
  | opens other d context now bound =>
    simp only [Lands, or_false]
    cases hs : w.sessions other with
    | none => rw [held_after_opens hs]
    | some i =>
      rw [Event.after]
      simp only [hs]
  | calls v =>
    cases hc : (w.sessions v.id).bind v.commits with
    | none =>
      rw [after_calls_idle hc]
      refine (or_iff_left ?_).symm
      rintro ⟨rfl, -, i, i', entry, hi, hcommit, -⟩
      simp [hi, hcommit] at hc
    | some i' =>
      obtain ⟨i, hi, hcommit⟩ := Option.bind_eq_some_iff.mp hc
      rw [held_after_commit hi hcommit hw]
      split_ifs with hid
      · subst hid
        rw [← hw.own _ _ hi] at hscope
        constructor
        · rintro ⟨eid, hname, hholds⟩
          rw [holds_leaves hcommit (hfiled _ _ hi) hscope hm hname] at hholds
          rcases hholds with hold | ⟨hkept, entry, hmakes⟩
          · exact .inl ⟨eid, hname, hold⟩
          · exact .inr ⟨rfl, hkept, i, i', entry, hi, hcommit, hmakes⟩
        · rintro (⟨eid, hname, hold⟩ | ⟨-, hkept, j, j', entry, hj, hj', hmakes⟩)
          · refine ⟨eid, hname, ?_⟩
            rw [holds_leaves hcommit (hfiled _ _ hi) hscope hm hname]
            exact .inl hold
          · rw [hi] at hj
            obtain rfl := Option.some.inj hj
            rw [hcommit] at hj'
            obtain rfl := Option.some.inj hj'
            refine ⟨entry.id, hmakes.named, ?_⟩
            rw [holds_leaves hcommit (hfiled _ _ hi) hscope hm hmakes.named]
            exact .inr ⟨hkept, entry, hmakes⟩
      · refine (or_iff_left ?_).symm
        rintro ⟨rfl, -⟩
        exact hid rfl

theorem has_run_iff {id : CeremonyId} (hscope : ∃ scope, MemoryScope.ofCeremony id = .ok scope)
    (hm : Memorable record) (events : List Event) :
    Has ((run Event.after events World.new).held id) record ↔ Landed events id record := by
  induction events using List.reverseRecOn with
  | nil =>
    rw [run_nil, lawful_new.blank id rfl]
    constructor
    · rintro ⟨_, -, entry, hentry, -⟩
      simp [Remembered.empty] at hentry
    · rintro ⟨before, e, later, h, -⟩
      simp at h
  | append_singleton events e ih =>
    rw [run_concat, has_after (lawful_run events) (filed_run events) hscope hm, ih, Landed, Landed,
      exists_split_concat]

/-- Whatever is recalled of a session, no reason of it leads nowhere. -/
def NothingDangles (w : World) : Prop :=
  ∀ id scope, MemoryScope.ofCeremony id = .ok scope →
    ∀ edge ∈ (w.memory.recallAll scope).relations,
      (∃ entry ∈ (w.memory.recallAll scope).entries, entry.id = edge.fromEntry) ∧
      ∃ entry ∈ (w.memory.recallAll scope).entries, entry.id = edge.toEntry

theorem nothingDangles_iff {w : World} (hw : Lawful w) :
    NothingDangles w ↔ AllSessions Whole w := by
  have hheld {id : CeremonyId} {scope : MemoryScope} (h : MemoryScope.ofCeremony id = .ok scope) :
      w.held id = w.memory.held scope := by
    simp only [World.held, heldOf, h]
  simp only [NothingDangles, InProcessSessionMemory.recallAll_eq, MemoryRecollection.relations,
    MemoryRecollection.entries]
  constructor
  · intro h id i hi edge hedge
    cases hscope : MemoryScope.ofCeremony id with
    | error e => simp [World.held, heldOf, hscope, Remembered.empty] at hedge
    | ok scope =>
      rw [hheld hscope] at hedge ⊢
      exact h id scope hscope edge hedge
  · intro h id scope hscope edge hedge
    rw [← hheld hscope] at hedge ⊢
    cases hi : w.sessions id with
    | none =>
      rw [hw.blank id hi] at hedge
      simp [Remembered.empty] at hedge
    | some i => exact h id i hi edge hedge

/-- All along, no reason in memory dangles, if and only if each that memory took was between
records it had taken an entry for before. -/
theorem nothing_dangles_iff (events : List Event) :
    (∀ before later, events = before ++ later →
      NothingDangles (run Event.after before World.new)) ↔
    ∀ before v later, events = before ++ .calls v :: later → v.kept = true →
      ∀ i, (run Event.after before World.new).sessions v.id = some i →
        (v.commits i).isSome = true → ∀ fromRecord toRecord, Relates i v fromRecord toRecord →
          Landed before v.id fromRecord ∧ Landed before v.id toRecord := by
  have hrun := @allSessions_always_iff Filed Whole Founded (fun _ => True) filed_opened
    (fun _ _ _ _ _ hcommit h => filed_leaves hcommit h) (fun _ _ _ _ _ edge h => by
      simp [Remembered.empty] at h)
    (fun _ _ _ _ _ hcommit hfiled h => whole_leaves hcommit hfiled h) events fun _ _ => trivial
  simp only [nothingDangles_iff (lawful_run _)]
  rw [hrun]
  constructor
  · intro h before v later hsplit hkept i hi hcommit f t hrelates
    obtain ⟨hf, ht⟩ := h before (.calls v) later hsplit i hi hcommit hkept f t hrelates
    obtain ⟨-, hscope, hfrom, hto⟩ := hrelates
    rw [(lawful_run before).own _ _ hi] at hscope
    exact ⟨(has_run_iff hscope (memorable_of_isRemembered hfrom) before).mp hf,
      (has_run_iff hscope (memorable_of_isRemembered hto) before).mp ht⟩
  · intro h before e later hsplit
    cases e with
    | opens => trivial
    | calls v =>
      intro i hi hcommit hkept f t hrelates
      obtain ⟨hf, ht⟩ := h before v later hsplit hkept i hi hcommit f t hrelates
      obtain ⟨-, hscope, hfrom, hto⟩ := hrelates
      rw [(lawful_run before).own _ _ hi] at hscope
      exact ⟨(has_run_iff hscope (memorable_of_isRemembered hfrom) before).mpr hf,
        (has_run_iff hscope (memorable_of_isRemembered hto) before).mpr ht⟩

section Blackout

def dark : StateId := ⟨"dark", by decide⟩
def lit : StateId := ⟨"lit", by decide⟩
def switch : TransitionTrigger := ⟨"switch", by decide⟩
def clear : GuardName := ⟨"lines_clear", by decide⟩
def engineer : RoleId := ⟨"engineer", by decide⟩
def cause : CeremonyInterventionId := ⟨"cause", by decide⟩
def outage : CeremonyId := ⟨"outage", by decide⟩

/-- The lights go on again once the lines are clear. -/
def blackout : CeremonyDefinition :=
  (CeremonyDefinition.new ⟨"blackout", by decide⟩ versionOne none [] []
    [⟨dark, .initial⟩, ⟨lit, .terminal⟩] [⟨dark, lit, switch, OrdSet.ofList [clear]⟩]
    [] [⟨clear, .humanApproval⟩]
    [⟨engineer, OrdSet.ofList [.transition switch, .requestIntervention, .respondToIntervention],
      by decide⟩]).toOption.get (by decide +kernel)

def visit (now : Int) (work : Work) (kept : Bool) : Event :=
  .calls ⟨outage, work, blackout, ⟨now, 0⟩, true, kept⟩

def found : CeremonyInterventionContent := ⟨⟨"a tree on the line", by decide⟩, Attributes.empty⟩

/-- Memory is away while the engineer says what was found, and back when the engineer says what
followed from it. -/
def blinked : List Event :=
  [.opens outage blackout CeremonyContext.empty ⟨0, 0⟩ none,
    visit 1 (.request cause engineer .human .investigation .table found none) true,
    visit 2 (.respond cause engineer .human found) false,
    visit 3 (.approve clear engineer .human) true,
    visit 4 (.assertReason engineer .human (.guardDecision clear) (.contribution cause 0)
      .followsFrom "the tree is gone" .high) true]

def outageScope : MemoryScope := ⟨"ceremony:outage", by decide⟩

theorem ofCeremony_outage : MemoryScope.ofCeremony outage = .ok outageScope :=
  Phrase.new_eq_ok.mpr (by decide)

theorem blinked_recalled :
    ((run Event.after blinked World.new).memory.recallAll outageScope).relations.map
        (fun edge => edge.toEntry.asStr) = ["agenda:cause:contribution:0"] ∧
      ((run Event.after blinked World.new).memory.recallAll outageScope).entries.map
        (fun entry => entry.id.asStr) = ["guard:lines_clear"] := by decide +kernel

theorem blinked_dangles : ¬ ∀ events, NothingDangles (run Event.after events World.new) := by
  intro h
  obtain ⟨hrelations, hentries⟩ := blinked_recalled
  have hsent : "agenda:cause:contribution:0" ∈
      ((run Event.after blinked World.new).memory.recallAll outageScope).relations.map
        (fun edge => edge.toEntry.asStr) := by
    rw [hrelations]
    exact List.mem_singleton_self _
  obtain ⟨edge, hedge, hto⟩ := List.mem_map.mp hsent
  obtain ⟨-, entry, hentry, hid⟩ := h blinked outage outageScope ofCeremony_outage edge hedge
  have hheld := List.mem_map_of_mem (f := fun entry : MemoryEntry => entry.id.asStr) hentry
  rw [hentries, List.mem_singleton] at hheld
  rw [hid, hto] at hheld
  exact absurd hheld (by decide)

end Blackout

end Choreographer.DanglingReasons
