import Choreographer.KernelPages

namespace Choreographer.KernelReads

open Choreographer.Lib.SortedMaps Choreographer.Lib.Updates
open Choreographer.Texts Choreographer.Values Choreographer.Agenda Choreographer.MemoryValues
open Choreographer.SessionMemory Choreographer.KernelPages

section Gathering

variable {moment : OffsetDateTime} {found : List (String × MemoryEntry)} {g : Gathered}
  {kept : List (String × MemoryEntry)}

/-- What was gathered of all that was found: one entry for each reference that has one the moment
allows. -/
structure Gathers (moment : OffsetDateTime) (found : List (String × MemoryEntry)) (g : Gathered)
    (kept : List (String × MemoryEntry)) : Prop where
  collected : g.collected = kept.map Prod.snd
  distinct : (kept.map Prod.fst).Nodup
  read : ∀ k ∈ kept, k ∈ found ∧ ¬ moment < k.2.provenance.observedAt
  seen : ∀ reference, g.seen.contains reference = true ↔ reference ∈ kept.map Prod.fst
  all : ∀ f ∈ found, ¬ moment < f.2.provenance.observedAt → f.1 ∈ kept.map Prod.fst

theorem gathers_nothing : Gathers moment [] Gathered.nothing [] where
  collected := rfl
  distinct := List.nodup_nil
  read k hk := absurd hk List.not_mem_nil
  seen reference := by simp [Gathered.nothing, OrdMap.contains]
  all f hf := absurd hf List.not_mem_nil

theorem Gathers.pass (h : Gathers moment found g kept) {f : String × MemoryEntry}
    (hf : moment < f.2.provenance.observedAt ∨ f.1 ∈ kept.map Prod.fst) :
    Gathers moment (found ++ [f]) g kept := by
  refine { h with read := fun k hk => ?_, all := fun f' hf' hnot => ?_ }
  · obtain ⟨hfound, hnot⟩ := h.read k hk
    exact ⟨List.mem_append_left _ hfound, hnot⟩
  · rcases List.mem_append.mp hf' with hf' | hf'
    · exact h.all f' hf' hnot
    · obtain rfl := List.mem_singleton.mp hf'
      exact hf.resolve_left hnot

theorem Gathers.addEntry (h : Gathers moment found g kept) (f : String × MemoryEntry) :
    ∃ kept, Gathers moment (found ++ [f]) (g.addEntry moment f) kept := by
  unfold Gathered.addEntry
  split_ifs with hlate hseen
  · exact ⟨kept, h.pass (.inl hlate)⟩
  · exact ⟨kept, h.pass (.inr ((h.seen f.1).mp hseen))⟩
  · have hfresh : f.1 ∉ kept.map Prod.fst := fun hmem => hseen ((h.seen f.1).mpr hmem)
    refine ⟨kept ++ [f], ?_, ?_, ?_, ?_, ?_⟩
    · simp [h.collected]
    · rw [List.map_append, List.map_cons, List.map_nil, List.nodup_append]
      refine ⟨h.distinct, List.nodup_singleton _, fun a ha b hb => ?_⟩
      obtain rfl := List.mem_singleton.mp hb
      exact fun he => hfresh (he ▸ ha)
    · intro k hk
      rcases List.mem_append.mp hk with hk | hk
      · obtain ⟨hfound, hnot⟩ := h.read k hk
        exact ⟨List.mem_append_left _ hfound, hnot⟩
      · obtain rfl := List.mem_singleton.mp hk
        exact ⟨List.mem_append_right _ (List.mem_singleton_self _), hlate⟩
    · intro reference
      rw [OrdSet.contains_add, List.map_append, List.mem_append, List.map_cons, List.map_nil,
        List.mem_singleton, Bool.or_eq_true, h.seen reference, decide_eq_true_eq, or_comm]
    · intro f' hf' hnot
      rw [List.map_append, List.mem_append]
      rcases List.mem_append.mp hf' with hf' | hf'
      · exact .inl (h.all f' hf' hnot)
      · obtain rfl := List.mem_singleton.mp hf'
        exact .inr (List.mem_singleton_self _)

theorem Gathers.addEntries (h : Gathers moment found g kept) (fs : List (String × MemoryEntry)) :
    ∃ kept, Gathers moment (found ++ fs) (fs.foldl (Gathered.addEntry moment) g) kept := by
  induction fs generalizing found g kept with
  | nil => exact ⟨kept, by simpa using h⟩
  | cons f fs ih =>
    obtain ⟨kept', h'⟩ := h.addEntry f
    obtain ⟨kept'', h''⟩ := ih h'
    exact ⟨kept'', by simpa using h''⟩

theorem mem_addReason {g : Gathered} {reason r : MemoryRelation} :
    r ∈ (g.addReason reason).reasons ↔ r ∈ g.reasons ∨ r = reason := by
  unfold Gathered.addReason
  split_ifs with hmem
  · constructor
    · exact .inl
    · rintro (hr | rfl)
      · exact hr
      · exact hmem
  · simp

theorem addReasons (g : Gathered) (reasons : List MemoryRelation) :
    (reasons.foldl Gathered.addReason g).collected = g.collected ∧
      (reasons.foldl Gathered.addReason g).seen = g.seen ∧
      ∀ r, r ∈ (reasons.foldl Gathered.addReason g).reasons ↔ r ∈ g.reasons ∨ r ∈ reasons := by
  induction reasons generalizing g with
  | nil => simp
  | cons reason reasons ih =>
    have hkeep : (g.addReason reason).collected = g.collected ∧
        (g.addReason reason).seen = g.seen := by
      unfold Gathered.addReason
      split_ifs
      · exact ⟨rfl, rfl⟩
      · exact ⟨rfl, rfl⟩
    obtain ⟨hcollected, hseen, hmem⟩ := ih (g.addReason reason)
    refine ⟨hcollected.trans hkeep.1, hseen.trans hkeep.2, fun r => ?_⟩
    rw [List.foldl_cons, hmem, mem_addReason, List.mem_cons, or_assoc]

theorem reasons_addEntries (g : Gathered) (fs : List (String × MemoryEntry)) :
    (fs.foldl (Gathered.addEntry moment) g).reasons = g.reasons := by
  induction fs generalizing g with
  | nil => rfl
  | cons f fs ih =>
    rw [List.foldl_cons, ih]
    unfold Gathered.addEntry
    split_ifs
    · rfl
    · rfl
    · rfl

theorem Gathers.addPage (h : Gathers moment found g kept) (page : RecalledPage) :
    ∃ kept, Gathers moment (found ++ page.entries) (g.addPage moment page) kept := by
  obtain ⟨hcollected, hseen, _⟩ := addReasons g page.relations
  have hreasons : Gathers moment found (page.relations.foldl Gathered.addReason g) kept :=
    { h with collected := hcollected ▸ h.collected, seen := hseen ▸ h.seen }
  exact hreasons.addEntries page.entries

theorem mem_reasons_addPage {page : RecalledPage} {r : MemoryRelation} :
    r ∈ (g.addPage moment page).reasons ↔ r ∈ g.reasons ∨ r ∈ page.relations := by
  rw [Gathered.addPage, reasons_addEntries, (addReasons g page.relations).2.2]

end Gathering

section Pages

variable (formats : Formats) (scope : MemoryScope) (moment : OffsetDateTime)

def gather (documents : List Value) : Gathered :=
  documents.foldl (fun g document => g.addPage moment (readPage formats scope document))
    Gathered.nothing

def readable (documents : List Value) : List (String × MemoryEntry) :=
  documents.flatMap fun document => (readPage formats scope document).entries

variable {formats scope moment} {documents : List Value}

theorem gather_concat (documents : List Value) (document : Value) :
    gather formats scope moment (documents ++ [document]) =
      (gather formats scope moment documents).addPage moment (readPage formats scope document) := by
  simp [gather]

theorem gathers_gather (formats : Formats) (scope : MemoryScope) (moment : OffsetDateTime)
    (documents : List Value) :
    ∃ kept, Gathers moment (readable formats scope documents)
      (gather formats scope moment documents) kept := by
  induction documents using List.reverseRecOn with
  | nil => exact ⟨[], gathers_nothing⟩
  | append_singleton documents document ih =>
    obtain ⟨kept, h⟩ := ih
    obtain ⟨kept', h'⟩ := h.addPage (readPage formats scope document)
    refine ⟨kept', ?_⟩
    rw [gather_concat]
    simpa [readable] using h'

theorem mem_reasons_gather {r : MemoryRelation} :
    r ∈ (gather formats scope moment documents).reasons ↔
      ∃ document ∈ documents, r ∈ reasons scope document := by
  induction documents using List.reverseRecOn with
  | nil => simp [gather, Gathered.nothing]
  | append_singleton documents document ih =>
    rw [gather_concat, mem_reasons_addPage, ih]
    simp only [List.mem_append, List.mem_singleton, or_and_right, exists_or, exists_eq_left]
    rfl

theorem id_of_readEntry {value : Value} {attached : OrdMap String (List MemoryEvidence)}
    {f : String × MemoryEntry} (h : readEntry formats scope value attached = some f) :
    entryIdFrom scope f.1 = some f.2.id := by
  unfold readEntry at h
  simp only [Option.bind_eq_bind, Option.bind_eq_some_iff] at h
  obtain ⟨reference, _, id, hid, kind, _, summary, _, ceremonyId, _, observedAt, _, entry, hentry,
    h⟩ := h
  have hnew : entry.id = id := by
    simp only [MemoryEntry.new] at hentry
    cases hsummary : (Phrase.new summary : Except DomainError MemorySummary) with
    | error e =>
      rw [hsummary] at hentry
      simp [bind, Except.bind, Except.toOption] at hentry
    | ok s =>
      rw [hsummary] at hentry
      obtain rfl := Option.some.inj hentry
      rfl
  split at h
  · obtain rfl := Option.some.inj h
    exact hid.trans (congrArg some hnew.symm)
  · obtain rfl := Option.some.inj h
    exact hid.trans (congrArg some hnew.symm)

theorem id_of_readable {f : String × MemoryEntry} (h : f ∈ readable formats scope documents) :
    entryIdFrom scope f.1 = some f.2.id := by
  obtain ⟨document, _, hf⟩ := List.mem_flatMap.mp h
  obtain ⟨value, _, hread⟩ := List.mem_filterMap.mp hf
  exact id_of_readEntry hread

variable (formats scope moment documents) in
/-- On these pages there is an entry of this name that the moment allows. -/
def Shown (id : MemoryEntryId) : Prop :=
  ∃ f ∈ readable formats scope documents, ¬ moment < f.2.provenance.observedAt ∧ f.2.id = id

theorem mem_collected_iff {id : MemoryEntryId} :
    id ∈ (gather formats scope moment documents).collected.map MemoryEntry.id ↔
      Shown formats scope moment documents id := by
  obtain ⟨kept, h⟩ := gathers_gather formats scope moment documents
  rw [h.collected, List.map_map]
  constructor
  · intro hid
    obtain ⟨k, hk, rfl⟩ := List.mem_map.mp hid
    obtain ⟨hfound, hnot⟩ := h.read k hk
    exact ⟨k, hfound, hnot, rfl⟩
  · rintro ⟨f, hf, hnot, rfl⟩
    obtain ⟨k, hk, hkf⟩ := List.mem_map.mp (h.all f hf hnot)
    have hid := id_of_readable (h.read k hk).1
    rw [hkf, id_of_readable hf] at hid
    exact List.mem_map.mpr ⟨k, hk, (Option.some.inj hid).symm⟩

end Pages

section Turning

variable (formats : Formats) (kernel : Kernel) (scope : MemoryScope) (moment : OffsetDateTime)

def request (arguments : Value) : Request := ("kernel_goto", arguments)

/-- Asked for the page at a cursor, after all it was asked before, the kernel answers. -/
def Answers (asked : List Request) (cursor : Option String) (arguments : Value)
    (answer : KernelAnswer) : Prop :=
  gotoArguments formats scope moment cursor = .ok arguments ∧
    kernel (asked ++ [request arguments]) = .ok answer

/-- The kernel has served these pages to one who followed its cursors, and it promises more: each
page names a cursor other than the one it was asked for by. -/
inductive Serves : List Value → List Request → Option String → Prop
  | start : Serves [] [] none
  | turn {documents asked cursor arguments document next}
      (served : Serves documents asked cursor)
      (answers : Answers formats kernel scope moment asked cursor arguments (.returned document))
      (more : nextCursor document = some next) (moved : some next ≠ cursor) :
      Serves (documents ++ [document]) (asked ++ [request arguments]) (some next)

variable {formats kernel scope moment}
variable {documents : List Value} {asked : List Request} {cursor : Option String}

theorem Serves.length (h : Serves formats kernel scope moment documents asked cursor) :
    asked.length = documents.length := by
  induction h with
  | start => rfl
  | turn _ _ _ _ ih => simp [ih]

variable (kernel) in
/-- All these documents were answers to what was asked. -/
def Returned (asked : List Request) (documents : List Value) : Prop :=
  ∀ document ∈ documents, ∃ requests, requests <+: asked ∧
    kernel requests = .ok (.returned document)

theorem Returned.concat (h : Returned kernel asked documents) {arguments document : Value}
    (hk : kernel (asked ++ [request arguments]) = .ok (.returned document)) :
    Returned kernel (asked ++ [request arguments]) (documents ++ [document]) := by
  intro d hd
  rcases List.mem_append.mp hd with hd | hd
  · obtain ⟨requests, hbefore, hreturned⟩ := h d hd
    exact ⟨requests, hbefore.trans (List.prefix_append ..), hreturned⟩
  · obtain rfl := List.mem_singleton.mp hd
    exact ⟨_, List.prefix_rfl, hk⟩

theorem Serves.returned (h : Serves formats kernel scope moment documents asked cursor) :
    Returned kernel asked documents := by
  induction h with
  | start => exact fun d hd => absurd hd List.not_mem_nil
  | turn _ answers _ _ ih => exact ih.concat answers.2

section Step

variable {left : Nat} {g : Gathered} {arguments : Value}

theorem call_on (tool : String) (arguments : Value) :
    (call kernel tool arguments).on asked =
      ((kernel (asked ++ [(tool, arguments)])).mapError fun e => unreachableKernel e tool,
        asked ++ [(tool, arguments)]) := by
  simp only [call, bind_on, modify_on, check_on]

theorem turnPages_unasked {e : DomainError}
    (h : gotoArguments formats scope moment cursor = .error e) :
    (turnPages formats kernel scope moment (left + 1) cursor g).on asked = (.error e, asked) := by
  simp only [turnPages, bind_on, check_on, h]

theorem turnPages_unreached {e : KernelTransportError}
    (h : gotoArguments formats scope moment cursor = .ok arguments)
    (hk : kernel (asked ++ [request arguments]) = .error e) :
    (turnPages formats kernel scope moment (left + 1) cursor g).on asked =
      (.error (unreachableKernel e "kernel_goto"), asked ++ [request arguments]) := by
  rw [request] at hk
  simp only [turnPages, bind_on, check_on, h, call_on, hk, Except.mapError, request]

theorem turnPages_refused {words : String}
    (h : Answers formats kernel scope moment asked cursor arguments (.refused words)) :
    (turnPages formats kernel scope moment (left + 1) cursor g).on asked =
      (if meansNothingIsWritten words then .ok (g.collected, g.reasons)
        else .error (refused words "kernel_goto"), asked ++ [request arguments]) := by
  obtain ⟨hargs, hk⟩ := h
  rw [request] at hk
  simp only [turnPages, bind_on, check_on, hargs, call_on, hk, Except.mapError, request]
  split_ifs
  · rfl
  · rfl

theorem turnPages_more {document : Value} {next : String}
    (h : Answers formats kernel scope moment asked cursor arguments (.returned document))
    (hnext : nextCursor document = some next) (hmoved : some next ≠ cursor) :
    (turnPages formats kernel scope moment (left + 1) cursor g).on asked =
      (turnPages formats kernel scope moment left (some next)
        (g.addPage moment (readPage formats scope document))).on
        (asked ++ [request arguments]) := by
  obtain ⟨hargs, hk⟩ := h
  rw [request] at hk
  have hpage : (readPage formats scope document).nextCursor = some next := hnext
  simp only [turnPages, bind_on, check_on, hargs, call_on, hk, Except.mapError, request, hpage]
  rw [if_pos hmoved]

theorem turnPages_last {document : Value}
    (h : Answers formats kernel scope moment asked cursor arguments (.returned document))
    (hlast : nextCursor document = none ∨ nextCursor document = cursor) :
    (turnPages formats kernel scope moment (left + 1) cursor g).on asked =
      (.ok (g.addPage moment (readPage formats scope document)).visible,
        asked ++ [request arguments]) := by
  obtain ⟨hargs, hk⟩ := h
  rw [request] at hk
  have hpage : (readPage formats scope document).nextCursor = nextCursor document := rfl
  simp only [turnPages, bind_on, check_on, hargs, call_on, hk, Except.mapError, request, hpage]
  cases hnext : nextCursor document with
  | none => rfl
  | some next =>
    have hsame : some next = cursor := by
      rw [hnext] at hlast
      exact hlast.resolve_left (by simp)
    simp only [hsame, ne_eq, not_true_eq_false, if_false]
    rfl

end Step

theorem readAsOf_served (h : Serves formats kernel scope moment documents asked cursor)
    (hlen : documents.length ≤ maxPages) :
    (readAsOf formats kernel scope moment).on [] =
      (turnPages formats kernel scope moment (maxPages - documents.length) cursor
        (gather formats scope moment documents)).on asked := by
  induction h with
  | start => rfl
  | @turn documents asked cursor arguments document next served answers more moved ih =>
    rw [List.length_append, List.length_singleton] at hlen
    have hleft : maxPages - documents.length = maxPages - (documents ++ [document]).length + 1 := by
      rw [List.length_append, List.length_singleton]
      omega
    rw [ih (by omega), hleft, turnPages_more answers more moved, gather_concat]

variable (formats kernel scope moment) in
/-- The read came to an end of the pages, and shows what it can. -/
def Finished (asked : List Request) (answer : List MemoryEntry × List MemoryRelation) : Prop :=
  ∃ documents, Returned kernel asked documents ∧
    answer = (gather formats scope moment documents).visible

variable (formats kernel scope moment) in
/-- After some pages the kernel said that nothing is written there. -/
def BrokenOff (documents : List Value) : Prop :=
  ∃ asked cursor arguments words, Serves formats kernel scope moment documents asked cursor ∧
    documents.length < maxPages ∧
    Answers formats kernel scope moment asked cursor arguments (.refused words) ∧
    meansNothingIsWritten words = true

theorem turnPages_cases {left : Nat}
    (h : Serves formats kernel scope moment documents asked cursor)
    (hleft : left + documents.length = maxPages) {r : Except DomainError _} {asked' : List Request}
    (hrun : (turnPages formats kernel scope moment left cursor
      (gather formats scope moment documents)).on asked = (r, asked')) :
    asked'.length ≤ maxPages ∧ ∀ answer, r = .ok answer →
      Finished formats kernel scope moment asked' answer ∨
      ∃ documents, BrokenOff formats kernel scope moment documents ∧
        Returned kernel asked' documents ∧
        answer = ((gather formats scope moment documents).collected,
          (gather formats scope moment documents).reasons) := by
  induction left generalizing documents asked cursor with
  | zero =>
    obtain ⟨rfl, rfl⟩ := Prod.mk.inj hrun
    have hlen := h.length
    refine ⟨by omega, fun answer hr => .inl ⟨documents, h.returned, ?_⟩⟩
    exact (Except.ok.inj hr).symm
  | succ left ih =>
    have hlen := h.length
    cases hargs : gotoArguments formats scope moment cursor with
    | error e =>
      rw [turnPages_unasked hargs] at hrun
      obtain ⟨rfl, rfl⟩ := Prod.mk.inj hrun
      exact ⟨by omega, fun answer hr => by simp at hr⟩
    | ok arguments =>
      have hasked : (asked ++ [request arguments]).length ≤ maxPages := by
        rw [List.length_append, List.length_singleton]
        omega
      cases hk : kernel (asked ++ [request arguments]) with
      | error e =>
        rw [turnPages_unreached hargs hk] at hrun
        obtain ⟨rfl, rfl⟩ := Prod.mk.inj hrun
        exact ⟨hasked, fun answer hr => by simp at hr⟩
      | ok answered =>
        cases answered with
        | refused words =>
          have hanswers : Answers formats kernel scope moment asked cursor arguments
            (.refused words) := ⟨hargs, hk⟩
          rw [turnPages_refused hanswers] at hrun
          obtain ⟨rfl, rfl⟩ := Prod.mk.inj hrun
          refine ⟨hasked, fun answer hr => .inr ⟨documents, ?_, ?_, ?_⟩⟩
          all_goals by_cases hwords : meansNothingIsWritten words = true
          · exact ⟨asked, cursor, arguments, words, h, by omega, hanswers, hwords⟩
          · simp [hwords] at hr
          · intro d hd
            obtain ⟨requests, hbefore, hreturned⟩ := h.returned d hd
            exact ⟨requests, hbefore.trans (List.prefix_append ..), hreturned⟩
          · simp [hwords] at hr
          · rw [if_pos hwords] at hr
            exact (Except.ok.inj hr).symm
          · simp [hwords] at hr
        | returned document =>
          have hanswers : Answers formats kernel scope moment asked cursor arguments
            (.returned document) := ⟨hargs, hk⟩
          by_cases hlast : nextCursor document = none ∨ nextCursor document = cursor
          · rw [turnPages_last hanswers hlast, ← gather_concat] at hrun
            obtain ⟨rfl, rfl⟩ := Prod.mk.inj hrun
            refine ⟨hasked, fun answer hr => .inl ⟨_, h.returned.concat hk, ?_⟩⟩
            exact (Except.ok.inj hr).symm
          · rw [not_or] at hlast
            obtain ⟨next, hnext⟩ := Option.ne_none_iff_exists'.mp hlast.1
            have hmoved : some next ≠ cursor := hnext ▸ hlast.2
            rw [turnPages_more hanswers hnext hmoved, ← gather_concat] at hrun
            refine ih (.turn h hanswers hnext hmoved) ?_ hrun
            rw [List.length_append, List.length_singleton]
            omega

end Turning

section Faithful

variable (formats : Formats) (kernel : Kernel) (scope : MemoryScope) (moment : OffsetDateTime)

/-- The kernel serves these pages one after the other, and the last promises no more. -/
def ServesAll (documents : List Value) : Prop :=
  ∃ before last asked cursor arguments, documents = before ++ [last] ∧
    Serves formats kernel scope moment before asked cursor ∧
    Answers formats kernel scope moment asked cursor arguments (.returned last) ∧
    nextCursor last = none

/-- A read asks no more often than it may. What it shows came under different references and was
known at the moment, its reasons lead from one thing it shows to another, and it misses nothing of
a kernel that comes to an end. -/
structure Faithful : Prop where
  calls : ((readAsOf formats kernel scope moment).on []).2.length ≤ maxPages
  sound : ∀ entries relations asked,
    (readAsOf formats kernel scope moment).on [] = (.ok (entries, relations), asked) →
      (∃ (kept : List (String × MemoryEntry)) (documents : List Value),
        Returned kernel asked documents ∧ entries = kept.map Prod.snd ∧
        (kept.map Prod.fst).Nodup ∧
        ∀ k ∈ kept, k ∈ readable formats scope documents ∧ ¬ moment < k.2.provenance.observedAt) ∧
      ∀ r ∈ relations, r.fromEntry ∈ entries.map MemoryEntry.id ∧
        r.toEntry ∈ entries.map MemoryEntry.id
  complete : ∀ documents, ServesAll formats kernel scope moment documents →
    documents.length < maxPages →
      ∃ (kept : List (String × MemoryEntry)) (relations : List MemoryRelation) (asked : List Request),
      (readAsOf formats kernel scope moment).on [] = (.ok (kept.map Prod.snd, relations), asked) ∧
      (kept.map Prod.fst).Nodup ∧
      (∀ k ∈ kept, k ∈ readable formats scope documents ∧ ¬ moment < k.2.provenance.observedAt) ∧
      ∀ f ∈ readable formats scope documents, ¬ moment < f.2.provenance.observedAt →
        f.1 ∈ kept.map Prod.fst

/-- If the kernel breaks off, the pages it has served give no reason that leads elsewhere. -/
def Explained : Prop :=
  ∀ documents, BrokenOff formats kernel scope moment documents →
    ∀ document ∈ documents, ∀ r ∈ reasons scope document,
      Shown formats scope moment documents r.fromEntry ∧
        Shown formats scope moment documents r.toEntry

variable {formats kernel scope moment}

theorem readAsOf_brokenOff {documents : List Value}
    (h : BrokenOff formats kernel scope moment documents) :
    ∃ asked, (readAsOf formats kernel scope moment).on [] =
      (.ok ((gather formats scope moment documents).collected,
        (gather formats scope moment documents).reasons), asked) := by
  obtain ⟨asked, cursor, arguments, words, hserves, hlen, hanswers, hwords⟩ := h
  have hleft : maxPages - documents.length = maxPages - documents.length - 1 + 1 := by omega
  refine ⟨asked ++ [request arguments], ?_⟩
  rw [readAsOf_served hserves (by omega), hleft, turnPages_refused hanswers, if_pos hwords]

theorem readAsOf_servesAll {documents : List Value}
    (h : ServesAll formats kernel scope moment documents) (hlen : documents.length < maxPages) :
    ∃ asked, (readAsOf formats kernel scope moment).on [] =
      (.ok (gather formats scope moment documents).visible, asked) := by
  obtain ⟨before, last, asked, cursor, arguments, rfl, hserves, hanswers, hnone⟩ := h
  rw [List.length_append, List.length_singleton] at hlen
  have hleft : maxPages - before.length = maxPages - before.length - 1 + 1 := by omega
  refine ⟨asked ++ [request arguments], ?_⟩
  rw [readAsOf_served hserves (by omega), hleft, turnPages_last hanswers (.inl hnone),
    ← gather_concat]

theorem explained_of_faithful (h : Faithful formats kernel scope moment) :
    Explained formats kernel scope moment := by
  intro documents hbroken document hdocument r hr
  obtain ⟨asked, hrun⟩ := readAsOf_brokenOff hbroken
  have hmem : r ∈ (gather formats scope moment documents).reasons :=
    mem_reasons_gather.mpr ⟨document, hdocument, hr⟩
  obtain ⟨hfrom, hto⟩ := (h.sound _ _ asked hrun).2 r hmem
  exact ⟨mem_collected_iff.mp hfrom, mem_collected_iff.mp hto⟩

theorem faithful_of_explained (h : Explained formats kernel scope moment) :
    Faithful formats kernel scope moment := by
  have hcases := @turnPages_cases formats kernel scope moment [] [] none maxPages .start rfl
    ((readAsOf formats kernel scope moment).on []).1
    ((readAsOf formats kernel scope moment).on []).2 rfl
  refine ⟨hcases.1, fun entries relations asked hrun => ?_, fun documents hserves hlen => ?_⟩
  · rw [hrun] at hcases
    rcases hcases.2 (entries, relations) rfl with
      ⟨documents, hreturned, hanswer⟩ | ⟨documents, hbroken, hreturned, hanswer⟩
    · obtain ⟨rfl, rfl⟩ := Prod.mk.inj hanswer
      obtain ⟨kept, hkept⟩ := gathers_gather formats scope moment documents
      refine ⟨⟨kept, documents, hreturned, hkept.collected, hkept.distinct, hkept.read⟩, ?_⟩
      exact fun r hr => (InProcessSessionMemory.mem_between.mp hr).2
    · obtain ⟨rfl, rfl⟩ := Prod.mk.inj hanswer
      obtain ⟨kept, hkept⟩ := gathers_gather formats scope moment documents
      refine ⟨⟨kept, documents, hreturned, hkept.collected, hkept.distinct, hkept.read⟩, ?_⟩
      intro r hr
      obtain ⟨document, hdocument, hr⟩ := mem_reasons_gather.mp hr
      obtain ⟨hfrom, hto⟩ := h documents hbroken document hdocument r hr
      exact ⟨mem_collected_iff.mpr hfrom, mem_collected_iff.mpr hto⟩
  · obtain ⟨asked, hrun⟩ := readAsOf_servesAll hserves hlen
    obtain ⟨kept, hkept⟩ := gathers_gather formats scope moment documents
    refine ⟨kept, (gather formats scope moment documents).visible.2, asked, ?_, hkept.distinct,
      hkept.read, hkept.all⟩
    rw [hrun, Gathered.visible, hkept.collected]

theorem faithful_iff_explained (formats : Formats) (kernel : Kernel) (scope : MemoryScope)
    (moment : OffsetDateTime) :
    Faithful formats kernel scope moment ↔ Explained formats kernel scope moment :=
  ⟨explained_of_faithful, faithful_of_explained⟩

section Interrupted

def someFormats : Formats := ⟨fun _ => some "1970-01-01T00:00:00Z", fun _ => some ⟨0, 0⟩, fun _ => none⟩

def outage : MemoryScope := ⟨"outage", by decide⟩

def firstPage : Value :=
  .object [
    ("entries", .array [.object [
      ("ref", .string "entry:outage:fix"), ("kind", .string "decision"),
      ("text", .string "restart it"),
      ("coordinates", .array [.object [("dimension", .string "ceremony"),
        ("scope_id", .string "ceremony:seven"),
        ("occurred_at", .string "1970-01-01T00:00:00Z")]])]]),
    ("proof", .object [("path", .array [.object [
      ("rel", .string "chosen_because"), ("from", .string "entry:outage:fix"),
      ("to", .string "entry:outage:alarm"), ("why", .string "it was stuck")]])]),
    ("page", .object [("has_more", .bool true), ("next_cursor", .string "entry:outage:alarm")])]

def forgetful : Kernel
  | [_] => .ok (.returned firstPage)
  | _ => .ok (.refused "reference not found")

theorem forgetful_not_faithful : ¬ Faithful someFormats forgetful outage ⟨0, 0⟩ := by
  intro h
  have hrun : ((readAsOf someFormats forgetful outage ⟨0, 0⟩).on []).1.toOption.map
      (fun shown => (shown.1.map fun e => e.id.asStr, shown.2.map fun r => r.toEntry.asStr)) =
      some (["fix"], ["alarm"]) := by decide +kernel
  cases hread : (readAsOf someFormats forgetful outage ⟨0, 0⟩).on [] with
  | mk r asked =>
    rw [hread] at hrun
    cases r with
    | error e => simp [Except.toOption] at hrun
    | ok shown =>
      obtain ⟨hids, hends⟩ : shown.1.map (fun e => e.id.asStr) = ["fix"] ∧
          shown.2.map (fun r => r.toEntry.asStr) = ["alarm"] := by
        simpa [Except.toOption] using hrun
      have hmem : "alarm" ∈ shown.2.map fun r => r.toEntry.asStr := by simp [hends]
      obtain ⟨reason, hreason, halarm⟩ := List.mem_map.mp hmem
      obtain ⟨entry, hentry, hid⟩ :=
        List.mem_map.mp ((h.sound shown.1 shown.2 asked hread).2 reason hreason).2
      have hshown : "alarm" ∈ shown.1.map fun e => e.id.asStr :=
        List.mem_map.mpr ⟨entry, hentry, by rw [hid, halarm]⟩
      simp [hids] at hshown

end Interrupted

end Faithful

end Choreographer.KernelReads
