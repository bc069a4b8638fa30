import Mathlib.Data.Finset.Card
import Mathlib.Data.List.Induction
import Mathlib.Data.List.Pairwise
import Mathlib.Data.List.Sort
import Mathlib.Order.Defs.LinearOrder

namespace Choreographer.Lib.SortedMaps

variable {κ ν : Type} [LinearOrder κ]

/-- A finite map kept as its entries in increasing key order. Iterating the
entries is iterating the map, so scans and their order are part of the value. -/
structure OrdMap (κ ν : Type) [LinearOrder κ] where
  entries : List (κ × ν)
  sorted : entries.Pairwise (fun a b => a.1 < b.1)

namespace OrdMap

instance [DecidableEq ν] : DecidableEq (OrdMap κ ν) := fun m n =>
  decidable_of_iff (m.entries = n.entries)
    ⟨fun h => by cases m; cases n; cases h; rfl, fun h => by rw [h]⟩

def empty : OrdMap κ ν := ⟨[], List.Pairwise.nil⟩

instance : Inhabited (OrdMap κ ν) := ⟨empty⟩

def lookup (k : κ) : List (κ × ν) → Option ν
  | [] => none
  | (j, v) :: rest => if k = j then some v else lookup k rest

def insertEntry (k : κ) (v : ν) : List (κ × ν) → List (κ × ν)
  | [] => [(k, v)]
  | (j, w) :: rest =>
    if k < j then (k, v) :: (j, w) :: rest
    else if k = j then (k, v) :: rest
    else (j, w) :: insertEntry k v rest

theorem mem_insertEntry_of {k : κ} {v : ν} {e : κ × ν} {l : List (κ × ν)}
    (h : e ∈ insertEntry k v l) : e = (k, v) ∨ e ∈ l := by
  induction l with
  | nil => simpa [insertEntry] using h
  | cons a rest ih =>
    obtain ⟨j, w⟩ := a
    unfold insertEntry at h
    split_ifs at h
    · simpa using h
    · rcases List.mem_cons.mp h with h | h
      · exact .inl h
      · exact .inr (List.mem_cons_of_mem _ h)
    · rcases List.mem_cons.mp h with h | h
      · exact .inr (by simp [h])
      · exact (ih h).imp_right (List.mem_cons_of_mem _)

theorem insertEntry_sorted (k : κ) (v : ν) {l : List (κ × ν)}
    (h : l.Pairwise (fun a b => a.1 < b.1)) :
    (insertEntry k v l).Pairwise (fun a b => a.1 < b.1) := by
  induction l with
  | nil => simp [insertEntry]
  | cons a rest ih =>
    obtain ⟨j, w⟩ := a
    obtain ⟨hj, hrest⟩ := List.pairwise_cons.mp h
    unfold insertEntry
    split_ifs with h1 h2
    · refine List.pairwise_cons.mpr ⟨?_, h⟩
      intro e he
      rcases List.mem_cons.mp he with rfl | he
      · exact h1
      · exact h1.trans (hj e he)
    · subst h2
      exact List.pairwise_cons.mpr ⟨hj, hrest⟩
    · refine List.pairwise_cons.mpr ⟨?_, ih hrest⟩
      intro e he
      rcases mem_insertEntry_of he with rfl | he
      · exact lt_of_le_of_ne (not_lt.mp h1) (Ne.symm h2)
      · exact hj e he

def insert (k : κ) (v : ν) (m : OrdMap κ ν) : OrdMap κ ν :=
  ⟨insertEntry k v m.entries, insertEntry_sorted k v m.sorted⟩

def get? (m : OrdMap κ ν) (k : κ) : Option ν := lookup k m.entries

def contains (m : OrdMap κ ν) (k : κ) : Bool := (m.get? k).isSome

def keys (m : OrdMap κ ν) : List κ := m.entries.map Prod.fst

def values (m : OrdMap κ ν) : List ν := m.entries.map Prod.snd

def size (m : OrdMap κ ν) : Nat := m.entries.length

def ofList (l : List (κ × ν)) : OrdMap κ ν := l.foldl (fun m e => m.insert e.1 e.2) empty

theorem lookup_insertEntry_self (k : κ) (v : ν) (l : List (κ × ν)) :
    lookup k (insertEntry k v l) = some v := by
  induction l with
  | nil => simp [insertEntry, lookup]
  | cons a rest ih =>
    obtain ⟨j, w⟩ := a
    unfold insertEntry
    split_ifs with h1 h2
    · simp [lookup]
    · simp [lookup]
    · simp [lookup, h2, ih]

theorem lookup_insertEntry_ne {k j : κ} (h : j ≠ k) (v : ν) (l : List (κ × ν)) :
    lookup j (insertEntry k v l) = lookup j l := by
  induction l with
  | nil => simp [insertEntry, lookup, h]
  | cons a rest ih =>
    obtain ⟨i, w⟩ := a
    unfold insertEntry
    split_ifs with h1 h2
    · simp [lookup, h]
    · subst h2
      simp [lookup, h]
    · simp [lookup, ih]

theorem lookup_eq_some_of_mem {l : List (κ × ν)} (hs : l.Pairwise (fun a b => a.1 < b.1))
    {k : κ} {v : ν} (h : (k, v) ∈ l) : lookup k l = some v := by
  induction l with
  | nil => simp at h
  | cons a rest ih =>
    obtain ⟨j, w⟩ := a
    obtain ⟨hj, hrest⟩ := List.pairwise_cons.mp hs
    rcases List.mem_cons.mp h with h | h
    · simp only [Prod.mk.injEq] at h
      simp [lookup, h.1, h.2]
    · have hne : k ≠ j := (hj _ h).ne'
      simp [lookup, hne, ih hrest h]

theorem mem_of_lookup_eq_some {l : List (κ × ν)} {k : κ} {v : ν}
    (h : lookup k l = some v) : (k, v) ∈ l := by
  induction l with
  | nil => simp [lookup] at h
  | cons a rest ih =>
    obtain ⟨j, w⟩ := a
    unfold lookup at h
    split_ifs at h with hk
    · simp_all
    · exact List.mem_cons_of_mem _ (ih h)

theorem mem_entries {m : OrdMap κ ν} {k : κ} {v : ν} :
    (k, v) ∈ m.entries ↔ m.get? k = some v :=
  ⟨lookup_eq_some_of_mem m.sorted, mem_of_lookup_eq_some⟩

@[simp] theorem get?_empty (k : κ) : (empty : OrdMap κ ν).get? k = none := rfl

@[simp] theorem get?_insert_self (m : OrdMap κ ν) (k : κ) (v : ν) :
    (m.insert k v).get? k = some v := lookup_insertEntry_self k v m.entries

theorem get?_insert_ne (m : OrdMap κ ν) {k j : κ} (h : j ≠ k) (v : ν) :
    (m.insert k v).get? j = m.get? j := lookup_insertEntry_ne h v m.entries

theorem get?_insert (m : OrdMap κ ν) (k j : κ) (v : ν) :
    (m.insert k v).get? j = if j = k then some v else m.get? j := by
  by_cases h : j = k
  · simp [h]
  · simp [h, get?_insert_ne]

@[simp] theorem contains_insert (m : OrdMap κ ν) (k j : κ) (v : ν) :
    (m.insert k v).contains j = (decide (j = k) || m.contains j) := by
  by_cases h : j = k <;> simp [contains, get?_insert, h]

theorem contains_insert_iff {m : OrdMap κ ν} {k j : κ} {v : ν} :
    (m.insert k v).contains j = true ↔ j = k ∨ m.contains j = true := by
  simp

theorem contains_iff {m : OrdMap κ ν} {k : κ} : m.contains k = true ↔ ∃ v, m.get? k = some v :=
  Option.isSome_iff_exists

theorem mem_keys {m : OrdMap κ ν} {k : κ} : k ∈ m.keys ↔ m.contains k = true := by
  rw [contains_iff]
  simp only [keys, List.mem_map, Prod.exists, exists_and_right, exists_eq_right, mem_entries]

theorem nodup_keys (m : OrdMap κ ν) : m.keys.Nodup :=
  List.pairwise_map.mpr (m.sorted.imp fun h => h.ne)

theorem size_le_of_contains {μ : Type} {m : OrdMap κ ν} {n : OrdMap κ μ}
    (h : ∀ k, m.contains k = true → n.contains k = true) : m.size ≤ n.size := by
  have hsub : m.keys ⊆ n.keys := fun k hk => mem_keys.mpr (h k (mem_keys.mp hk))
  have hle := (List.subperm_of_subset m.nodup_keys hsub).length_le
  rwa [keys, keys, List.length_map, List.length_map] at hle

theorem size_eq_card (m : OrdMap κ ν) : m.size = m.keys.toFinset.card := by
  rw [List.toFinset_card_of_nodup m.nodup_keys]
  simp [size, keys]

theorem mem_values {m : OrdMap κ ν} {v : ν} : v ∈ m.values ↔ ∃ k, m.get? k = some v := by
  simp only [values, List.mem_map, Prod.exists, exists_eq_right, mem_entries]

/-- Two sorted entry lists that hold the same entries are the same list. -/
theorem entries_ext {l₁ l₂ : List (κ × ν)} (h₁ : l₁.Pairwise (fun a b => a.1 < b.1))
    (h₂ : l₂.Pairwise (fun a b => a.1 < b.1)) (h : ∀ e, e ∈ l₁ ↔ e ∈ l₂) : l₁ = l₂ := by
  have hn₁ : l₁.Nodup := h₁.imp (fun hab he => absurd (he ▸ hab) (lt_irrefl _))
  have hn₂ : l₂.Nodup := h₂.imp (fun hab he => absurd (he ▸ hab) (lt_irrefl _))
  have hp : l₁.Perm l₂ := (List.perm_ext_iff_of_nodup hn₁ hn₂).mpr h
  refine hp.eq_of_pairwise ?_ h₁ h₂
  intro a b _ _ hab hba
  exact absurd (hab.trans hba) (lt_irrefl _)

theorem ext_get? {m n : OrdMap κ ν} (h : ∀ k, m.get? k = n.get? k) : m = n := by
  have he : m.entries = n.entries := by
    apply entries_ext m.sorted n.sorted
    rintro ⟨k, v⟩
    rw [mem_entries, mem_entries, h]
  cases m
  cases n
  cases he
  rfl

theorem insert_insert (m : OrdMap κ ν) (k : κ) (v w : ν) :
    (m.insert k v).insert k w = m.insert k w := by
  refine ext_get? fun j => ?_
  simp only [get?_insert]
  split <;> rfl

theorem get?_ofList_const (ks : List κ) (v : ν) (k : κ) :
    (ofList (ks.map fun j => (j, v))).get? k = if k ∈ ks then some v else none := by
  have h (m : OrdMap κ ν) : (ks.foldl (fun m j => m.insert j v) m).get? k =
      if k ∈ ks then some v else m.get? k := by
    induction ks generalizing m with
    | nil => simp
    | cons j ks ih =>
      rw [List.foldl_cons, ih, get?_insert]
      by_cases hj : k = j
      · simp [hj]
      · simp [hj]
  rw [ofList, List.foldl_map, h]
  simp

theorem get?_foldl_insert (l : List (κ × ν)) (m : OrdMap κ ν) (k : κ) :
    (∃ v, (k, v) ∈ l ∧ (l.foldl (fun m e => m.insert e.1 e.2) m).get? k = some v) ∨
      (∀ v, (k, v) ∉ l) ∧ (l.foldl (fun m e => m.insert e.1 e.2) m).get? k = m.get? k := by
  induction l generalizing m with
  | nil => exact .inr ⟨fun v => List.not_mem_nil, rfl⟩
  | cons e rest ih =>
    obtain ⟨j, w⟩ := e
    rcases ih (m.insert j w) with ⟨v, hv, hg⟩ | ⟨hn, hg⟩
    · exact .inl ⟨v, List.mem_cons_of_mem _ hv, hg⟩
    · rw [get?_insert] at hg
      by_cases hk : k = j
      · subst hk
        exact .inl ⟨w, List.mem_cons_self, by simpa using hg⟩
      · refine .inr ⟨fun v hv => ?_, by simpa [hk] using hg⟩
        rcases List.mem_cons.mp hv with he | hv
        · exact hk (Prod.mk.inj he).1
        · exact hn v hv

/-- Filing the entries of one map over another. -/
theorem contains_foldl_insert (m n : OrdMap κ ν) (k : κ) :
    (n.entries.foldl (fun m e => m.insert e.1 e.2) m).contains k = true ↔
      m.contains k = true ∨ n.contains k = true := by
  simp only [contains_iff]
  rcases get?_foldl_insert n.entries m k with ⟨v, hv, hg⟩ | ⟨hn, hg⟩
  · simp [hg, mem_entries.mp hv]
  · rw [hg]
    have hnone (v : ν) : n.get? k ≠ some v := fun h => hn v (mem_entries.mpr h)
    simp [hnone]

theorem get?_ofList_of_agree {l : List (κ × ν)} {k : κ} {v : ν}
    (h : ∀ w, (k, v) ∈ l → (k, w) ∈ l → w = v) :
    (ofList l).get? k = some v ↔ (k, v) ∈ l := by
  rcases get?_foldl_insert l empty k with ⟨w, hw, hg⟩ | ⟨hn, hg⟩
  · rw [ofList, hg]
    constructor
    · intro he
      exact Option.some.inj he ▸ hw
    · intro hv
      rw [h w hv hw]
  · rw [ofList, hg]
    simp [hn v]

theorem mem_of_contains_ofList {l : List (κ × ν)} {k : κ} (h : (ofList l).contains k = true) :
    ∃ v, (k, v) ∈ l := by
  obtain ⟨w, hw⟩ := contains_iff.mp h
  rcases get?_foldl_insert l empty k with ⟨v, hv, -⟩ | ⟨-, hg⟩
  · exact ⟨v, hv⟩
  · rw [ofList, hg] at hw
    simp at hw

theorem length_insertEntry {l : List (κ × ν)} {k : κ} (h : lookup k l = none) (v : ν) :
    (insertEntry k v l).length = l.length + 1 := by
  induction l with
  | nil => rfl
  | cons a rest ih =>
    obtain ⟨j, w⟩ := a
    unfold lookup at h
    split_ifs at h with hk
    simp only [insertEntry, hk, if_false]
    split_ifs
    · rfl
    · simp [ih h]

theorem size_insert_of_not_contains {m : OrdMap κ ν} {k : κ} (h : m.contains k = false) (v : ν) :
    (m.insert k v).size = m.size + 1 :=
  length_insertEntry (by simpa [contains, get?] using h) v

theorem entries_insert_of_lookup {l : List (κ × ν)} {k : κ} {v : ν}
    (hs : l.Pairwise (fun a b => a.1 < b.1)) (h : lookup k l = some v) :
    ∃ before after, l = before ++ (k, v) :: after ∧
      ∀ w, insertEntry k w l = before ++ (k, w) :: after := by
  induction l with
  | nil => simp [lookup] at h
  | cons a rest ih =>
    obtain ⟨j, u⟩ := a
    obtain ⟨hj, hrest⟩ := List.pairwise_cons.mp hs
    unfold lookup at h
    split_ifs at h with hk
    · subst hk
      obtain rfl := Option.some.inj h
      exact ⟨[], rest, rfl, fun w => by simp [insertEntry]⟩
    · obtain ⟨before, after, rfl, hins⟩ := ih hrest h
      have hlt : ¬ k < j := not_lt_of_gt (hj (k, v) (by simp))
      exact ⟨(j, u) :: before, after, rfl, fun w => by simp [insertEntry, hlt, hk, hins]⟩

/-- Replacing a value moves it from one side of a count to the other. -/
theorem countP_values_insert {m : OrdMap κ ν} {k : κ} {v : ν} (h : m.get? k = some v) (w : ν)
    (p : ν → Bool) :
    (m.insert k w).values.countP p + (if p v then 1 else 0) =
      m.values.countP p + if p w then 1 else 0 := by
  obtain ⟨before, after, hm, hins⟩ := entries_insert_of_lookup m.sorted h
  have hentries : (m.insert k w).entries = before ++ (k, w) :: after := hins w
  rw [values, hentries, values, hm]
  simp only [List.map_append, List.map_cons, List.countP_append, List.countP_cons]
  omega

/-- Change the values one by one in key order, carrying something along. -/
def scanEntries {σ : Type} (f : σ → ν → σ × ν) : σ → List (κ × ν) → σ × List (κ × ν)
  | s, [] => (s, [])
  | s, (k, v) :: rest =>
    let changed := f s v
    let scanned := scanEntries f changed.1 rest
    (scanned.1, (k, changed.2) :: scanned.2)

omit [LinearOrder κ] in
theorem keys_scanEntries {σ : Type} (f : σ → ν → σ × ν) (s : σ) (l : List (κ × ν)) :
    (scanEntries f s l).2.map Prod.fst = l.map Prod.fst := by
  induction l generalizing s with
  | nil => rfl
  | cons e rest ih => simp [scanEntries, ih]

theorem sorted_of_keys {μ : Type} {l : List (κ × ν)} {l' : List (κ × μ)}
    (h : l'.map Prod.fst = l.map Prod.fst) (hs : l.Pairwise (fun a b => a.1 < b.1)) :
    l'.Pairwise (fun a b => a.1 < b.1) := by
  have hk : (l.map Prod.fst).Pairwise (· < ·) := List.pairwise_map.mpr hs
  rw [← h] at hk
  exact List.pairwise_map.mp hk

def scan {σ : Type} (f : σ → ν → σ × ν) (s : σ) (m : OrdMap κ ν) : σ × OrdMap κ ν :=
  ((scanEntries f s m.entries).1,
    ⟨(scanEntries f s m.entries).2, sorted_of_keys (keys_scanEntries f s m.entries) m.sorted⟩)

def mapValues {μ : Type} (f : ν → μ) (m : OrdMap κ ν) : OrdMap κ μ :=
  ⟨m.entries.map fun e => (e.1, f e.2), sorted_of_keys (by simp) m.sorted⟩

theorem lookup_map {μ : Type} (f : ν → μ) (k : κ) (l : List (κ × ν)) :
    lookup k (l.map fun e => (e.1, f e.2)) = (lookup k l).map f := by
  induction l with
  | nil => rfl
  | cons e rest ih =>
    obtain ⟨j, v⟩ := e
    by_cases h : k = j <;> simp [lookup, h, ih]

@[simp] theorem get?_mapValues {μ : Type} (f : ν → μ) (m : OrdMap κ ν) (k : κ) :
    (m.mapValues f).get? k = (m.get? k).map f := lookup_map f k m.entries

def erase (k : κ) (m : OrdMap κ ν) : OrdMap κ ν :=
  ⟨m.entries.filter fun e => e.1 ≠ k, m.sorted.filter _⟩

theorem get?_erase (m : OrdMap κ ν) (k j : κ) :
    (m.erase k).get? j = if j = k then none else m.get? j := by
  ext v
  rw [← mem_entries, erase, List.mem_filter, mem_entries]
  by_cases h : j = k <;> simp [h]

theorem get?_ofList_sorted {μ : Type} [LinearOrder μ] (f : κ → μ) {k : μ} {v : ν}
    {l : List (κ × ν)} (hl : l.Pairwise fun a b => a.1 < b.1) :
    (ofList (l.map fun e => (f e.1, e.2))).get? k = some v ↔
      ∃ j, (j, v) ∈ l ∧ f j = k ∧ ∀ e ∈ l, f e.1 = k → e.1 ≤ j := by
  induction l using List.reverseRecOn with
  | nil => simp [ofList]
  | append_singleton l e ih =>
    obtain ⟨hsorted, -, hlast⟩ := List.pairwise_append.mp hl
    have hsnoc : ofList ((l ++ [e]).map fun e => (f e.1, e.2)) =
        (ofList (l.map fun e => (f e.1, e.2))).insert (f e.1) e.2 := by
      simp [ofList]
    rw [hsnoc, get?_insert]
    split_ifs with hk
    · constructor
      · intro h
        refine ⟨e.1, ?_, hk.symm, ?_⟩
        · rw [← Option.some.inj h]
          simp
        · intro d hd _
          rcases List.mem_append.mp hd with hd | hd
          · exact (hlast d hd e (List.mem_singleton_self e)).le
          · rw [List.mem_singleton.mp hd]
      · rintro ⟨j, hj, -, hmax⟩
        have hle := hmax e (by simp) hk.symm
        rcases List.mem_append.mp hj with hj | hj
        · exact absurd (hlast _ hj e (List.mem_singleton_self e)) (not_lt.mpr hle)
        · rw [← List.mem_singleton.mp hj]
    · rw [ih hsorted]
      constructor
      · rintro ⟨j, hj, hjk, hmax⟩
        refine ⟨j, List.mem_append_left _ hj, hjk, fun d hd hdk => ?_⟩
        rcases List.mem_append.mp hd with hd | hd
        · exact hmax d hd hdk
        · rw [List.mem_singleton.mp hd] at hdk
          exact absurd hdk.symm hk
      · rintro ⟨j, hj, hjk, hmax⟩
        refine ⟨j, ?_, hjk, fun d hd hdk => hmax d (List.mem_append_left _ hd) hdk⟩
        rcases List.mem_append.mp hj with hj | hj
        · exact hj
        · rw [← List.mem_singleton.mp hj] at hk
          exact absurd hjk.symm hk

theorem get?_ofList_map {μ : Type} [LinearOrder μ] (f : κ → μ) {m : OrdMap κ ν} {k : μ} {v : ν} :
    (ofList (m.entries.map fun e => (f e.1, e.2))).get? k = some v ↔
      ∃ j, m.get? j = some v ∧ f j = k ∧ ∀ i, m.contains i = true → f i = k → i ≤ j := by
  rw [get?_ofList_sorted f m.sorted]
  simp only [Prod.forall, mem_entries, contains_iff]
  constructor
  · rintro ⟨j, hj, hjk, hmax⟩
    exact ⟨j, hj, hjk, fun i ⟨w, hw⟩ hik => hmax i w hw hik⟩
  · rintro ⟨j, hj, hjk, hmax⟩
    exact ⟨j, hj, hjk, fun i w hw hik => hmax i ⟨w, hw⟩ hik⟩

theorem ofList_entries (m : OrdMap κ ν) : ofList m.entries = m := by
  apply ext_get?
  intro k
  ext v
  have h := get?_ofList_map id (m := m) (k := k) (v := v)
  simp only [id_eq, Prod.mk.eta, List.map_id'] at h
  rw [h]
  constructor
  · rintro ⟨j, hj, rfl, -⟩
    exact hj
  · exact fun hk => ⟨k, hk, rfl, fun i _ hi => hi.le⟩

theorem lookup_entries [BEq κ] [LawfulBEq κ] (m : OrdMap κ ν) (k : κ) :
    m.entries.lookup k = m.get? k := by
  unfold get?
  induction m.entries with
  | nil => rfl
  | cons e rest ih =>
    obtain ⟨j, v⟩ := e
    by_cases h : k = j
    · simp [lookup, h]
    · rw [List.lookup_cons, lookup, if_neg h, beq_false_of_ne h, ih]

end OrdMap

/-- An ordered set, as the map of its members to nothing. -/
abbrev OrdSet (κ : Type) [LinearOrder κ] := OrdMap κ Unit

namespace OrdSet

def add (k : κ) (s : OrdSet κ) : OrdSet κ := s.insert k ()

@[simp] theorem contains_add (j k : κ) (s : OrdSet κ) :
    (add k s).contains j = (decide (j = k) || s.contains j) := OrdMap.contains_insert s k j ()

def ofList (l : List κ) : OrdSet κ := l.foldl (fun s k => add k s) OrdMap.empty

theorem mem_keys_ofList {l : List κ} {k : κ} : k ∈ (ofList l).keys ↔ k ∈ l := by
  have h (s : OrdSet κ) :
      (l.foldl (fun s k => add k s) s).contains k = true ↔ k ∈ l ∨ s.contains k = true := by
    induction l generalizing s with
    | nil => simp
    | cons j l ih =>
      rw [List.foldl_cons, ih, contains_add, Bool.or_eq_true, decide_eq_true_eq, List.mem_cons]
      tauto
  rw [OrdMap.mem_keys, ofList, h]
  simp [OrdMap.contains]

end OrdSet

end Choreographer.Lib.SortedMaps
