import Choreographer.Redb

namespace Choreographer.RedbTables

open Choreographer.Lib.ByteStrings Choreographer.Lib.SortedMaps Choreographer.Lib.Updates
open Choreographer.Texts Choreographer.Values Choreographer.Redb

theorem pos_of_mem_utf8 {id : CeremonyId} {b : Byte} (h : b ∈ utf8 id.asStr) : separator < b := by
  have hz := ceremonyId_zero_notMem id
  rcases Fin.pos_iff_ne_zero.mpr (fun he : b = 0 => hz (he ▸ h)) with hb
  exact hb

theorem scopedKey_inj {id jd : CeremonyId} {n m : Nat} (hn : n < 2 ^ 64) (hm : m < 2 ^ 64)
    (h : scopedKey id n = scopedKey jd m) : id = jd ∧ n = m := by
  obtain ⟨hid, ht⟩ := List.append_inj' h (by simp)
  have hbytes := (List.cons.inj ht).2
  exact ⟨Text.ext (utf8_injective hid), beBytes_inj hn hm hbytes⟩

theorem scopedKey_lt_of_lt {id jd : CeremonyId} (h : id < jd) (n m : Nat) :
    scopedKey id n < scopedKey jd m :=
  separated_lt (fun _ => pos_of_mem_utf8) (fun _ => pos_of_mem_utf8) (Text.lt_iff.mp h) _ _

theorem scopedKey_lt_iff {id : CeremonyId} {n m : Nat} (hn : n < 2 ^ 64) (hm : m < 2 ^ 64) :
    scopedKey id n < scopedKey id m ↔ n < m := by
  unfold scopedKey
  rw [append_lt_append_left, List.cons_lt_cons_iff]
  simpa using beBytes_lt_iff hn hm

theorem ceremonyOf_scopedKey (id : CeremonyId) (n : Nat) :
    ceremonyOf (scopedKey id n) = some (utf8 id.asStr) := by
  have hlen : (scopedKey id n).length = (utf8 id.asStr).length + (ordinalBytes + 1) := by
    simp [scopedKey, ordinalBytes]
  rw [ceremonyOf, if_pos (by omega), hlen, Nat.add_sub_cancel]
  simp [scopedKey]

theorem mem_scope_iff {id jd : CeremonyId} {n : Nat} (hn : n < 2 ^ 64) :
    ((scopeRange id).1 ≤ scopedKey jd n ∧ scopedKey jd n ≤ (scopeRange id).2) ↔ jd = id := by
  constructor
  · rintro ⟨hlo, hhi⟩
    rcases lt_trichotomy jd id with h | h | h
    · exact absurd (scopedKey_lt_of_lt h n 0) (not_lt.mpr hlo)
    · exact h
    · exact absurd (scopedKey_lt_of_lt h (2 ^ 64 - 1) n) (not_lt.mpr hhi)
  · rintro rfl
    refine ⟨not_lt.mp fun h => ?_, not_lt.mp fun h => ?_⟩
    · have := (scopedKey_lt_iff hn (by decide)).mp h
      omega
    · have := (scopedKey_lt_iff (by decide) hn).mp h
      omega

variable {α : Type}

/-- A value that the store reads back as it wrote it. -/
def RoundTrips (codec : Codec α) (value : α) : Prop :=
  ∃ bytes, codec.encode value = some bytes ∧ codec.decode bytes = some value

def bytesOf (codec : Codec α) (value : α) : List Byte := (codec.encode value).getD []

section RoundTrips

variable {codec : Codec α} {value : α}

theorem RoundTrips.encode_eq (h : RoundTrips codec value) :
    Redb.encode codec value = .ok (bytesOf codec value) := by
  obtain ⟨bytes, he, -⟩ := h
  simp [Redb.encode, bytesOf, he]

theorem RoundTrips.decode_eq (h : RoundTrips codec value) :
    codec.decode (bytesOf codec value) = some value := by
  obtain ⟨bytes, he, hd⟩ := h
  simpa [bytesOf, he] using hd

end RoundTrips

def putEntries (codec : Codec α) (changes : List (List Byte × α)) (table : Table) : Table :=
  (changes.map fun c => (c.1, bytesOf codec c.2)).foldl (fun t e => t.insert e.1 e.2) table

/-- What a table holds, decoded: the elements of the list of each ceremony under
their ordinals, counted from `base`, and nothing else. -/
structure Shows (codec : Codec α) (base : Nat) (table : Table) (lists : CeremonyId → List α) :
    Prop where
  held : ∀ id k, base + k < 2 ^ 64 →
    (table.get? (scopedKey id (base + k))).map codec.decode = ((lists id)[k]?).map some
  keyed : ∀ key, table.contains key = true → ∃ id k, base + k < 2 ^ 64 ∧
    key = scopedKey id (base + k)

variable {codec : Codec α} {base : Nat} {table : Table} {lists : CeremonyId → List α}

theorem shows_empty : Shows codec base OrdMap.empty (fun _ => []) :=
  ⟨fun id n _ => by simp, fun key h => by simp [OrdMap.contains] at h⟩

/-- Every write puts an element where `target` has it, and where nothing is written
`target` is what was shown. -/
theorem Shows.put (h : Shows codec base table lists) {changes : List (List Byte × α)}
    {target : CeremonyId → List α}
    (hput : ∀ c ∈ changes, RoundTrips codec c.2 ∧ ∃ id k, base + k < 2 ^ 64 ∧
      c.1 = scopedKey id (base + k) ∧ (target id)[k]? = some c.2)
    (hkeep : ∀ id k, base + k < 2 ^ 64 → (∀ v, (scopedKey id (base + k), v) ∉ changes) →
      (target id)[k]? = (lists id)[k]?) :
    Shows codec base (putEntries codec changes table) target := by
  refine ⟨fun id k hk => ?_, fun key hkey => ?_⟩
  · rcases OrdMap.get?_foldl_insert (changes.map fun c => (c.1, bytesOf codec c.2)) table
      (scopedKey id (base + k)) with ⟨bytes, hmem, hget⟩ | ⟨hnone, hget⟩
    · obtain ⟨c, hc, he⟩ := List.mem_map.mp hmem
      obtain ⟨hkey, rfl⟩ := Prod.mk.inj he
      obtain ⟨hround, jd, j, hj, hcj, ht⟩ := hput c hc
      obtain ⟨rfl, hkj⟩ := scopedKey_inj hk hj (hkey.symm.trans hcj)
      obtain rfl : k = j := by omega
      rw [putEntries, hget, ht]
      simp [hround.decode_eq]
    · rw [putEntries, hget, h.held id k hk, hkeep id k hk]
      exact fun v hv => hnone _ (List.mem_map.mpr ⟨_, hv, rfl⟩)
  · obtain ⟨bytes, hb⟩ := OrdMap.contains_iff.mp hkey
    rcases OrdMap.get?_foldl_insert (changes.map fun c => (c.1, bytesOf codec c.2)) table key with
      ⟨w, hmem, -⟩ | ⟨-, hget⟩
    · obtain ⟨c, hc, he⟩ := List.mem_map.mp hmem
      obtain ⟨-, id, k, hk, hck, -⟩ := hput c hc
      exact ⟨id, k, hk, (Prod.mk.inj he).1.symm.trans hck⟩
    · exact h.keyed key (OrdMap.contains_iff.mpr ⟨bytes, hget.symm.trans hb⟩)

def entriesAt (id : CeremonyId) (ordinal : Nat) (values : List α) : List (List Byte × α) :=
  (values.zipIdx ordinal).map fun p => (scopedKey id p.2, p.1)

theorem entriesAt_cons (id : CeremonyId) (ordinal : Nat) (v : α) (values : List α) :
    entriesAt id ordinal (v :: values) =
      (scopedKey id ordinal, v) :: entriesAt id (ordinal + 1) values := by
  simp [entriesAt]

theorem mem_entriesAt {id : CeremonyId} {ordinal : Nat} {values : List α} {e : List Byte × α} :
    e ∈ entriesAt id ordinal values ↔
      ∃ k, values[k]? = some e.2 ∧ e.1 = scopedKey id (ordinal + k) := by
  unfold entriesAt
  rw [List.mem_map]
  constructor
  · rintro ⟨⟨v, n⟩, hv, rfl⟩
    obtain ⟨hle, hv⟩ := List.mk_mem_zipIdx_iff_le_and_getElem?_sub.mp hv
    exact ⟨n - ordinal, hv, by simp [Nat.add_sub_cancel' hle]⟩
  · rintro ⟨k, hv, he⟩
    refine ⟨(e.2, ordinal + k), ?_, by rw [← he]⟩
    exact List.mk_mem_zipIdx_iff_le_and_getElem?_sub.mpr ⟨by omega, by simpa using hv⟩

theorem Shows.extend (h : Shows codec base table lists) (id : CeremonyId) (values : List α)
    (hfit : base + (lists id).length + values.length ≤ 2 ^ 64)
    (hvalues : ∀ v ∈ values, RoundTrips codec v) :
    Shows codec base
      (putEntries codec (entriesAt id (base + (lists id).length) values) table)
      (Function.update lists id (lists id ++ values)) := by
  refine h.put (fun c hc => ?_) (fun jd k hk hnone => ?_)
  · obtain ⟨k, hv, hkey⟩ := mem_entriesAt.mp hc
    have hlt := (List.getElem?_eq_some_iff.mp hv).1
    refine ⟨hvalues _ (List.mem_of_getElem? hv), id, (lists id).length + k, by omega, ?_, ?_⟩
    · rw [hkey, Nat.add_assoc]
    · rw [Function.update_self, List.getElem?_append_right (by omega)]
      simpa using hv
  · by_cases hj : jd = id
    · subst hj
      rw [Function.update_self, List.getElem?_append]
      split
      · rfl
      · next hge =>
        rw [List.getElem?_eq_none (not_lt.mp hge)]
        refine Option.eq_none_iff_forall_ne_some.mpr fun v hv => hnone v ?_
        have hk : base + (lists jd).length + (k - (lists jd).length) = base + k := by omega
        exact mem_entriesAt.mpr ⟨_, hv, by rw [hk]⟩
    · rw [Function.update_of_ne hj]

def flat (base : Nat) (lists : CeremonyId → List α) (ids : List CeremonyId) :
    List (List Byte × α) :=
  ids.flatMap fun id => entriesAt id base (lists id)

theorem mem_flat {ids : List CeremonyId} {e : List Byte × α} :
    e ∈ flat base lists ids ↔
      ∃ id ∈ ids, ∃ k, (lists id)[k]? = some e.2 ∧ e.1 = scopedKey id (base + k) := by
  simp only [flat, List.mem_flatMap, mem_entriesAt]

theorem flat_sorted {ids : List CeremonyId} (hids : ids.Pairwise (· < ·))
    (hfit : ∀ id, base + (lists id).length ≤ 2 ^ 64) :
    (flat base lists ids).Pairwise (fun a b => a.1 < b.1) := by
  refine List.pairwise_flatMap.mpr ⟨fun id _ => List.pairwise_map.mpr ?_, hids.imp ?_⟩
  · refine List.pairwise_iff_getElem.mpr fun i j hi hj hij => ?_
    simp only [List.length_zipIdx] at hi hj
    have := hfit id
    simp only [List.getElem_zipIdx]
    exact (scopedKey_lt_iff (by omega) (by omega)).mpr (by omega)
  · intro id jd hlt x hx y hy
    obtain ⟨k, -, hx⟩ := mem_entriesAt.mp hx
    obtain ⟨j, -, hy⟩ := mem_entriesAt.mp hy
    rw [hx, hy]
    exact scopedKey_lt_of_lt hlt _ _

theorem Shows.scan (h : Shows codec base table lists)
    (hfit : ∀ id, base + (lists id).length ≤ 2 ^ 64) {ids : List CeremonyId}
    (hids : ids.Pairwise (· < ·)) (wanted : List Byte → Bool)
    (hwanted : ∀ id k, base + k < 2 ^ 64 → lists id ≠ [] →
      (wanted (scopedKey id (base + k)) = true ↔ id ∈ ids)) :
    (table.entries.filter fun e => wanted e.1).map (fun e => (e.1, codec.decode e.2)) =
      (flat base lists ids).map fun e => (e.1, some e.2) := by
  refine OrdMap.entries_ext ?_ ?_ ?_
  · exact OrdMap.sorted_of_keys (by simp [Function.comp_def]) (table.sorted.filter fun e => wanted e.1)
  · exact OrdMap.sorted_of_keys (by simp) (flat_sorted hids hfit)
  rintro ⟨key, value⟩
  simp only [List.mem_map, List.mem_filter, Prod.mk.injEq, Prod.exists, OrdMap.mem_entries, mem_flat]
  constructor
  · rintro ⟨_, bytes, ⟨hget, hw⟩, rfl, rfl⟩
    obtain ⟨id, k, hk, rfl⟩ := h.keyed _ (OrdMap.contains_iff.mpr ⟨bytes, hget⟩)
    have hheld := h.held id k hk
    rw [hget] at hheld
    obtain ⟨v, hv, hval⟩ := Option.map_eq_some_iff.mp hheld.symm
    have hne : lists id ≠ [] := fun he => by simp [he] at hv
    exact ⟨_, v, ⟨id, (hwanted id k hk hne).mp hw, k, hv, rfl⟩, rfl, hval⟩
  · rintro ⟨_, v, ⟨id, hid, k, hv, rfl⟩, rfl, rfl⟩
    have hlt : k < (lists id).length := (List.getElem?_eq_some_iff.mp hv).1
    have hk : base + k < 2 ^ 64 := by
      have := hfit id
      omega
    have hheld := h.held id k hk
    rw [hv] at hheld
    obtain ⟨bytes, hget, hval⟩ := Option.map_eq_some_iff.mp hheld
    have hne : lists id ≠ [] := fun he => by simp [he] at hv
    exact ⟨_, bytes, ⟨hget, (hwanted id k hk hne).mpr hid⟩, rfl, hval⟩

theorem mapM_decode {l : List (List Byte × List Byte)} {vs : List α}
    (h : (l.map fun e => codec.decode e.2) = vs.map some) :
    (l.mapM fun e => Redb.decode codec e.2) = .ok vs := by
  refine except_mapM_eq_ok ?_
  have hok := congrArg (List.map fun o => okOr o encodingFailure) h
  rwa [List.map_map, List.map_map] at hok

theorem flat_values (ids : List CeremonyId) :
    (flat base lists ids).map Prod.snd = ids.flatMap lists := by
  induction ids with
  | nil => rfl
  | cons id ids ih =>
    rw [flat, List.flatMap_cons, List.map_append, List.flatMap_cons, ← ih, entriesAt, List.map_map]
    simp [Function.comp_def, flat]

theorem Shows.range (h : Shows codec base table lists)
    (hfit : ∀ id, base + (lists id).length ≤ 2 ^ 64) (id : CeremonyId) :
    ((rangeOf table (scopeRange id)).map fun e => codec.decode e.2) = (lists id).map some := by
  have hscan := h.scan hfit (List.pairwise_singleton (· < ·) id)
    (fun key => decide ((scopeRange id).1 ≤ key) && decide (key ≤ (scopeRange id).2))
    (fun jd k hk _ => by simpa using mem_scope_iff hk)
  have hvalues := congrArg (List.map Prod.snd) hscan
  rw [List.map_map, List.map_map] at hvalues
  have hflat : (flat base lists [id]).map Prod.snd = lists id := by simp [flat_values]
  calc ((rangeOf table (scopeRange id)).map fun e => codec.decode e.2)
      = (flat base lists [id]).map fun e => some e.2 := hvalues
    _ = ((flat base lists [id]).map Prod.snd).map some := by rw [List.map_map]; rfl
    _ = (lists id).map some := by rw [hflat]

end Choreographer.RedbTables
