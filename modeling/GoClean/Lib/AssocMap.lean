import Mathlib.Data.List.AList

/-!
# Finite maps as association lists

`AssocMap κ ν` is Mathlib's `AList` at a constant value type. The list order
plays the part of an iteration order, so a statement about every map is a
statement about every order. Only counting and filtering are added here.
-/

abbrev AssocMap (κ ν : Type) := AList fun _ : κ => ν

namespace AssocMap

variable {κ ν : Type}

def size (m : AssocMap κ ν) : Nat := m.entries.length

def values (m : AssocMap κ ν) : List ν := m.entries.map Sigma.snd

def filter (p : κ → ν → Bool) (m : AssocMap κ ν) : AssocMap κ ν where
  entries := m.entries.filter fun e => p e.1 e.2
  nodupKeys := m.nodupKeys.sublist List.filter_sublist

def remapped {μ : Type} (f : κ → ν → Option μ) (e : Sigma fun _ : κ => ν) :
    Option (Sigma fun _ : κ => μ) :=
  (f e.1 e.2).map fun v => ⟨e.1, v⟩

theorem keys_remapped_sublist {μ : Type} (f : κ → ν → Option μ)
    (entries : List (Sigma fun _ : κ => ν)) :
    (entries.filterMap (remapped f)).keys.Sublist entries.keys := by
  induction entries with
  | nil => exact List.Sublist.slnil
  | cons e rest ih =>
    cases hf : f e.1 e.2 with
    | none => simpa [List.filterMap_cons, remapped, hf] using ih.cons e.1
    | some v => simpa [List.filterMap_cons, remapped, hf] using ih.cons_cons e.1

/-- The entries that `f` has a new value for. -/
def filterMap {μ : Type} (f : κ → ν → Option μ) (m : AssocMap κ ν) : AssocMap κ μ where
  entries := m.entries.filterMap (remapped f)
  nodupKeys := (keys_remapped_sublist f m.entries).nodup m.nodupKeys

theorem size_filter_le (p : κ → ν → Bool) (m : AssocMap κ ν) : size (filter p m) ≤ size m :=
  List.length_filter_le _ _

theorem filter_filter (p q : κ → ν → Bool) (m : AssocMap κ ν) :
    filter q (filter p m) = filter (fun k v => q k v && p k v) m :=
  AList.ext (List.filter_filter ..)

theorem filter_congr {p q : κ → ν → Bool} (m : AssocMap κ ν) (h : ∀ k v, p k v = q k v) :
    filter p m = filter q m :=
  AList.ext (List.filter_congr fun e _ => h e.1 e.2)

theorem filterMap_eq_self {f : κ → ν → Option ν} {m : AssocMap κ ν} (h : ∀ k v, f k v = some v) :
    filterMap f m = m := by
  refine AList.ext ((List.filterMap_congr fun e _ => ?_).trans List.filterMap_some)
  rw [remapped, h, Option.map_some]

variable [DecidableEq κ]

theorem lookup_insert_ite (k k' : κ) (v : ν) (m : AssocMap κ ν) :
    (m.insert k' v).lookup k = if k = k' then some v else m.lookup k := by
  split
  · next h => rw [h, AList.lookup_insert]
  · next h => rw [AList.lookup_insert_ne h]

theorem lookup_eq_some_iff {m : AssocMap κ ν} : m.lookup k = some v ↔ ⟨k, v⟩ ∈ m.entries := by
  rw [← AList.mem_lookup_iff, Option.mem_def]

theorem mem_of_lookup {m : AssocMap κ ν} (h : m.lookup k = some v) : k ∈ m := by
  rw [← AList.lookup_isSome, h, Option.isSome_some]

theorem lookup_filter (p : κ → ν → Bool) (m : AssocMap κ ν) (k : κ) :
    (filter p m).lookup k = (m.lookup k).filter (p k) := by
  ext v
  rw [lookup_eq_some_iff, Option.filter_eq_some_iff, lookup_eq_some_iff]
  exact List.mem_filter

theorem lookup_filterMap {μ : Type} (f : κ → ν → Option μ) (m : AssocMap κ ν) (k : κ) :
    (filterMap f m).lookup k = (m.lookup k).bind (f k) := by
  ext v
  rw [lookup_eq_some_iff, Option.bind_eq_some_iff]
  simp only [filterMap, remapped, List.mem_filterMap, Option.map_eq_some_iff, lookup_eq_some_iff]
  constructor
  · rintro ⟨⟨k', v'⟩, he, v'', hf, heq⟩
    cases heq
    exact ⟨v', he, hf⟩
  · rintro ⟨v', he, hf⟩
    exact ⟨⟨k, v'⟩, he, v, hf, rfl⟩

theorem filterMap_eq_empty {μ : Type} {f : κ → ν → Option μ} {m : AssocMap κ ν}
    (h : ∀ k v, m.lookup k = some v → f k v = none) : filterMap f m = ∅ := by
  refine AList.ext (List.filterMap_eq_nil_iff.mpr fun e he => ?_)
  rw [remapped, h e.1 e.2 (lookup_eq_some_iff.mpr he), Option.map_none]

theorem lookup_filter_of_pos {m : AssocMap κ ν} (h : m.lookup k = some v) (hp : p k v = true) :
    (filter p m).lookup k = some v := by
  rw [lookup_filter, h, Option.filter_some, if_pos hp]

theorem lookup_of_lookup_filter {m : AssocMap κ ν} (h : (filter p m).lookup k = some v) :
    m.lookup k = some v ∧ p k v = true := by
  rw [lookup_filter] at h
  exact Option.filter_eq_some_iff.mp h

theorem lookup_filter_eq_none {m : AssocMap κ ν} (h : m.lookup k = none) :
    (filter p m).lookup k = none := by
  rw [lookup_filter, h, Option.filter_none]

theorem size_insert_of_lookup_none {m : AssocMap κ ν} (h : m.lookup k = none) (v : ν) :
    size (m.insert k v) = size m + 1 := by
  rw [size, AList.entries_insert_of_notMem (AList.lookup_eq_none.mp h), List.length_cons, size]

theorem size_congr {m m' : AssocMap κ ν} (h : ∀ k, m.lookup k = m'.lookup k) : size m = size m' :=
  (List.lookup_ext m.nodupKeys m'.nodupKeys fun k v => by
    rw [show m.entries.dlookup k = m'.entries.dlookup k from h k]).length_eq

theorem size_eq_zero {m : AssocMap κ ν} (h : ∀ k, m.lookup k = none) : size m = 0 :=
  have hempty : size m = size (∅ : AssocMap κ ν) := size_congr h
  hempty

theorem size_pos_of_lookup {m : AssocMap κ ν} (h : m.lookup k = some v) : 0 < size m :=
  List.length_pos_of_mem (lookup_eq_some_iff.mp h)

theorem size_erase_lt {m : AssocMap κ ν} {keys : List κ}
    (hsub : ∀ k, (m.lookup k).isSome → k ∈ keys)
    (hk : k ∈ keys) : size (m.erase k) < keys.length := by
  have hnodup : (k :: (m.erase k).keys).Nodup :=
    List.nodup_cons.mpr ⟨fun h => (AList.mem_erase.mp h).1 rfl, (m.erase k).nodupKeys⟩
  have hsubset : k :: (m.erase k).keys ⊆ keys := by
    intro x hx
    rcases List.mem_cons.mp hx with rfl | hx
    · exact hk
    · exact hsub x (AList.lookup_isSome.mpr (AList.mem_erase.mp hx).2)
  have hlen := (List.subperm_of_subset hnodup hsubset).length_le
  rw [List.length_cons, AList.keys, List.keys, List.length_map] at hlen
  exact hlen

theorem insert_erase (k : κ) (v : ν) (m : AssocMap κ ν) :
    (m.erase k).insert k v = m.insert k v := by
  refine AList.ext ?_
  rw [AList.entries_insert, AList.entries_insert]
  exact congrArg _ (List.kerase_of_notMem_keys (List.notMem_keys_kerase k m.nodupKeys))

theorem size_insert (k : κ) (v : ν) (m : AssocMap κ ν) :
    size (m.insert k v) = size (m.erase k) + 1 := by
  rw [← insert_erase, size_insert_of_lookup_none (AList.lookup_erase _ _)]

theorem size_of_lookup {m : AssocMap κ ν} (h : m.lookup k = some v) :
    size m = size (m.erase k) + 1 := by
  rw [← size_insert k v m]
  refine size_congr fun k' => ?_
  rw [lookup_insert_ite]
  split
  · next hk => rw [hk, h]
  · rfl

theorem lookup_erase_of_none {m : AssocMap κ ν} (h : m.lookup k = none) (k' : κ) :
    (m.erase k).lookup k' = m.lookup k' := by
  by_cases hk : k' = k
  · rw [hk, AList.lookup_erase, h]
  · exact AList.lookup_erase_ne hk

theorem size_erase_le (k : κ) (m : AssocMap κ ν) : size (m.erase k) ≤ size m := by
  cases h : m.lookup k with
  | none => exact Nat.le_of_eq (size_congr (lookup_erase_of_none h))
  | some v => exact (size_of_lookup h) ▸ Nat.le_succ _

theorem size_eq_length {m : AssocMap κ ν} {keys : List κ} (hnodup : keys.Nodup)
    (h : ∀ k, (m.lookup k).isSome ↔ k ∈ keys) : size m = keys.length := by
  have hperm : m.keys.Perm keys := (List.perm_ext_iff_of_nodup m.nodupKeys hnodup).mpr fun k => by
    rw [← h k, AList.lookup_isSome]
    rfl
  rw [← hperm.length_eq, AList.keys, List.keys, List.length_map, size]

theorem mem_values_iff {m : AssocMap κ ν} : v ∈ values m ↔ ∃ k, m.lookup k = some v := by
  constructor
  · intro h
    obtain ⟨e, he, rfl⟩ := List.mem_map.mp h
    exact ⟨e.1, lookup_eq_some_iff.mpr he⟩
  · rintro ⟨k, h⟩
    exact List.mem_map.mpr ⟨⟨k, v⟩, lookup_eq_some_iff.mp h, rfl⟩

end AssocMap
