import Mathlib.Data.List.MinMax
import Mathlib.Data.List.Lex
import Mathlib.Data.Prod.Lex
import Mathlib.Data.Int.ConditionallyCompleteOrder
import GoClean.RateLimit.Laws

/-!
# Which bucket is evicted

`evictOldestLocked` looks for the least entry by the time it was last seen,
then by key. Keys are distinct, so there is one such entry, and the order in
which the map is walked does not matter.
-/

namespace GoClean.RateLimit

open Go

instance byteLinearOrder : LinearOrder UInt8 where
  le_refl := UInt8.le_refl
  le_trans _ _ _ := UInt8.le_trans
  le_antisymm _ _ := UInt8.le_antisymm
  le_total := UInt8.le_total
  lt_iff_le_not_ge a b := by
    rw [UInt8.lt_iff_toNat_lt, UInt8.le_iff_toNat_le, UInt8.le_iff_toNat_le]
    omega
  toDecidableLE := inferInstance
  toDecidableEq := inferInstance
  toDecidableLT := inferInstance

def rank (e : GoString × Bucket) : ℤ ×ₗ GoString := toLex (e.2.lastSeen.val.nanos, e.1)

theorem older_iff :
    older key entry oldestKey oldest = true ↔ rank (key, entry) < rank (oldestKey, oldest) := by
  rw [rank, rank, Prod.Lex.toLex_lt_toLex]
  simp only [older, Bool.or_eq_true, Bool.and_eq_true, decide_eq_true_eq, Time.before_iff_nanos,
    Time.equal_iff_nanos]

theorem oldestOf_eq_argmin (buckets : Buckets) :
    oldestOf buckets = (buckets.entries.map fun e => (e.1, e.2)).argmin rank := by
  rw [oldestOf, List.argmin, List.foldl_map]
  congr 1
  funext oldest e
  cases oldest with
  | none => rfl
  | some o => simp only [List.argAux, older_iff]

theorem oldestOf_some {buckets : Buckets} (h : oldestOf buckets = some (key, entry)) :
    buckets.lookup key = some entry ∧
    ∀ k e, buckets.lookup k = some e → rank (key, entry) ≤ rank (k, e) := by
  rw [oldestOf_eq_argmin] at h
  have hmem : ∀ k e, buckets.lookup k = some e → (k, e) ∈ buckets.entries.map fun e => (e.1, e.2) :=
    fun k e he => List.mem_map.mpr ⟨⟨k, e⟩, AssocMap.lookup_eq_some_iff.mp he, rfl⟩
  constructor
  · obtain ⟨e, he, hpair⟩ := List.mem_map.mp (List.argmin_mem h)
    cases hpair
    exact AssocMap.lookup_eq_some_iff.mpr he
  · exact fun k e he => List.le_of_mem_argmin (hmem k e he) h

theorem oldestOf_none {buckets : Buckets} (h : oldestOf buckets = none) (key : GoString) :
    buckets.lookup key = none := by
  rw [oldestOf_eq_argmin, List.argmin_eq_none, List.map_eq_nil_iff] at h
  rw [AList.lookup, h]
  rfl

theorem oldestOf_congr {buckets buckets' : Buckets}
    (h : ∀ k, buckets.lookup k = buckets'.lookup k) :
    oldestOf buckets = oldestOf buckets' := by
  cases ho : oldestOf buckets with
  | none =>
    cases ho' : oldestOf buckets' with
    | none => rfl
    | some e =>
      have hsome := (oldestOf_some ho').1
      rw [← h, oldestOf_none ho] at hsome
      cases hsome
  | some e =>
    cases ho' : oldestOf buckets' with
    | none =>
      have hsome := (oldestOf_some ho).1
      rw [h, oldestOf_none ho'] at hsome
      cases hsome
    | some e' =>
      obtain ⟨hres, hmin⟩ := oldestOf_some ho
      obtain ⟨hres', hmin'⟩ := oldestOf_some ho'
      have hrank := le_antisymm (hmin e'.1 e'.2 (h _ ▸ hres')) (hmin' e.1 e.2 (h _ ▸ hres))
      have hkey : e.1 = e'.1 := congrArg (fun r => (ofLex r).2) hrank
      rw [h, hkey] at hres
      rw [Prod.ext hkey (Option.some.inj (hres.symm.trans hres'))]

theorem evictOldestLocked_congr {buckets buckets' : Buckets}
    (h : ∀ k, buckets.lookup k = buckets'.lookup k) :
    (evictOldestLocked buckets).2 = (evictOldestLocked buckets').2 ∧
    ∀ k, (evictOldestLocked buckets).1.lookup k = (evictOldestLocked buckets').1.lookup k := by
  unfold evictOldestLocked
  rw [oldestOf_congr h]
  cases oldestOf buckets' with
  | none => exact ⟨rfl, h⟩
  | some e =>
    refine ⟨rfl, fun k => ?_⟩
    by_cases hk : k = e.1
    · rw [hk, AList.lookup_erase, AList.lookup_erase]
    · rw [AList.lookup_erase_ne hk, AList.lookup_erase_ne hk, h]

end GoClean.RateLimit
