import Mathlib.Data.List.Dedup
import Mathlib.Data.List.Induction
import Mathlib.Order.Lattice

/-!
# Recently used keys

A cache that holds at most `n` keys and forgets the one that was not used for
the longest time. `touch n` is one use; after any uses the cache holds the
first `n` of the keys in the order of their last use (`foldl_touch`). A cache
that keeps no such order but a stamp for each key is related to it by
`Tracks`: the stamps decrease along the order, so the key with the least
stamp is its last.
-/

namespace Recency

variable {κ τ : Type}

section
variable [DecidableEq κ]

/-- The keys of a list of uses in the order of their last use, the latest
first. -/
def mostRecent (uses : List κ) : List κ := uses.dedup.reverse

def push (recent : List κ) (key : κ) : List κ := key :: recent.erase key

def touch (n : Nat) (recent : List κ) (key : κ) : List κ := (push recent key).take n

theorem dedup_concat (uses : List κ) (key : κ) :
    (uses ++ [key]).dedup = uses.dedup.erase key ++ [key] := by
  induction uses with
  | nil => rfl
  | cons a uses ih =>
    rw [List.cons_append]
    by_cases ha : a ∈ uses
    · rw [List.dedup_cons_of_mem (List.mem_append_left _ ha), List.dedup_cons_of_mem ha, ih]
    · rw [List.dedup_cons_of_notMem ha]
      by_cases hk : a = key
      · subst hk
        have hnot : a ∉ uses.dedup := fun h => ha (List.mem_dedup.mp h)
        rw [List.dedup_cons_of_mem (by simp), ih, List.erase_cons_head, List.erase_of_not_mem hnot]
      · rw [List.dedup_cons_of_notMem (by simp [ha, hk]), ih,
          List.erase_cons_tail (by simpa using hk), List.cons_append]

theorem mostRecent_concat (uses : List κ) (key : κ) :
    mostRecent (uses ++ [key]) = push (mostRecent uses) key := by
  have hnodup := uses.nodup_dedup
  simp only [mostRecent, push, dedup_concat, List.reverse_append, List.reverse_singleton,
    List.singleton_append]
  rw [hnodup.erase_eq_filter, (List.nodup_reverse.mpr hnodup).erase_eq_filter, List.filter_reverse]

theorem take_erase_take (recent : List κ) (key : κ) :
    ∀ n, ((recent.take (n + 1)).erase key).take n = (recent.erase key).take n := by
  induction recent with
  | nil => simp
  | cons a recent ih =>
    intro n
    rw [List.take_succ_cons]
    by_cases hk : a = key
    · rw [hk, List.erase_cons_head, List.erase_cons_head, List.take_take, Nat.min_self]
    · rw [List.erase_cons_tail (by simpa using hk), List.erase_cons_tail (by simpa using hk)]
      cases n with
      | zero => rfl
      | succ n => rw [List.take_succ_cons, List.take_succ_cons, ih]

theorem touch_take (n : Nat) (recent : List κ) (key : κ) :
    touch n (recent.take n) key = touch n recent key := by
  cases n with
  | zero => rfl
  | succ n => rw [touch, touch, push, push, List.take_succ_cons, List.take_succ_cons,
      take_erase_take]

theorem foldl_touch (n : Nat) (uses : List κ) :
    uses.foldl (touch n) [] = (mostRecent uses).take n := by
  induction uses using List.reverseRecOn with
  | nil => simp [mostRecent]
  | append_singleton uses key ih =>
    rw [List.foldl_append, List.foldl_cons, List.foldl_nil, ih, touch_take, mostRecent_concat]
    rfl

example : [3, 1, 2, 1].foldl (touch 2) [] = [1, 2] := by decide

variable {recent : List κ} {key : κ} {n : Nat}

theorem touch_of_mem (hmem : key ∈ recent) (hlen : recent.length ≤ n) :
    touch n recent key = push recent key := by
  have hpos := List.length_pos_of_mem hmem
  refine List.take_of_length_le ?_
  rw [push, List.length_cons, List.length_erase_of_mem hmem]
  omega

theorem touch_of_room (hnot : key ∉ recent) (hlen : recent.length < n) :
    touch n recent key = push recent key := by
  refine List.take_of_length_le ?_
  rw [push, List.length_cons, List.erase_of_not_mem hnot]
  exact hlen

theorem touch_of_full (hnot : key ∉ recent) (hlen : recent.length = n) (hne : recent ≠ []) :
    touch n recent key = push recent.dropLast key := by
  have hpos := List.length_pos_iff.mpr hne
  have hfull : n = recent.length - 1 + 1 := by omega
  have hnot' : key ∉ recent.dropLast := fun hmem => hnot (List.dropLast_subset _ hmem)
  rw [touch, push, push, hfull, List.take_succ_cons, List.erase_of_not_mem hnot,
    List.erase_of_not_mem hnot', List.dropLast_eq_take]

end

-- ---------------------------------------------------------------------------
-- Stamps
-- ---------------------------------------------------------------------------

/-- The keys with a stamp are the recent ones, later ones with greater
stamps. -/
structure Tracks [LinearOrder τ] (stamp : κ → Option τ) (recent : List κ) : Prop where
  stamped : ∀ k, (stamp k).isSome ↔ k ∈ recent
  decreasing : recent.Pairwise fun a b => ∀ s ∈ stamp a, ∀ t ∈ stamp b, t < s

variable [LinearOrder τ] {stamp : κ → Option τ} {recent front : List κ} {old key : κ} {now : τ}

theorem tracks_nil (h : ∀ k, stamp k = none) : Tracks stamp [] := ⟨fun k => by simp [h k], .nil⟩

theorem Tracks.congr {stamp' : κ → Option τ} (h : Tracks stamp recent)
    (hs : ∀ k, stamp' k = stamp k) :
    Tracks stamp' recent := funext hs ▸ h

theorem Tracks.nodup (h : Tracks stamp recent) : recent.Nodup := by
  refine h.decreasing.imp_of_mem fun {a b} ha _ hlt heq => ?_
  obtain ⟨s, hs⟩ := Option.isSome_iff_exists.mp ((h.stamped a).mpr ha)
  exact lt_irrefl s (hlt s hs s (heq ▸ hs))

theorem Tracks.getLast (h : Tracks stamp recent) {s : τ} (hold : stamp old = some s)
    (hleast : ∀ k, ∀ t ∈ stamp k, s ≤ t) : recent.getLast? = some old := by
  have hmem : old ∈ recent := (h.stamped old).mp (hold ▸ rfl)
  obtain ⟨last, hlast⟩ : ∃ last, recent.getLast? = some last :=
    ⟨_, List.getLast?_eq_some_getLast (List.ne_nil_of_mem hmem)⟩
  obtain ⟨front, rfl⟩ := List.getLast?_eq_some_iff.mp hlast
  rcases List.mem_append.mp hmem with hfront | heq
  · obtain ⟨t, ht⟩ := Option.isSome_iff_exists.mp ((h.stamped last).mpr (by simp))
    have hlt := (List.pairwise_append.mp h.decreasing).2.2 old hfront last (by simp) s hold t ht
    exact absurd (hleast last t ht) hlt.not_ge
  · rw [hlast, List.mem_singleton.mp heq]

variable [DecidableEq κ]

theorem Tracks.use (h : Tracks stamp recent) (hnow : ∀ k, ∀ s ∈ stamp k, s < now) :
    Tracks (fun k => if k = key then some now else stamp k) (push recent key) := by
  have hmem : ∀ {k}, k ∈ recent.erase key → k ≠ key ∧ k ∈ recent :=
    fun {k} hk => h.nodup.mem_erase_iff.mp hk
  refine ⟨fun k => ?_, List.pairwise_cons.mpr ⟨?_, ?_⟩⟩
  · by_cases hk : k = key
    · simp [hk, push]
    · simp [hk, push, h.stamped k, h.nodup.mem_erase_iff]
  · intro k hk s hs t ht
    rw [if_pos rfl, Option.mem_some_iff] at hs
    rw [if_neg (hmem hk).1] at ht
    exact hs ▸ hnow k t ht
  · refine (h.decreasing.sublist List.erase_sublist).imp_of_mem fun {a b} ha hb hlt => ?_
    rw [if_neg (hmem ha).1, if_neg (hmem hb).1]
    exact hlt

theorem Tracks.forget (h : Tracks stamp (front ++ [old])) :
    Tracks (fun k => if k = old then none else stamp k) front := by
  obtain ⟨hfront, -, hcross⟩ := List.nodup_append.mp h.nodup
  have hne : ∀ {k}, k ∈ front → k ≠ old := fun {k} hk => hcross k hk old (by simp)
  refine ⟨fun k => ?_, ?_⟩
  · by_cases hk : k = old
    · simpa [hk] using fun hmem => hne hmem rfl
    · simp [hk, h.stamped k]
  · refine (List.pairwise_append.mp h.decreasing).1.imp_of_mem fun {a b} ha hb hlt => ?_
    rw [if_neg (hne ha), if_neg (hne hb)]
    exact hlt

end Recency
