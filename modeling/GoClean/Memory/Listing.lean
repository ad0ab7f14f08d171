import GoClean.Lib.Keyset
import GoClean.Item.CursorLaws
import GoClean.Item.Service
import GoClean.Memory.Invariant

/-!
# Listing the memory store

`List` compares ids by their text and `ListAfter` by their bytes; both are
the order of one key, the instant and the id read as a number. So both
methods cut a page out of the same list, `newest`: `List` at an index,
`ListAfter` where the rows after a position begin.
-/

namespace GoClean.Memory

open Go Keyset

/-- `List`, from the entry to the copy under the read lock and on to the
page. -/
def Store.list (store : Store) (ctx : Option Context) (params : ListParams) :
    Except Error (List Item) := do
  Op.entryCheck ctx (.list params)
  listTail ctx params store.values

def Store.listAfter (store : Store) (ctx : Option Context) (params : CursorListParams) :
    Except Error (List Item) := do
  Op.entryCheck ctx (.listAfter params)
  listAfterTail ctx params store.values

def Store.listStore (store : Store) : ListStore := ⟨store.list, some store.listAfter⟩

-- ---------------------------------------------------------------------------
-- One order
-- ---------------------------------------------------------------------------

def positionKey (createdAt : Time) (id : UUID) : (ℤ ×ₗ ℕ) ×ₗ ℕ := toLex (createdAt.instant, id.rank)

def itemKey (value : Item) : (ℤ ×ₗ ℕ) ×ₗ ℕ := positionKey value.createdAt value.id

/-- `a` comes strictly before `b` in newest-first order: a later
`CreatedAt`, or the same and a greater id. -/
def Newer (a b : Item) : Prop :=
  b.createdAt.before a.createdAt = true ∨
    a.createdAt.equal b.createdAt = true ∧ b.id.toList < a.id.toList

section
variable {a b : Item}

theorem positionKey_lt {t u : Time} {id id' : UUID} : positionKey t id < positionKey u id' ↔
    t.before u = true ∨ t.equal u = true ∧ id.toList < id'.toList := by
  rw [positionKey, positionKey, Prod.Lex.toLex_lt_toLex, Time.before_iff, Time.equal_iff,
    UUID.bytes_lt_iff]

theorem equal_comm (t u : Time) : t.equal u = u.equal t := by
  rw [Bool.eq_iff_iff, Time.equal_iff, Time.equal_iff, eq_comm]

theorem newer_iff : Newer a b ↔ itemKey b < itemKey a := by
  rw [itemKey, itemKey, positionKey_lt, Newer, equal_comm]

theorem isAfter_eq (position : CursorPosition) (value : Item) :
    isAfter position value =
      decide (itemKey value < positionKey position.createdAt position.id) := by
  rw [Bool.eq_iff_iff, decide_eq_true_eq, itemKey, positionKey_lt]
  simp [isAfter]

theorem listAfterLess_iff : listAfterLess a b = true ↔ itemKey b < itemKey a := by
  rw [← newer_iff, listAfterLess, Newer]
  split
  · next he =>
    have hne : b.createdAt.before a.createdAt = false := by
      rw [Time.before_eq_false_iff, Time.equal_iff.mp he]
    simp [he, hne]
  · next he =>
    simp only [he, Bool.false_eq_true, false_and, or_false]
    rfl

theorem listLess_eq : listLess = listAfterLess := by
  funext a b
  simp only [listLess, listAfterLess, UUID.string_lt_iff, UUID.bytes_lt_iff]

theorem itemKey_id (h : itemKey a = itemKey b) : a.id = b.id := by
  have hpair : (a.createdAt.instant, a.id.rank) = (b.createdAt.instant, b.id.rank) := toLex_inj.mp h
  exact UUID.rank_injective (Prod.mk.inj hpair).2

end

def newest (values : List Item) : List Item := sortSlice listAfterLess values

theorem newest_perm (values : List Item) : (newest values).Perm values :=
  List.perm_insertionSort _ _

theorem mem_newest : v ∈ newest values ↔ v ∈ values := (newest_perm values).mem_iff

theorem newest_descending (hids : (values.map Item.id).Nodup) :
    Descending itemKey (newest values) := by
  have hle : ∀ a b : Item, listAfterLess b a = false ↔ itemKey b ≤ itemKey a := by
    intro a b
    rw [← Bool.not_eq_true, listAfterLess_iff, not_lt]
  have hsorted : (newest values).Pairwise fun a b => itemKey b ≤ itemKey a := by
    have : Std.Total fun a b : Item => listAfterLess b a = false :=
      ⟨fun a b => by rw [hle, hle]; exact le_total _ _⟩
    have : IsTrans Item fun a b => listAfterLess b a = false :=
      ⟨fun a b c => by rw [hle, hle, hle]; exact fun h h' => h'.trans h⟩
    exact (List.pairwise_insertionSort _ _).imp fun {a b} h => (hle a b).mp h
  have hnodup : (newest values).Pairwise fun a b => a.id ≠ b.id :=
    List.pairwise_map.mp (((newest_perm values).map Item.id).nodup_iff.mpr hids)
  exact hsorted.imp₂ (fun a b h hne => lt_of_le_of_ne h fun he => hne (itemKey_id he).symm) hnodup

theorem eq_newest (hids : (values.map Item.id).Nodup) (hperm : l.Perm values)
    (hsorted : l.Pairwise Newer) :
    l = newest values :=
  Descending.unique (hsorted.imp newer_iff.mp) (newest_descending hids)
    (hperm.trans (newest_perm values).symm)

-- ---------------------------------------------------------------------------
-- Pages
-- ---------------------------------------------------------------------------

theorem values_ids_nodup {store : Store} (h : ∀ id v, store.items.lookup id = some v → v.id = id) :
    (store.values.map Item.id).Nodup := by
  have hkeys : store.values.map Item.id = store.items.entries.map Sigma.fst := by
    rw [Store.values, AssocMap.values, List.map_map]
    exact List.map_congr_left fun e he => h e.1 e.2 (AssocMap.lookup_eq_some_iff.mpr he)
  rw [hkeys]
  exact store.items.nodupKeys

theorem pageFrom_eq : pageFrom values limit start = (values.drop start).take limit.toNat := by
  unfold pageFrom
  split
  · next h =>
    rcases h with h | h
    · simp [h]
    · rw [List.drop_of_length_le h, List.take_nil]
  · rfl

theorem list_ok {store : Store} (h : store.list ctx params = .ok rows) :
    rows = ((newest store.values).drop params.offset.toNat).take params.limit.toNat := by
  simp only [Store.list, listTail, bind_ok, pure_ok, listLess_eq] at h
  obtain ⟨_, -, _, -, rfl⟩ := h
  exact pageFrom_eq

def remaining (values : List Item) : Option CursorPosition → List Item
  | none => newest values
  | some position => below itemKey (positionKey position.createdAt position.id) (newest values)

theorem drop_findIdx_isAfter (hids : (values.map Item.id).Nodup) :
    (newest values).drop ((newest values).findIdx (isAfter position)) = remaining values
    (some position) := by
  rw [funext (isAfter_eq position)]
  exact (newest_descending hids).drop_findIdx

theorem listAfter_ok {store : Store} (hids : (store.values.map Item.id).Nodup)
    (h : store.listAfter ctx params = .ok rows) :
    rows = (remaining store.values params.after).take params.limit.toNat := by
  simp only [Store.listAfter, listAfterTail, bind_ok, pure_ok] at h
  obtain ⟨_, -, _, -, rfl⟩ := h
  rw [pageFrom_eq]
  cases params.after with
  | none => rfl
  | some position => exact congrArg (List.take _) (drop_findIdx_isAfter hids)

theorem cut_cuts (h : Cut codec limit (rest.take (limit + 1).toNat) items more token) :
    Cuts rest items more := by
  have hpos := h.pos
  refine ⟨limit.toNat, by omega, ?_, ?_⟩
  · rw [h.first, List.take_take]
    congr 1
    omega
  · rw [h.more, List.length_take]
    exact decide_eq_decide.mpr (by omega)

end GoClean.Memory
