import GoClean.Memory.Listing

/-!
# The listings against the queries of the other adapter

`List` and `ListAfter` copy the map in whatever order it is iterated and
hand the copy to `sort.Slice`, which is not stable. Neither shows: with
distinct ids there is only one newest-first order (`newest_unique`). The
PostgreSQL adapter asks for it with `ORDER BY created_at DESC, id DESC`.
-/

namespace GoClean.Postgres

open Go

/-- The row comparison `(created_at, id) < ($1, $2)`; `uuid` values compare
by their bytes. -/
def rowLess (row : Item) (createdAt : Time) (id : UUID) : Bool :=
  row.createdAt.before createdAt ||
    row.createdAt.equal createdAt && decide (row.id.toList < id.toList)

def orderByNewest (rows : List Item) : List Item :=
  rows.insertionSort fun a b => rowLess a b.createdAt b.id = false

def listQuery (rows : List Item) (limit offset : Nat) : List Item :=
  ((orderByNewest rows).drop offset).take limit

def cursorListAfterQuery (rows : List Item) (createdAt : Time) (id : UUID) (limit : Nat) :
    List Item :=
  (orderByNewest (rows.filter fun row => rowLess row createdAt id)).take limit

end GoClean.Postgres

namespace GoClean.Memory

open Go Keyset Postgres

-- ---------------------------------------------------------------------------
-- Any sort
-- ---------------------------------------------------------------------------

/-- What sorting by a comparison leaves: the same values, none before one
that is less. -/
structure SortedBy (less : Item → Item → Bool) (values sorted : List Item) : Prop where
  perm : sorted.Perm values
  ordered : sorted.Pairwise fun a b => less b a = false

/-- `sort.Slice` sorts by every comparison that is a strict weak order. -/
def Sorts (sort : (Item → Item → Bool) → List Item → List Item) : Prop :=
  ∀ less, IsStrictWeakOrder Item (fun a b => less a b = true) → ∀ values,
    SortedBy less values (sort less values)

section
variable (sort : (Item → Item → Bool) → List Item → List Item)

/-- `List` on the values in the order they were copied, with any sort. -/
def listWith (ctx : Option Context) (params : ListParams) (values : List Item) :
    Except Error (List Item) := do
  Op.entryCheck ctx (.list params)
  let values := sort listLess values
  ensureContext ctx
  pure (pageFrom values params.limit params.offset.toNat)

def listAfterWith (ctx : Option Context) (params : CursorListParams) (values : List Item) :
    Except Error (List Item) := do
  Op.entryCheck ctx (.listAfter params)
  let values := sort listAfterLess values
  ensureContext ctx
  let start :=
    match params.after with
    | none => 0
    | some position => values.findIdx (isAfter position)
  pure (pageFrom values params.limit start)

end

theorem sorts_sortSlice : Sorts sortSlice := by
  intro less hless values
  have : Std.Total fun a b : Item => less b a = false := by
    refine ⟨fun a b => ?_⟩
    rw [← Bool.not_eq_true, ← Bool.not_eq_true, ← not_and_or]
    exact fun h => hless.irrefl a (hless.trans _ _ _ h.2 h.1)
  have : IsTrans Item fun a b => less b a = false := by
    refine ⟨fun a b c hab hbc => ?_⟩
    rw [← Bool.not_eq_true] at hab hbc ⊢
    -- if `c` is less than `a`, then `b` can be neither less nor greater than one of them
    intro hca
    have hab' : ¬less a b = true := fun h => hbc (hless.trans _ _ _ hca h)
    have hbc' : ¬less b c = true := fun h => hab (hless.trans _ _ _ h hca)
    exact (hless.incomp_trans a b c ⟨hab', hab⟩ ⟨hbc', hbc⟩).2 hca
  exact ⟨List.perm_insertionSort _ _, List.pairwise_insertionSort _ _⟩

instance strictWeakOrder_listAfterLess :
    IsStrictWeakOrder Item (fun a b => listAfterLess a b = true) where
  irrefl a := by simp [listAfterLess_iff]
  trans a b c := by
    simp only [listAfterLess_iff]
    exact fun hab hbc => hbc.trans hab
  incomp_trans a b c := by
    simp only [listAfterLess_iff, not_lt]
    rintro ⟨hab, hba⟩ ⟨hbc, hcb⟩
    exact ⟨hab.trans hbc, hcb.trans hba⟩

theorem newest_unique (hids : (values.map Item.id).Nodup)
    (h : SortedBy listAfterLess values sorted) :
    sorted = newest values := by
  have hdescending : sorted.Pairwise Newer := by
    have hnodup : sorted.Pairwise fun a b => a.id ≠ b.id :=
      List.pairwise_map.mp ((h.perm.map Item.id).nodup_iff.mpr hids)
    refine h.ordered.imp₂ (fun a b hab hne => newer_iff.mpr ?_) hnodup
    rw [← Bool.not_eq_true, listAfterLess_iff, not_lt] at hab
    exact lt_of_le_of_ne hab fun he => hne (itemKey_id he).symm
  exact eq_newest hids h.perm hdescending

theorem newest_congr (hids : (values.map Item.id).Nodup) (hperm : order.Perm values) :
    newest order = newest values := by
  have hdescending := newest_descending ((hperm.map Item.id).nodup_iff.mpr hids)
  exact eq_newest hids ((newest_perm order).trans hperm) (hdescending.imp newer_iff.mpr)

section
variable {sort : (Item → Item → Bool) → List Item → List Item} {values order : List Item}

theorem Sorts.listAfterLess (hsort : Sorts sort) (hids : (values.map Item.id).Nodup)
    (hperm : order.Perm values) :
    sort listAfterLess order = newest values := by
  have horder : (order.map Item.id).Nodup := (hperm.map Item.id).nodup_iff.mpr hids
  rw [newest_unique horder (hsort _ strictWeakOrder_listAfterLess order), newest_congr hids hperm]

end

-- ---------------------------------------------------------------------------
-- The queries
-- ---------------------------------------------------------------------------

theorem rowLess_eq (row : Item) (position : CursorPosition) :
    rowLess row position.createdAt position.id = isAfter position row := rfl

theorem rowLess_iff {a b : Item} : rowLess a b.createdAt b.id = listAfterLess b a := by
  rw [Bool.eq_iff_iff, listAfterLess_iff, rowLess_eq a ⟨b.createdAt, b.id⟩,
    isAfter_eq, decide_eq_true_eq]
  rfl

theorem orderByNewest_eq (rows : List Item) : orderByNewest rows = newest rows := by
  simp only [orderByNewest, rowLess_iff]
  rfl

theorem newest_filter (hids : (values.map Item.id).Nodup) (p : Item → Bool) :
    newest (values.filter p) = (newest values).filter p := by
  have hsub : ((values.filter p).map Item.id).Nodup := hids.sublist (List.filter_sublist.map _)
  have hperm : ((newest values).filter p).Perm (values.filter p) := (newest_perm values).filter p
  have hsorted : ((newest values).filter p).Pairwise Newer :=
    ((newest_descending hids).imp newer_iff.mpr).sublist List.filter_sublist
  exact (eq_newest hsub hperm hsorted).symm

-- ---------------------------------------------------------------------------
-- Agreement
-- ---------------------------------------------------------------------------

section
variable {sort : (Item → Item → Bool) → List Item → List Item} {values order : List Item}

theorem listWith_eq (hsort : Sorts sort) (hids : (values.map Item.id).Nodup)
    (hperm : order.Perm values)
    (hlimit : 0 ≤ limit ∧ limit ≤ maxPageSize + 1) (hoffset : 0 ≤ offset) :
    listWith sort ctx ⟨limit, offset⟩ order =
      (ensureContext ctx).map fun _ => ((newest values).drop offset.toNat).take limit.toNat := by
  have hcheck : listParamsCheck ⟨limit, offset⟩ = .ok () := by
    simp [listParamsCheck, hlimit, hoffset]
  simp only [listWith, Op.entryCheck, hcheck, listLess_eq, hsort.listAfterLess hids hperm,
    pageFrom_eq]
  cases ensureContext ctx <;> rfl

theorem listAfterWith_eq (hsort : Sorts sort) (hids : (values.map Item.id).Nodup)
    (hperm : order.Perm values) (hlimit : 0 ≤ limit ∧ limit ≤ maxPageSize + 1)
    (hafter : ∀ position ∈ after, position.validate = .ok ()) :
    listAfterWith sort ctx ⟨limit, after⟩ order =
      (ensureContext ctx).map fun _ => (remaining values after).take limit.toNat := by
  have hcheck : listAfterParamsCheck ⟨limit, after⟩ = .ok () := by
    cases after with
    | none => simp [listAfterParamsCheck, hlimit, pure, Except.pure]
    | some position => simp [listAfterParamsCheck, hlimit, hafter position rfl, Except.mapError]
  simp only [listAfterWith, Op.entryCheck, hcheck, hsort.listAfterLess hids hperm, pageFrom_eq]
  cases after with
  | none => cases ensureContext ctx <;> rfl
  | some position =>
    simp only [drop_findIdx_isAfter hids]
    cases ensureContext ctx <;> rfl

end

theorem remaining_item (hids : (values.map Item.id).Nodup) (h : (newest values)[k]? = some v) :
    remaining values (some ⟨v.createdAt, v.id⟩) = (newest values).drop (k + 1) := by
  have hlast : (((newest values).drop 0).take (k + 1)).getLast? = some v := by
    rw [List.drop_zero, List.getLast?_take, if_neg k.succ_ne_zero, Nat.add_sub_cancel,
      h, Option.some_or]
  exact (newest_descending hids).below_piece hlast

/-- Whatever the order of iteration and the sort, both listings cut their
pages out of the one newest-first list, as the queries do. -/
theorem listings_agree (hsort : Sorts sort) (hids : (values.map Item.id).Nodup) :
    ∃ sorted : List Item, sorted.Perm values ∧ sorted.Pairwise Newer ∧
      ∀ order order' ctx limit, order.Perm values → order'.Perm values →
        0 ≤ limit ∧ limit ≤ maxPageSize + 1 →
        (∀ offset, 0 ≤ offset →
          listWith sort ctx ⟨limit, offset⟩ order =
              (ensureContext ctx).map (fun _ => (sorted.drop offset.toNat).take limit.toNat) ∧
          (sorted.drop offset.toNat).take limit.toNat = listQuery order limit.toNat offset.toNat) ∧
        (∀ position : CursorPosition, position.validate = .ok () →
          listAfterWith sort ctx ⟨limit, some position⟩ order' =
              (ensureContext ctx).map (fun _ => (sorted.filter fun v =>
                itemKey v < positionKey position.createdAt position.id).take limit.toNat) ∧
          (sorted.filter fun v =>
              itemKey v < positionKey position.createdAt position.id).take limit.toNat =
            cursorListAfterQuery order' position.createdAt position.id limit.toNat) ∧
        (∀ k v position, sorted[k]? = some v → cursorPositionForItem v = .ok position →
          listAfterWith sort ctx ⟨limit, some position⟩ order' =
            listWith sort ctx ⟨limit, (k + 1 : ℕ)⟩ order) ∧
        listAfterWith sort ctx ⟨limit, none⟩ order' = listWith sort ctx ⟨limit, 0⟩ order := by
  refine ⟨newest values, newest_perm values, (newest_descending hids).imp newer_iff.mpr, ?_⟩
  intro order order' ctx limit hperm hperm' hlimit
  have hlist : ∀ offset, 0 ≤ offset → listWith sort ctx ⟨limit, offset⟩ order = _ :=
    fun offset hoffset => listWith_eq hsort hids hperm hlimit hoffset
  have hlistAfter : ∀ after : Option CursorPosition,
    (∀ position ∈ after, position.validate = .ok ()) →
      listAfterWith sort ctx ⟨limit, after⟩ order' = _ :=
    fun after hafter => listAfterWith_eq hsort hids hperm' hlimit hafter
  have hone : ∀ {position : CursorPosition}, position.validate = .ok () →
      ∀ p ∈ some position, p.validate = .ok () := by
    rintro position hvalid p ⟨⟩
    exact hvalid
  refine ⟨fun offset hoffset => ⟨hlist offset hoffset, ?_⟩, fun position hvalid =>
    ⟨hlistAfter (some position) (hone hvalid), ?_⟩, fun k v position hk hposition => ?_, ?_⟩
  · rw [listQuery, orderByNewest_eq, newest_congr hids hperm]
  · have horder : (order'.map Item.id).Nodup := (hperm'.map Item.id).nodup_iff.mpr hids
    simp only [cursorListAfterQuery, orderByNewest_eq, newest_filter horder,
      newest_congr hids hperm', rowLess_eq, isAfter_eq]
  · obtain ⟨rfl, hvalid⟩ := cursorPositionForItem_ok hposition
    rw [hlistAfter _ (hone hvalid), hlist _ (by omega), remaining_item hids hk, Int.toNat_natCast]
  · rw [hlistAfter none (by simp), hlist 0 le_rfl, Int.toNat_zero, List.drop_zero]
    rfl

/-- Two items of one instant, copied in either order. -/
theorem listings_agree_tied :
    listAfterWith sortSlice (some .background) ⟨2, some ⟨sampleTime, (sampleItem 0xb0).id⟩⟩
        [sampleItem 0x0a, sampleItem 0xb0] =
      .ok (cursorListAfterQuery [sampleItem 0x0a, sampleItem 0xb0] sampleTime
        (sampleItem 0xb0).id 2) ∧
    listAfterWith sortSlice (some .background) ⟨2, none⟩ [sampleItem 0x0a, sampleItem 0xb0] =
      listWith sortSlice (some .background) ⟨2, 0⟩ [sampleItem 0xb0, sampleItem 0x0a] := by
  have hids : ([sampleItem 0x0a, sampleItem 0xb0].map Item.id).Nodup := by decide +kernel
  obtain ⟨sorted, -, -, hagree⟩ := listings_agree sorts_sortSlice hids
  obtain ⟨-, hafter, -, hnone⟩ :=
    hagree [sampleItem 0xb0, sampleItem 0x0a] [sampleItem 0x0a, sampleItem 0xb0]
    (some .background) 2 (List.Perm.swap ..) (List.Perm.refl _) (by decide)
  obtain ⟨hpage, hquery⟩ := hafter ⟨sampleTime, (sampleItem 0xb0).id⟩ (by decide +kernel)
  refine ⟨?_, hnone⟩
  rw [hpage, hquery]
  rfl

end GoClean.Memory
