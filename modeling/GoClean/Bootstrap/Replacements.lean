import GoClean.Bootstrap.TextLaws

/-!
# Laws of the replacements

What `normalizeReplacements` keeps and in which order, the rules of a run,
and the files it leaves.
-/

namespace GoClean.Bootstrap

open Go Rewriting

-- ---------------------------------------------------------------------------
-- Normalisation
-- ---------------------------------------------------------------------------

def Replacement.Changes (item : Replacement) (old : GoString) : Prop :=
  item.old = old ∧ item.old ≠ [] ∧ item.old ≠ item.new

instance (item : Replacement) (old : GoString) : Decidable (item.Changes old) := by
  unfold Replacement.Changes
  infer_instance

def itemFor (items : List Replacement) (old : GoString) : Option Replacement :=
  items.find? fun item => decide (item.Changes old)

theorem itemFor_eq_some (h : itemFor items old = some item) : item ∈ items ∧ item.Changes old := by
  have hchanges := List.find?_some h
  exact ⟨List.mem_of_find?_eq_some h, of_decide_eq_true hchanges⟩

theorem itemFor_cons :
    itemFor (item :: items) old = if item.Changes old then some item else itemFor items old := by
  unfold itemFor
  by_cases h : item.Changes old <;> simp [h]

/-- What one item adds: the rule it is, if it changes a text no rule is for
yet. -/
theorem mem_keepItem : r ∈ keepItem result item ↔
    r ∈ result ∨ (∀ a ∈ result, a.old ≠ r.old) ∧ item.Changes r.old ∧ item = ⟨r.old, r.new⟩ := by
  unfold keepItem
  split_ifs with hidle hseen
  · refine ⟨.inl, fun h => h.elim id ?_⟩
    rintro ⟨-, ⟨-, hne, hchanged⟩, -⟩
    exact (hidle.elim hne hchanged).elim
  · refine ⟨.inl, fun h => h.elim id ?_⟩
    rintro ⟨hnew, -, rfl⟩
    obtain ⟨a, ha, heq⟩ := List.any_eq_true.mp hseen
    exact absurd (beq_iff_eq.mp heq) (hnew a ha)
  · rw [not_or] at hidle
    rw [List.mem_append, List.mem_singleton]
    refine or_congr_right ⟨?_, ?_⟩
    · rintro rfl
      exact ⟨fun a ha heq => hseen (List.any_eq_true.mpr ⟨a, ha, beq_iff_eq.mpr heq⟩),
        ⟨rfl, hidle⟩, rfl⟩
    · rintro ⟨-, -, rfl⟩
      rfl

theorem exists_mem_keepItem : (∃ a ∈ keepItem result item, a.old = old) ↔
    (∃ a ∈ result, a.old = old) ∨ item.Changes old := by
  constructor
  · rintro ⟨a, ha, rfl⟩
    rcases mem_keepItem.mp ha with ha | ⟨-, hchanges, -⟩
    · exact .inl ⟨a, ha, rfl⟩
    · exact .inr hchanges
  · intro h
    by_cases hseen : ∃ a ∈ result, a.old = old
    · obtain ⟨a, ha, rfl⟩ := hseen
      exact ⟨a, mem_keepItem.mpr (.inl ha), rfl⟩
    · obtain ⟨rfl, hne, hchanged⟩ := h.resolve_left hseen
      refine ⟨⟨item.old, item.new, hne⟩, mem_keepItem.mpr (.inr ⟨?_, ⟨rfl, hne, hchanged⟩, rfl⟩),
        rfl⟩
      exact fun a ha heq => hseen ⟨a, ha, heq⟩

theorem mem_foldl_keepItem : r ∈ items.foldl keepItem result ↔
    r ∈ result ∨ (∀ a ∈ result, a.old ≠ r.old) ∧ itemFor items r.old = some ⟨r.old, r.new⟩ := by
  induction items generalizing result with
  | nil => simp [itemFor]
  | cons item items ih =>
    have hkept : (∃ a ∈ keepItem result item, a.old = r.old) ↔ _ := exists_mem_keepItem
    rw [List.foldl_cons, ih, mem_keepItem, itemFor_cons]
    by_cases hchanges : item.Changes r.old
    · -- from here on the text has a rule
      have hseen : ¬∀ a ∈ keepItem result item, a.old ≠ r.old := by
        push Not
        exact hkept.mpr (.inr hchanges)
      simp only [hchanges, hseen, true_and, false_and, or_false, if_true, Option.some.injEq]
    · have hsame : (∀ a ∈ keepItem result item, a.old ≠ r.old) ↔ ∀ a ∈ result, a.old ≠ r.old := by
        rw [← not_iff_not]
        push Not
        rw [hkept, or_iff_left hchanges]
      simp only [hchanges, hsame, false_and, and_false, or_false, if_false]

theorem mem_normalizeReplacements :
    r ∈ normalizeReplacements items ↔ itemFor items r.old = some ⟨r.old, r.new⟩ := by
  rw [normalizeReplacements, List.mem_insertionSort, mem_foldl_keepItem]
  simp

theorem normalizeReplacements_distinct (ha : a ∈ normalizeReplacements items)
    (hb : b ∈ normalizeReplacements items) (heq : a.old = b.old) : a = b := by
  have hitem := mem_normalizeReplacements.mp ha
  rw [heq, mem_normalizeReplacements.mp hb] at hitem
  obtain ⟨old, new, _⟩ := a
  obtain ⟨old', new', _⟩ := b
  cases hitem
  cases heq
  rfl

theorem sortsBefore_eq_false : sortsBefore b a = false ↔
    b.old.length < a.old.length ∨ b.old.length = a.old.length ∧ a.old ≤ b.old := by
  unfold sortsBefore
  split_ifs with hlen
  · rw [decide_eq_false_iff_not, List.not_lt]
    exact ⟨fun h => .inr ⟨hlen, h⟩, fun h => h.elim (fun h => absurd hlen h.ne) fun h => h.2⟩
  · rw [decide_eq_false_iff_not, Nat.not_lt]
    exact ⟨fun h => .inl (lt_of_le_of_ne h hlen),
      fun h => h.elim Nat.le_of_lt fun h => absurd h.1 hlen⟩

theorem normalizeReplacements_sorted (items : List Replacement) :
    (normalizeReplacements items).Pairwise fun a b => sortsBefore b a = false := by
  have : Std.Total fun a b : Rule UInt8 => sortsBefore b a = false := by
    refine ⟨fun a b => ?_⟩
    rw [sortsBefore_eq_false, sortsBefore_eq_false]
    rcases Nat.lt_trichotomy a.old.length b.old.length with h | h | h
    · exact .inr (.inl h)
    · exact Std.le_total.imp (fun hle => .inr ⟨h.symm, hle⟩) fun hle => .inr ⟨h, hle⟩
    · exact .inl (.inl h)
  have : IsTrans (Rule UInt8) fun a b => sortsBefore b a = false := by
    refine ⟨fun a b c hab hbc => ?_⟩
    rw [sortsBefore_eq_false] at hab hbc ⊢
    rcases hab with hab | ⟨hab, hle⟩ <;> rcases hbc with hbc | ⟨hbc, hle'⟩
    · exact .inl (hbc.trans hab)
    · exact .inl (hbc ▸ hab)
    · exact .inl (hab ▸ hbc)
    · exact .inr ⟨hbc.trans hab, Std.le_trans hle hle'⟩
  exact List.pairwise_insertionSort _ _

theorem normalizeReplacements_longest (items : List Replacement) :
    (normalizeReplacements items).Pairwise fun a b => b.old.length ≤ a.old.length :=
  (normalizeReplacements_sorted items).imp fun h => by
    rcases sortsBefore_eq_false.mp h with h | ⟨h, -⟩
    · exact h.le
    · exact h.le

theorem itemFor_of_distinct (hdistinct : (items.map Replacement.old).Nodup) :
    itemFor items old = some item ↔ item ∈ items ∧ item.Changes old := by
  refine ⟨itemFor_eq_some, ?_⟩
  rintro ⟨hmem, hchanges⟩
  cases hfirst : itemFor items old with
  | none => exact absurd (decide_eq_true hchanges) (List.find?_eq_none.mp hfirst item hmem)
  | some kept =>
    obtain ⟨hkept, hold, -⟩ := itemFor_eq_some hfirst
    rw [List.inj_on_of_nodup_map hdistinct hkept hmem (hold.trans hchanges.1.symm)]

theorem normalizeReplacements_perm (hperm : items.Perm items')
    (hdistinct : (items.map Replacement.old).Nodup)
    (r : Rule UInt8) : r ∈ normalizeReplacements items ↔ r ∈ normalizeReplacements items' := by
  have hdistinct' := ((hperm.map Replacement.old).nodup_iff).mp hdistinct
  rw [mem_normalizeReplacements, mem_normalizeReplacements, itemFor_of_distinct hdistinct,
    itemFor_of_distinct hdistinct', hperm.mem_iff]

-- ---------------------------------------------------------------------------
-- The rules of a run
-- ---------------------------------------------------------------------------

def allItems (found : Metadata) (opts : Options) : List Replacement :=
  projectItems found opts ++ found.oldEmails.map fun old => ⟨old, opts.email⟩

theorem emailItems_ok : emailItems oldEmails email = .ok items ↔
    (oldEmails = [] ∧ email = [] ∨ (∃ old, oldEmails = [old]) ∧ email ≠ []) ∧
      (oldEmails.map fun old => ⟨old, email⟩) = items := by
  unfold emailItems
  simp only [bind_ok, reject_ok]
  by_cases hemail : email = []
  · cases oldEmails <;> simp [hemail]
  · cases oldEmails with
    | nil => simp [hemail]
    | cons old rest => cases rest <;> simp [hemail]

theorem makeReplacements_ok : makeReplacements found opts = .ok rules ↔
    (newOwner opts = [] ∨ ownerPattern (newOwner opts) = true) ∧
    (found.oldOwner = [] ∨ newOwner opts ≠ []) ∧
      (found.oldEmails = [] ∧ opts.email = [] ∨ (∃ old, found.oldEmails = [old]) ∧
        opts.email ≠ []) ∧
      rules = normalizeReplacements (allItems found opts) := by
  simp only [makeReplacements, bind_ok, reject_ok, pure_ok, emailItems_ok, allItems,
    Bool.and_eq_false_iff, Bool.not_eq_false', List.isEmpty_iff, List.isEmpty_eq_false_iff]
  constructor
  · rintro ⟨_, howner, _, hgithub, emails, ⟨hemails, rfl⟩, rfl⟩
    exact ⟨howner, hgithub, hemails, rfl⟩
  · rintro ⟨howner, hgithub, hemails, rfl⟩
    exact ⟨(), howner, (), hgithub, _, ⟨hemails, rfl⟩, rfl⟩

theorem readMetadata_ok : readMetadata tree = .ok found ↔ ∃ goMod oldModule,
    tree.lookup (str "go.mod") = some goMod ∧ moduleDirective goMod.data = some oldModule ∧
      found = metadataOf tree oldModule := by
  unfold readMetadata
  cases hfile : tree.lookup (str "go.mod") with
  | none => simp
  | some goMod => cases hmodule : moduleDirective goMod.data <;> simp [eq_comm, hmodule]

theorem moduleDirective_bytes (h : moduleDirective text = some oldModule) :
    oldModule ≠ [] ∧ ∀ b ∈ oldModule, isNameByte b = true := by
  obtain ⟨line, -, hline⟩ := List.exists_of_findSome?_eq_some h
  obtain ⟨gap, tail, -, -, -, hne, hbytes, -⟩ := directiveLine_eq_some hline
  exact ⟨hne, hbytes⟩

theorem mem_ownerItems : item ∈ ownerItems old new plain ↔ (old ≠ [] ∧ new ≠ []) ∧
    (item = ⟨str "github.com/" ++ old, str "github.com/" ++ new⟩ ∨
      item = ⟨str "@" ++ old, str "@" ++ new⟩ ∨
      old ≠ new ∧ item = ⟨old, plain⟩) := by
  unfold ownerItems
  by_cases howners : old ≠ [] ∧ new ≠ []
  · by_cases hchanged : old ≠ new <;> simp [howners, hchanged]
  · rw [if_neg howners, iff_false_right (fun h => howners h.1)]
    exact List.not_mem_nil

theorem mem_authorItems :
    item ∈ authorItems old plain ↔ (old ≠ [] ∧ plain ≠ []) ∧ item = ⟨old, plain⟩ := by
  unfold authorItems
  split_ifs with hauthors <;> simp [hauthors]

theorem mem_allItems : item ∈ allItems found opts ↔
    item = ⟨found.oldModule, opts.module⟩ ∨ item = ⟨found.oldSlug, opts.slug⟩ ∨
      item = ⟨found.oldTitle, titleFromSlug opts.slug⟩ ∨
      item ∈ ownerItems found.oldOwner (newOwner opts) (plainOwner opts) ∨
      item ∈ authorItems found.oldAuthor (plainOwner opts) ∨ ∃ old ∈ found.oldEmails,
      item = ⟨old, opts.email⟩ := by
  simp only [allItems, projectItems, List.mem_append, List.mem_map, List.mem_cons, List.not_mem_nil,
    or_false, or_assoc, eq_comm]

theorem item_of_mem (hrules : makeReplacements found opts = .ok rules) (hr : r ∈ rules) :
    ⟨r.old, r.new⟩ ∈ allItems found opts ∧ r.old ≠ r.new := by
  obtain ⟨-, -, -, rfl⟩ := makeReplacements_ok.mp hrules
  obtain ⟨hmem, -, -, hchanged⟩ := itemFor_eq_some (mem_normalizeReplacements.mp hr)
  exact ⟨hmem, hchanged⟩

theorem exists_rule (hrules : makeReplacements found opts = .ok rules)
    (hitem : item ∈ allItems found opts)
    (hchanges : item.Changes item.old) : ∃ r ∈ rules, r.old = item.old := by
  obtain ⟨-, -, -, rfl⟩ := makeReplacements_ok.mp hrules
  cases hfirst : itemFor (allItems found opts) item.old with
  | none => exact absurd (decide_eq_true hchanges) (List.find?_eq_none.mp hfirst item hitem)
  | some kept =>
    obtain ⟨-, hold, hne, -⟩ := itemFor_eq_some hfirst
    rw [← hold] at hfirst
    exact ⟨⟨kept.old, kept.new, hne⟩, mem_normalizeReplacements.mpr hfirst, hold⟩

-- ---------------------------------------------------------------------------
-- The files a run leaves
-- ---------------------------------------------------------------------------

theorem File.text_eq_some {file : File} {before : GoString} (h : file.text = some before) :
    before = file.data := by
  unfold File.text at h
  split_ifs at h
  exact (Option.some.inj h).symm

end GoClean.Bootstrap
