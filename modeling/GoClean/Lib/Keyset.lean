import Mathlib.Order.Lattice
import Mathlib.Data.List.Pairwise
import Mathlib.Data.List.Basic

/-!
# Keyset pagination

Rows in strictly descending order of a key are read page by page. The
first page starts at an index; every later page starts below the key of the
last row served, in whatever rows there are by then. A `Walk` is such a
reading while rows are added between the pages. What it serves is
descending (`Walk.descending`), covers the first rows (`Walk.covers`),
never shows a row that came too late (`Walk.late`) and, when no row is
added, is a piece of the first rows that grows with every page
(`Walk.static`).
-/

namespace Keyset

variable {α κ : Type} [LinearOrder κ] {key : α → κ}

def Descending (key : α → κ) (rows : List α) : Prop := rows.Pairwise fun a b => key b < key a

def below (key : α → κ) (bound : κ) (rows : List α) : List α := rows.filter fun a => key a < bound

theorem mem_below : a ∈ below key bound rows ↔ a ∈ rows ∧ key a < bound := by
  simp [below]

theorem Descending.nodup (h : Descending key rows) : rows.Nodup :=
  h.imp fun hlt he => absurd (congrArg key he) hlt.ne'

theorem Descending.below (h : Descending key rows) : Descending key (below key bound rows) :=
  h.sublist List.filter_sublist

theorem Descending.unique (h : Descending key rows) (h' : Descending key rows')
    (hperm : rows.Perm rows') :
    rows = rows' :=
  hperm.eq_of_pairwise (fun _ _ _ _ hab hba => absurd hab hba.asymm) h h'

/-- Scanning for the first row after a key finds where the rows after it
begin. -/
theorem Descending.drop_findIdx (h : Descending key rows) :
    rows.drop (rows.findIdx fun a => decide (key a < bound)) = Keyset.below key bound rows := by
  induction rows with
  | nil => rfl
  | cons a rest ih =>
    obtain ⟨hhead, hrest⟩ := List.pairwise_cons.mp h
    rw [List.findIdx_cons]
    by_cases ha : key a < bound
    · have hall : ∀ b ∈ a :: rest, decide (key b < bound) = true := by
        intro b hb
        rcases List.mem_cons.mp hb with rfl | hb
        · exact decide_eq_true ha
        · exact decide_eq_true ((hhead b hb).trans ha)
      rw [Keyset.below, List.filter_eq_self.mpr hall]
      simp [ha]
    · have hcut : Keyset.below key bound (a :: rest) = Keyset.below key bound rest :=
        List.filter_cons_of_neg (by simpa using ha)
      simp [ha, ih hrest, hcut]

theorem Descending.below_getLast (h : Descending key (part ++ rest))
    (hlast : part.getLast? = some b) :
    Keyset.below key (key b) (part ++ rest) = rest := by
  obtain ⟨front, rfl⟩ := List.getLast?_eq_some_iff.mp hlast
  obtain ⟨hpart, -, hcross⟩ := List.pairwise_append.mp h
  obtain ⟨-, -, hfront⟩ := List.pairwise_append.mp hpart
  rw [Keyset.below, List.filter_append, List.filter_eq_nil_iff.mpr, List.filter_eq_self.mpr,
    List.nil_append]
  · intro a ha
    exact decide_eq_true (hcross b (by simp) a ha)
  · intro a ha
    rcases List.mem_append.mp ha with ha | ha
    · simpa using (hfront a ha b (by simp)).le
    · rw [List.mem_singleton.mp ha]
      simp

theorem Descending.below_piece (h : Descending key rows)
    (hlast : ((rows.drop start).take n).getLast? = some b) :
    Keyset.below key (key b) rows = (rows.drop start).drop n := by
  have hsplit : rows = (rows.take start ++ (rows.drop start).take n) ++
      (rows.drop start).drop n := by
    rw [List.append_assoc, List.take_append_drop, List.take_append_drop]
  have hpart : (rows.take start ++ (rows.drop start).take n).getLast? = some b := by
    rw [List.getLast?_append, hlast, Option.some_or]
  have hbelow := Descending.below_getLast (hsplit ▸ h) hpart
  rwa [← hsplit] at hbelow

-- ---------------------------------------------------------------------------
-- Walks
-- ---------------------------------------------------------------------------

structure Page (α : Type) where
  rows : List α
  items : List α
  more : Bool

/-- `items` are the first rows of `rest`, at least one of them unless there
is none, and `more` says whether they left some. -/
def Cuts (rest items : List α) (more : Bool) : Prop :=
  ∃ n, 0 < n ∧ items = rest.take n ∧ more = decide (n < rest.length)

inductive Walk (key : α → κ) (first : List α) (start : Nat) : List (Page α) → Prop
  | first : Descending key first → Cuts (first.drop start) items more →
      Walk key first start [⟨first, items, more⟩]
  | next : Walk key first start (page :: pages) → page.more = true → Descending key rows →
      page.rows ⊆ rows → page.items.getLast? = some b → Cuts (below key (key b) rows) items more →
      Walk key first start (⟨rows, items, more⟩ :: page :: pages)

def served : List (Page α) → List α
  | [] => []
  | page :: pages => served pages ++ page.items

theorem mem_served : a ∈ served pages ↔ ∃ page ∈ pages, a ∈ page.items := by
  induction pages with
  | nil => simp [served]
  | cons page pages ih => simp [served, ih, or_comm]

section
variable {rest items : List α} {more : Bool}

theorem Cuts.subset (h : Cuts rest items more) : items ⊆ rest := by
  obtain ⟨n, -, rfl, -⟩ := h
  exact List.take_subset n rest

theorem Cuts.descending (h : Cuts rest items more) (hrest : Descending key rest) :
    Descending key items := by
  obtain ⟨n, -, rfl, -⟩ := h
  exact hrest.sublist (List.take_sublist n rest)

theorem Cuts.getLast (h : Cuts rest items true) : ∃ b, items.getLast? = some b := by
  obtain ⟨n, hpos, rfl, hmore⟩ := h
  have hlt : n < rest.length := of_decide_eq_true hmore.symm
  refine ⟨_, List.getLast?_eq_some_getLast ?_⟩
  intro he
  have hlen := congrArg List.length he
  rw [List.length_take, List.length_nil] at hlen
  omega

/-- A row of the rest is on the page or, if the page leaves some, after its
last. -/
theorem Cuts.covers (h : Cuts rest items more) (hrest : Descending key rest) (ha : a ∈ rest) :
    a ∈ items ∨ more = true ∧ ∀ b, items.getLast? = some b → key a < key b := by
  obtain ⟨n, -, rfl, rfl⟩ := h
  rw [← List.take_append_drop n rest] at ha hrest
  rcases List.mem_append.mp ha with ha | ha
  · exact .inl ha
  · refine .inr ⟨?_, fun b hb => ?_⟩
    · have hpos := List.length_pos_of_mem ha
      rw [List.length_drop] at hpos
      exact decide_eq_true (by omega)
    · exact (List.pairwise_append.mp hrest).2.2 b (List.mem_of_getLast? hb) a ha

end

section
variable {first : List α} {start : Nat} {page : Page α} {pages : List (Page α)}

theorem Walk.rows_descending (h : Walk key first start (page :: pages)) :
    Descending key page.rows := by
  cases h with
  | first hd _ => exact hd
  | next _ _ hd _ _ _ => exact hd

/-- The last row of a page with more to come, which is where the next page
starts. -/
theorem Walk.getLast (h : Walk key first start (page :: pages)) (hmore : page.more = true) :
    ∃ b, page.items.getLast? = some b := by
  cases h with
  | first _ hcut =>
    cases hmore
    exact hcut.getLast
  | next _ _ _ _ _ hcut =>
    cases hmore
    exact hcut.getLast

theorem getLast_served (h : page.items.getLast? = some b) :
    (served (page :: pages)).getLast? = some b := by
  rw [served, List.getLast?_append, h, Option.some_or]

theorem Walk.served_subset (h : Walk key first start (page :: pages)) :
    served (page :: pages) ⊆ page.rows := by
  generalize hall : page :: pages = all at h
  induction h generalizing page pages with
  | first _ hcut =>
    cases hall
    exact List.append_subset.mpr ⟨List.nil_subset _,
      List.Subset.trans hcut.subset (List.drop_subset _ _)⟩
  | next _ _ _ hsub _ hcut ih =>
    cases hall
    refine List.append_subset.mpr ⟨List.Subset.trans (ih rfl) hsub, ?_⟩
    exact List.Subset.trans hcut.subset fun a ha => (mem_below.mp ha).1

theorem Walk.descending (h : Walk key first start pages) : Descending key (served pages) := by
  induction h with
  | first hd hcut => exact hcut.descending (hd.sublist (List.drop_sublist _ _))
  | next hw _ hd _ hlast hcut ih =>
    refine List.pairwise_append.mpr ⟨ih, hcut.descending hd.below, ?_⟩
    -- the boundary separates: all that was served is at or above it
    intro a ha b hb
    have hbelow := (mem_below.mp (hcut.subset hb)).2
    obtain ⟨front, hfront⟩ := List.getLast?_eq_some_iff.mp (getLast_served hlast)
    rw [hfront] at ha ih
    rcases List.mem_append.mp ha with ha | ha
    · exact hbelow.trans ((List.pairwise_append.mp ih).2.2 a ha _ (by simp))
    · rw [List.mem_singleton.mp ha]
      exact hbelow

theorem Walk.boundary_le (h : Walk key first start (page :: pages))
    (hlast : page.items.getLast? = some b) (ha : a ∈ served (page :: pages)) : key b ≤ key a := by
  have hd := h.descending
  have hend : (served (page :: pages)).getLast? = some b := getLast_served hlast
  obtain ⟨front, hfront⟩ := List.getLast?_eq_some_iff.mp hend
  rw [hfront] at ha hd
  rcases List.mem_append.mp ha with ha | ha
  · exact ((List.pairwise_append.mp hd).2.2 a ha b (by simp)).le
  · rw [List.mem_singleton.mp ha]

/-- Of the first rows from the start index on, what is not yet served is
still to come. -/
theorem Walk.covers (h : Walk key first start (page :: pages)) (ha : a ∈ first.drop start) :
    a ∈ served (page :: pages) ∨
      page.more = true ∧ a ∈ page.rows ∧ ∀ b, page.items.getLast? = some b → key a < key b := by
  generalize hall : page :: pages = all at h
  induction h generalizing page pages with
  | first hd hcut =>
    cases hall
    rcases hcut.covers (hd.sublist (List.drop_sublist _ _)) ha with h | ⟨hmore, hbelow⟩
    · exact .inl (List.mem_append_right _ h)
    · exact .inr ⟨hmore, List.drop_subset _ _ ha, hbelow⟩
  | next _ _ hd hsub hlast hcut ih =>
    cases hall
    rcases ih rfl with hserved | ⟨-, hrows, hbelow⟩
    · exact .inl (List.mem_append_left _ hserved)
    · rcases hcut.covers hd.below (mem_below.mpr ⟨hsub hrows, hbelow _ hlast⟩) with h | ⟨hmore,
        hbelow'⟩
      · exact .inl (List.mem_append_right _ h)
      · exact .inr ⟨hmore, hsub hrows, hbelow'⟩

/-- A row that came after a page, at or above the page's last row, is never
served. -/
theorem Walk.late (h : Walk key first start pages) (hpage : page ∈ pages) (hnew : a ∉ page.rows)
    (hlast : page.items.getLast? = some b) (hkey : key b ≤ key a) : a ∉ served pages := by
  induction h with
  | first hd hcut =>
    rw [List.mem_singleton] at hpage
    subst hpage
    exact fun hmem => hnew ((Walk.first hd hcut).served_subset hmem)
  | next hw hmore hd hsub hbound hcut ih =>
    rcases List.mem_cons.mp hpage with rfl | hpage
    · exact fun hmem => hnew ((Walk.next hw hmore hd hsub hbound hcut).served_subset hmem)
    · intro hmem
      rcases List.mem_append.mp hmem with hmem | hmem
      · exact ih hpage hmem
      · have hb := hw.boundary_le hbound (mem_served.mpr ⟨_, hpage, List.mem_of_getLast? hlast⟩)
        have ha := (mem_below.mp (hcut.subset hmem)).2
        exact absurd (ha.trans_le (hb.trans hkey)) (lt_irrefl _)

theorem Walk.static (h : Walk key first start (page :: pages))
    (hsame : ∀ p ∈ page :: pages, p.rows ⊆ first) :
    page.rows = first ∧ ∃ n, served (page :: pages) = (first.drop start).take n ∧
      page.more = decide (n < (first.drop start).length) ∧ (page :: pages).length ≤ n := by
  generalize hall : page :: pages = all at h
  induction h generalizing page pages with
  | first _ hcut =>
    cases hall
    obtain ⟨n, hpos, rfl, hmore⟩ := hcut
    exact ⟨rfl, n, rfl, hmore, hpos⟩
  | @next last pages rows b items more hw hlastmore hd hsub hlast hcut ih =>
    cases hall
    obtain ⟨hrows, n, hserved, hmore, hlen⟩ :=
      ih (fun p hp => hsame p (List.mem_cons_of_mem _ hp)) rfl
    have hfirst : Descending key first := hrows ▸ hw.rows_descending
    have hperm : rows.Perm first := (List.perm_ext_iff_of_nodup hd.nodup hfirst.nodup).mpr fun a =>
      ⟨fun ha => hsame _ List.mem_cons_self ha, fun ha => hsub (hrows.symm ▸ ha)⟩
    have heq : rows = first := hd.unique hfirst hperm
    subst heq
    have hlt : n < (rows.drop start).length := of_decide_eq_true (hmore.symm.trans hlastmore)
    -- below the boundary is what follows the part already served
    rw [hd.below_piece (hserved ▸ getLast_served hlast)] at hcut
    obtain ⟨m, hpos, rfl, hmore'⟩ := hcut
    refine ⟨rfl, n + m, ?_, ?_, ?_⟩
    · rw [served, hserved, List.take_add]
    · rw [hmore', List.length_drop]
      exact decide_eq_decide.mpr (by omega)
    · rw [List.length_cons]
      omega

end

end Keyset
