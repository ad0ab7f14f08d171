import GoClean.Go.Strings
import GoClean.Item.Model

/-!
# The content checks of the items table

`db/migrations/0000001_create_items.up.sql`: what PostgreSQL asks of the name
and the description of a row, in a UTF-8 database. A text value is well-formed
UTF-8 without U+0000, and `btrim` removes spaces only.
-/

namespace GoClean.Postgres

open Go

def isTextValue (s : GoString) : Bool := validString s && !s.contains 0

def btrim (s : GoString) : GoString := (s.dropWhile (· == 0x20)).rdropWhile (· == 0x20)

def charLength (s : GoString) : Nat := runeCountInString s

/-- The types and checks of the two columns:
`name VARCHAR(120) CHECK (char_length(btrim(name)) BETWEEN 1 AND 120)` and
`description TEXT CHECK (char_length(description) <= 2000)`. -/
def itemsAccepts (name description : GoString) : Bool :=
  isTextValue name && isTextValue description && decide (charLength name ≤ 120) &&
    decide (1 ≤ charLength (btrim name) ∧ charLength (btrim name) ≤ 120) &&
      decide (charLength description ≤ 2000)

-- ---------------------------------------------------------------------------
-- Trimmed text
-- ---------------------------------------------------------------------------

theorem isTextValue_iff : isTextValue s = true ↔ validString s = true ∧ 0 ∉ s := by
  simp [isTextValue]

theorem mem_trimSpace_iff : 0 ∈ trimSpace s ↔ 0 ∈ s :=
  ⟨fun h => (trimSpace_isInfix s).subset h, fun h => mem_trimSpace h (by decide) (by decide)⟩

theorem btrim_of_trimmed (h : Trimmed s) : btrim s = s := by
  have hspace : isSpace (rune [0x20]) = true := by decide
  have hleft : s.dropWhile (· == 0x20) = s := by
    cases s with
    | nil => rfl
    | cons b rest =>
      refine List.dropWhile_cons_of_neg fun hb => ?_
      rw [beq_iff_eq.mp hb] at h
      rw [h.1 _ (head_chunk rfl (by decide))] at hspace
      cases hspace
  rw [btrim, hleft, List.rdropWhile_eq_self_iff]
  intro hne hb
  rw [beq_iff_eq] at hb
  have hlast : s.getLast? = some 0x20 := by rw [List.getLast?_eq_some_getLast hne, hb]
  rw [h.2 _ (getLast_chunk hlast (by decide))] at hspace
  cases hspace

/-- The table accepts what the service has validated if and only if neither
field holds U+0000: this is the only gap between the two. -/
theorem itemsAccepts_iff (h : validateCreateInput input = .ok canonical) :
    itemsAccepts canonical.name canonical.description = true ↔ 0 ∉ input.name ∧
    0 ∉ input.description := by
  simp only [validateCreateInput, bind_ok, ensure_ok, pure_ok, decide_eq_true_eq] at h
  obtain ⟨_, hname, _, hmin, _, hmax, _, hdescription, _, hlong, rfl⟩ := h
  have hbtrim : btrim (trimSpace input.name) = trimSpace input.name :=
    btrim_of_trimmed (trimmed_trimSpace _)
  simp only [itemsAccepts, charLength, hbtrim, Bool.and_eq_true, isTextValue_iff, decide_eq_true_eq,
    mem_trimSpace_iff]
  constructor
  · rintro ⟨⟨⟨⟨⟨-, hnul⟩, -, hnul'⟩, -⟩, -⟩, -⟩
    exact ⟨hnul, hnul'⟩
  · rintro ⟨hnul, hnul'⟩
    exact ⟨⟨⟨⟨⟨hname, hnul⟩, hdescription, hnul'⟩, decide_eq_true hmax⟩, hmin, hmax⟩,
      decide_eq_true hlong⟩

theorem itemsAccepts_padded : validateCreateInput ⟨str "  Ann ", str ""⟩ = .ok ⟨str "Ann", str ""⟩ ∧
    itemsAccepts (str "Ann") (str "") = true := by
  have hcanonical : validateCreateInput ⟨str "  Ann ", str ""⟩ = .ok ⟨str "Ann", str ""⟩ := by
    decide +kernel
  exact ⟨hcanonical, (itemsAccepts_iff hcanonical).mpr (by decide)⟩

/-- A name with U+0000 passes the service and no `INSERT`. -/
theorem nul_accepted_not_storable : ∃ input canonical, validateCreateInput input = .ok canonical ∧
    itemsAccepts canonical.name canonical.description = false :=
  ⟨⟨[97, 0, 98], []⟩, ⟨[97, 0, 98], []⟩, by decide +kernel, by decide +kernel⟩

end GoClean.Postgres
