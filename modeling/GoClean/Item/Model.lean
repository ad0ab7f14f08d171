import GoClean.Go.Time
import GoClean.Go.Uuid
import GoClean.Go.Utf8
import GoClean.Item.Errors

/-!
# Items and their input policy

`internal/item/model.go`: the stored record, what a client may send, and
the two functions that canonicalise requests.
-/

namespace GoClean

open Go

def defaultPageSize : Int := 20
def maxPageSize : Int := 100
def minNameLength : Nat := 1
def maxNameLength : Nat := 120
def maxDescriptionLength : Nat := 2000

structure Item where
  id : UUID
  name : GoString
  description : GoString
  createdAt : Time
  deriving DecidableEq

structure CreateInput where
  name : GoString
  description : GoString
  deriving DecidableEq

structure ListParams where
  limit : Int
  offset : Int
  deriving DecidableEq

structure Page where
  items : List Item
  limit : Int
  offset : Int
  hasMore : Bool
  nextCursor : GoString
  deriving DecidableEq

def validateCreateInput (input : CreateInput) : Except Error CreateInput := do
  let name := trimSpace input.name
  let description := trimSpace input.description
  ensure (validString name) (.validation "name" "must be valid UTF-8")
  ensure (decide (minNameLength ≤ runeCountInString name)) (.validation "name" "is required")
  ensure (decide (runeCountInString name ≤ maxNameLength))
    (.validation "name" "must contain at most 120 Unicode characters")
  ensure (validString description) (.validation "description" "must be valid UTF-8")
  ensure (decide (runeCountInString description ≤ maxDescriptionLength))
    (.validation "description" "must contain at most 2000 Unicode characters")
  pure ⟨name, description⟩

def normalizeListParams (params : ListParams) : Except Error ListParams := do
  let limit := if params.limit = 0 then defaultPageSize else params.limit
  ensure (decide (0 ≤ limit)) (.validation "limit" "must be zero or positive")
  ensure (decide (limit ≤ maxPageSize)) (.validation "limit" "must be at most 100")
  ensure (decide (0 ≤ params.offset)) (.validation "offset" "must be zero or positive")
  pure ⟨limit, params.offset⟩

theorem validateCreateInput_ok (h : validateCreateInput input = .ok canonical) :
    canonical = ⟨trimSpace input.name, trimSpace input.description⟩ ∧
      validString canonical.name = true ∧ validString canonical.description = true := by
  simp only [validateCreateInput, bind_ok, ensure_ok, pure_ok] at h
  obtain ⟨_, hname, _, -, _, -, _, hdesc, _, -, rfl⟩ := h
  exact ⟨rfl, hname, hdesc⟩

/-- Canonical input is its own canonical form, so a second validation of it
succeeds and changes nothing. -/
theorem validateCreateInput_canonical (h : validateCreateInput input = .ok canonical) :
    validateCreateInput canonical = .ok canonical := by
  simp only [validateCreateInput, bind_ok, ensure_ok, pure_ok] at h ⊢
  obtain ⟨_, hname, _, hmin, _, hmax, _, hdesc, _, hlong, rfl⟩ := h
  simp only [trimSpace_trimSpace]
  exact ⟨(), hname, (), hmin, (), hmax, (), hdesc, (), hlong, trivial⟩

theorem normalizeListParams_ok (h : normalizeListParams params = .ok normalized) :
    normalized.limit = (if params.limit = 0 then defaultPageSize else params.limit) ∧
      normalized.offset = params.offset ∧ 1 ≤ normalized.limit ∧ normalized.limit ≤ maxPageSize ∧
      0 ≤ normalized.offset := by
  simp only [normalizeListParams, bind_ok, ensure_ok, pure_ok, decide_eq_true_eq] at h
  obtain ⟨_, hpos, _, hmax, _, hoff, rfl⟩ := h
  refine ⟨rfl, rfl, ?_, hmax, hoff⟩
  show 1 ≤ (if params.limit = 0 then defaultPageSize else params.limit)
  split
  · decide
  · next h0 =>
    rw [if_neg h0] at hpos
    omega

end GoClean
