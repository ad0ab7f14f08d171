import Mathlib.Data.Vector.Basic
import Mathlib.Tactic.FinCases
import GoClean.Go.Strings
import GoClean.Go.Uuid

/-!
# Reading UUIDs

`uuid.Parse` of `github.com/google/uuid` reads several spellings of a UUID. The
code relies on one thing only: the text form of a UUID is read back. `Uuids` is
a reader with this law, and `plainUuids` one that reads nothing but text forms.
-/

namespace GoClean.Go

theorem Hex.mem_encodeToString (h : b ∈ Hex.encodeToString bytes) :
    ∃ n : Fin 16, b = Hex.digit n := by
  obtain ⟨c, -, hc⟩ := List.mem_flatMap.mp h
  have hlt := c.toNat_lt
  simp only [Hex.encodeByte, List.mem_cons, List.not_mem_nil, or_false] at hc
  rcases hc with rfl | rfl
  · exact ⟨⟨c.toNat / 16, by omega⟩, rfl⟩
  · exact ⟨⟨c.toNat % 16, by omega⟩, rfl⟩

/-- `uuid.Parse`, with `none` for its errors. -/
structure Uuids where
  parse : GoString → Option UUID
  parse_string : ∀ id : UUID, parse id.string = some id

namespace UUID

theorem mem_string {id : UUID} (h : b ∈ id.string) : b = 45 ∨ ∃ n : Fin 16, b = Hex.digit n := by
  have hhyphen : str "-" = [45] := by decide
  simp only [string, hhyphen, List.mem_append, List.mem_singleton] at h
  rcases h with (h | h) | (h | h) | (h | h) | (h | h) | h
  all_goals first | exact .inl h | exact .inr (Hex.mem_encodeToString h)

theorem length_string (id : UUID) : id.string.length = 36 := by
  match id with
  | ⟨[b0, b1, b2, b3, b4, b5, b6, b7, b8, b9, b10, b11, b12, b13, b14, b15], _⟩ => rfl

-- ---------------------------------------------------------------------------
-- A reader of text forms
-- ---------------------------------------------------------------------------

/-- Where the digits of byte `i` start in the text form. -/
def offset (i : Fin 16) : Nat :=
  [0, 2, 4, 6, 9, 11, 14, 16, 19, 21, 24, 26, 28, 30, 32, 34].get i

def readByte (s : GoString) (i : Fin 16) : Option UInt8 := do
  let hi ← Hex.fromHexChar (s.getD (offset i) 0)
  let lo ← Hex.fromHexChar (s.getD (offset i + 1) 0)
  some (UInt8.ofNat (hi * 16 + lo))

def readText (s : GoString) : Option UUID := do
  let id : UUID ← List.Vector.mOfFn (readByte s)
  if id.string = s then some id else none

theorem mOfFn_of_some {f : Fin n → Option α} {v : List.Vector α n} (h : ∀ i, f i = some (v.get i)) :
    List.Vector.mOfFn f = some v := by
  induction n with
  | zero => rw [List.Vector.mOfFn, v.eq_nil]; rfl
  | succ n ih =>
    have htail : List.Vector.mOfFn (fun i => f i.succ) = some v.tail :=
      ih fun i => (h i.succ).trans (congrArg some (List.Vector.get_tail_succ v i).symm)
    have hhead : f 0 = some v.head := (h 0).trans (congrArg some (List.Vector.get_zero v))
    simp only [List.Vector.mOfFn, hhead, htail, Option.bind_eq_bind, Option.bind_some,
      Option.pure_def, List.Vector.cons_head_tail]

theorem string_digits (id : UUID) (i : Fin 16) :
    id.string.getD (offset i) 0 = Hex.digit ((id.get i).toNat / 16) ∧
      id.string.getD (offset i + 1) 0 = Hex.digit ((id.get i).toNat % 16) := by
  match id with
  | ⟨[b0, b1, b2, b3, b4, b5, b6, b7, b8, b9, b10, b11, b12, b13, b14, b15], _⟩ =>
    fin_cases i <;> exact ⟨rfl, rfl⟩

theorem readText_string (id : UUID) : readText id.string = some id := by
  have hbytes (i : Fin 16) : readByte id.string i = some (id.get i) := by
    obtain ⟨hhi, hlo⟩ := string_digits id i
    have hlt := (id.get i).toNat_lt
    rw [readByte, hhi, hlo, Hex.fromHexChar_digit (by omega), Hex.fromHexChar_digit (by omega)]
    simp only [Option.bind_eq_bind, Option.bind_some, Nat.div_add_mod', UInt8.ofNat_toNat]
  simp only [readText, mOfFn_of_some hbytes, Option.bind_eq_bind, Option.bind_some, if_true]

end UUID

def plainUuids : Uuids := ⟨UUID.readText, UUID.readText_string⟩

end GoClean.Go
