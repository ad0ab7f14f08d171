import Mathlib.Data.List.Basic
import Mathlib.Data.Fintype.Basic
import GoClean.Go.Sha256

/-!
# Go strings and hexadecimal text

A Go string is a sequence of bytes, with no promise that it is UTF-8.
`encoding/hex` writes lower-case digits and reads both cases.
-/

namespace GoClean.Go

abbrev GoString := List UInt8

def str (s : String) : GoString := s.toUTF8.data.toList

instance : Coe String GoString := ⟨str⟩

theorem forall_byte {p : UInt8 → Prop} (h : ∀ i : Fin 256, p (UInt8.ofNat i)) (b : UInt8) :
    p b := by
  have hb := h ⟨b.toNat, b.toNat_lt⟩
  rwa [UInt8.ofNat_toNat] at hb

def hasPrefix (s start : GoString) : Bool := start.isPrefixOf s

theorem hasPrefix_iff : hasPrefix s start = true ↔ ∃ rest, s = start ++ rest := by
  rw [hasPrefix, List.isPrefixOf_iff_prefix]
  exact ⟨fun ⟨rest, h⟩ => ⟨rest, h.symm⟩, fun ⟨rest, h⟩ => ⟨rest, h.symm⟩⟩

namespace Hex

def digit (n : Nat) : UInt8 := if n < 10 then UInt8.ofNat (48 + n) else UInt8.ofNat (87 + n)

def encodeByte (b : UInt8) : GoString := [digit (b.toNat / 16), digit (b.toNat % 16)]

def encodeToString (bytes : List UInt8) : GoString := bytes.flatMap encodeByte

def fromHexChar (c : UInt8) : Option Nat :=
  if 48 ≤ c ∧ c ≤ 57 then some (c.toNat - 48)
  else if 97 ≤ c ∧ c ≤ 102 then some (c.toNat - 87)
  else if 65 ≤ c ∧ c ≤ 70 then some (c.toNat - 55)
  else none

/-- `hex.Decode`, or `none` on an odd length or a byte that is no digit. -/
def decode : GoString → Option (List UInt8)
  | [] => some []
  | [_] => none
  | a :: b :: rest => do
    let hi ← fromHexChar a
    let lo ← fromHexChar b
    let tail ← decode rest
    some (UInt8.ofNat (hi * 16 + lo) :: tail)

theorem fromHexChar_digit (h : n < 16) : fromHexChar (digit n) = some n := by
  have hd : ∀ i : Fin 16, fromHexChar (digit i) = some i.val := by decide
  exact hd ⟨n, h⟩

theorem decode_encodeByte (b : UInt8) (rest : GoString) :
    decode (encodeByte b ++ rest) = (decode rest).map (b :: ·) := by
  have hb := b.toNat_lt
  have hhi := fromHexChar_digit (n := b.toNat / 16) (by omega)
  have hlo := fromHexChar_digit (n := b.toNat % 16) (by omega)
  simp only [encodeByte, List.cons_append, List.nil_append, decode, hhi, hlo, Option.bind_eq_bind,
    Option.bind_some, Nat.div_add_mod', UInt8.ofNat_toNat]
  cases decode rest <;> rfl

theorem decode_encodeToString (bytes : List UInt8) :
    decode (encodeToString bytes) = some bytes := by
  induction bytes with
  | nil => rfl
  | cons b rest ih =>
    rw [encodeToString, List.flatMap_cons, decode_encodeByte, ← encodeToString, ih, Option.map_some]

theorem encodeToString_injective (h : encodeToString a = encodeToString b) : a = b := by
  have hd := congrArg decode h
  rw [decode_encodeToString, decode_encodeToString] at hd
  exact Option.some.inj hd

@[simp] theorem length_encodeToString (bytes : List UInt8) :
    (encodeToString bytes).length = 2 * bytes.length := by
  induction bytes with
  | nil => rfl
  | cons b rest ih =>
    have hc : encodeToString (b :: rest) = encodeByte b ++ encodeToString rest := rfl
    rw [hc, List.length_append, ih]
    simp [encodeByte]
    omega

theorem encodeByte_lt_iff (a b : UInt8) : encodeByte a < encodeByte b ↔ a < b := by
  have hdigit : ∀ m n : Fin 16, (digit m < digit n ↔ m.val < n.val) ∧
      (digit m = digit n ↔ m.val = n.val) := by
    decide
  have ha := a.toNat_lt
  have hb := b.toNat_lt
  have hhi := hdigit ⟨a.toNat / 16, by omega⟩ ⟨b.toNat / 16, by omega⟩
  have hlo := hdigit ⟨a.toNat % 16, by omega⟩ ⟨b.toNat % 16, by omega⟩
  simp only [encodeByte, List.cons_lt_cons_iff, hhi.1, hhi.2, hlo.1, hlo.2, UInt8.lt_iff_toNat_lt,
    List.lt_irrefl, and_false, or_false]
  omega

theorem encodeToString_lt_iff (hl : a.length = b.length) :
    encodeToString a < encodeToString b ↔ a < b := by
  induction a generalizing b with
  | nil =>
    cases b with
    | nil => simp [encodeToString]
    | cons _ _ => simp at hl
  | cons x xs ih =>
    cases b with
    | nil => simp at hl
    | cons y ys =>
      have hx : encodeToString (x :: xs) = encodeByte x ++ encodeToString xs := rfl
      have hy : encodeToString (y :: ys) = encodeByte y ++ encodeToString ys := rfl
      have heq : encodeByte x = encodeByte y ↔ x = y := by
        constructor
        · intro h
          have h' : encodeToString [x] = encodeToString [y] := by simpa [encodeToString] using h
          simpa using encodeToString_injective h'
        · exact fun h => h ▸ rfl
      rw [hx, hy, BigEndian.append_lt_append_iff (by simp [encodeByte]), encodeByte_lt_iff, heq,
        ih (by simpa using hl), List.cons_lt_cons_iff]

end Hex

end GoClean.Go
