import GoClean.Go.Text

/-!
# UUIDs

`github.com/google/uuid`: sixteen bytes, with the version in the high half
of byte 6 and the variant in the high bits of byte 8. The text form puts
hyphens at fixed places, so it orders UUIDs as their bytes do.
-/

namespace GoClean.Go

open BigEndian (beNat)

abbrev UUID := List.Vector UInt8 16

namespace UUID

def zero : UUID := ⟨List.replicate 16 0, rfl⟩

def version (id : UUID) : Nat := (id.toList.getD 6 0).toNat / 16

/-- `uuid.RFC4122` is the variant whose top two bits are `10`. -/
def isRFC4122 (id : UUID) : Bool := (id.toList.getD 8 0) &&& 0xc0 == 0x80

def string (id : UUID) : GoString :=
  Hex.encodeToString (id.toList.take 4) ++ str "-" ++
  (Hex.encodeToString ((id.toList.drop 4).take 2) ++ str "-" ++
  (Hex.encodeToString ((id.toList.drop 6).take 2) ++ str "-" ++
  (Hex.encodeToString ((id.toList.drop 8).take 2) ++ str "-" ++
  Hex.encodeToString (id.toList.drop 10))))

def rank (id : UUID) : Nat := beNat id.toList

theorem rank_injective {a b : UUID} (h : a.rank = b.rank) : a = b :=
  List.Vector.toList_injective
    (BigEndian.beNat_inj (by rw [a.toList_length, b.toList_length]) h)

theorem bytes_lt_iff (a b : UUID) : a.toList < b.toList ↔ a.rank < b.rank :=
  BigEndian.lt_iff_beNat_lt (by rw [a.toList_length, b.toList_length])

/-- One group of the text form, with a byte group and the separator before
the rest. -/
private theorem group_lt_iff {a a' b b' : List UInt8} {s s' : GoString} (hl : a.length = a'.length)
    (h : s < s' ↔ b < b') :
    Hex.encodeToString a ++ str "-" ++ s < Hex.encodeToString a' ++ str "-" ++ s' ↔
      a ++ b < a' ++ b' := by
  have heq : Hex.encodeToString a = Hex.encodeToString a' ↔ a = a' :=
    ⟨Hex.encodeToString_injective, fun h => h ▸ rfl⟩
  rw [List.append_assoc, List.append_assoc, BigEndian.append_lt_append_iff (by simp [hl]),
    BigEndian.append_lt_append_iff rfl, BigEndian.append_lt_append_iff hl,
    Hex.encodeToString_lt_iff hl, heq, h]
  simp [List.lt_irrefl]

private theorem groups (l : List UInt8) : l.take 4 ++ ((l.drop 4).take 2 ++ ((l.drop 6).take 2 ++
    ((l.drop 8).take 2 ++ l.drop 10))) = l := by
  have hpair (k : Nat) : (l.drop k).take 2 ++ l.drop (k + 2) = l.drop k := by
    rw [← List.drop_drop, List.take_append_drop]
  rw [hpair 8, hpair 6, hpair 4, List.take_append_drop]

theorem string_lt_iff (a b : UUID) : a.string < b.string ↔ a.rank < b.rank := by
  have hl : a.toList.length = b.toList.length := by rw [a.toList_length, b.toList_length]
  have hdrop (k : Nat) : (a.toList.drop k).length = (b.toList.drop k).length := by
    rw [List.length_drop, List.length_drop, hl]
  have htake (k n : Nat) : ((a.toList.drop k).take n).length =
      ((b.toList.drop k).take n).length := by
    rw [List.length_take, List.length_take, hdrop]
  have h := group_lt_iff (htake 0 4) (group_lt_iff (htake 4 2) (group_lt_iff (htake 6 2)
    (group_lt_iff (htake 8 2) (Hex.encodeToString_lt_iff (hdrop 10)))))
  rw [List.drop_zero, List.drop_zero, groups, groups, bytes_lt_iff] at h
  exact h

end UUID

end GoClean.Go
