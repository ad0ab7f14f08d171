import GoClean.Go.Utf8

/-!
# `strings` and `strconv`

The functions the configuration and the authentication code use. Case is
folded and lowered for the texts they are compared with, which are ASCII.
-/

namespace GoClean.Go

/-- The least rune of a simple-folding orbit that has an ASCII letter: the
long s and the Kelvin sign fold to letters, no other rune does. -/
def foldRune (r : Nat) : Nat :=
  if 65 ≤ r ∧ r ≤ 90 then r + 32
  else if r = 0x17f then 115
  else if r = 0x212a then 107
  else r

/-- `strings.EqualFold` with an ASCII text. -/
def equalFold (s ascii : GoString) : Bool :=
  (chunks s).map (fun c => foldRune (rune c)) == (chunks ascii).map fun c => foldRune (rune c)

def lowerByte (b : UInt8) : UInt8 := if 65 ≤ b ∧ b ≤ 90 then b + 32 else b

/-- `strings.ToLower` on ASCII letters. -/
def toLower (s : GoString) : GoString := s.map lowerByte

def containsString (s part : GoString) : Bool := s.tails.any (hasPrefix · part)

def indexByte (s : GoString) (b : UInt8) : Option Nat := s.findIdx? (· == b)

def join (sep : UInt8) : List GoString → GoString
  | [] => []
  | [part] => part
  | part :: rest => part ++ sep :: join sep rest

def hasSpace (s : GoString) : Bool := (chunks s).any spaceChunk

def isDigit (b : UInt8) : Bool := decide (48 ≤ b ∧ b ≤ 57)

def digitsValue (digits : GoString) : Nat := digits.foldl (fun n d => 10 * n + (d.toNat - 48)) 0

/-- `strconv.Atoi`: a sign and digits, within the range of `int`. -/
def atoi (s : GoString) : Option Int :=
  let digits := match s with
    | 43 :: rest => rest
    | 45 :: rest => rest
    | _ => s
  let value : Int := if s.head? = some 45 then -(digitsValue digits : Int) else digitsValue digits
  if digits.isEmpty || !digits.all isDigit then none
  else if value < -2 ^ 63 ∨ 2 ^ 63 ≤ value then none
  else some value

-- ---------------------------------------------------------------------------
-- Joining
-- ---------------------------------------------------------------------------

theorem join_cons_cons : join sep (part :: next :: rest) = part ++ sep :: join sep (next :: rest) :=
  rfl

theorem join_eq_intercalate (sep : UInt8) (parts : List GoString) :
    join sep parts = [sep].intercalate parts := by
  induction parts with
  | nil => rfl
  | cons part rest ih =>
    cases rest with
    | nil => simp [join]
    | cons next rest =>
      rw [List.intercalate_cons_cons, ← ih, List.append_assoc,
        List.singleton_append, join_cons_cons]

theorem splitOn_join (h : ∀ part ∈ parts, sep ∉ part) (hne : parts ≠ []) :
    (join sep parts).splitOn sep = parts := by
  rw [join_eq_intercalate, List.splitOn_intercalate sep h hne]

theorem join_splitOn (sep : UInt8) (s : GoString) : join sep (s.splitOn sep) = s := by
  rw [join_eq_intercalate, List.intercalate_splitOn]

theorem length_join_le
    (h : List.Forall₂ (fun part part' => part'.length ≤ part.length) parts parts') :
    (join sep parts').length ≤ (join sep parts).length := by
  induction h with
  | nil => exact le_rfl
  | @cons part part' _ _ hpart hrest ih =>
    cases hrest with
    | nil => exact hpart
    | cons _ _ =>
      rw [join_cons_cons, join_cons_cons, List.length_append, List.length_append,
        List.length_cons, List.length_cons]
      omega

theorem join_ne_nil (h : part ≠ []) : join sep (part :: parts) ≠ [] := by
  cases parts with
  | nil => exact h
  | cons _ _ => simp [join]

theorem mem_join {parts : List GoString} (h : b ∈ join sep parts) :
    b = sep ∨ ∃ part ∈ parts, b ∈ part := by
  induction parts with
  | nil => cases h
  | cons part rest ih =>
    cases rest with
    | nil => exact .inr ⟨part, List.mem_singleton_self part, h⟩
    | cons next rest =>
      rw [join_cons_cons, List.mem_append, List.mem_cons] at h
      rcases h with h | rfl | h
      · exact .inr ⟨part, List.mem_cons_self, h⟩
      · exact .inl rfl
      · exact (ih h).imp_right fun ⟨found, hfound, hb⟩ =>
          ⟨found, List.mem_cons_of_mem part hfound, hb⟩

theorem containsString_iff : containsString s part = true ↔ part <:+: s := by
  simp only [containsString, hasPrefix, List.any_eq_true, List.mem_tails,
    List.isPrefixOf_iff_prefix, List.infix_iff_prefix_suffix, and_comm]

-- ---------------------------------------------------------------------------
-- Trimming and ASCII text
-- ---------------------------------------------------------------------------

theorem trimSpace_chunks_sublist (s : GoString) : (chunks (trimSpace s)).Sublist (chunks s) := by
  rw [chunks_trimSpace]
  exact (List.rdropWhile_prefix _ _).sublist.trans (List.dropWhile_sublist _)

theorem trimSpace_isInfix (s : GoString) : trimSpace s <:+: s := by
  have hcut : ((chunks s).dropWhile spaceChunk).rdropWhile spaceChunk <:+: chunks s :=
    (List.rdropWhile_prefix _ _).isInfix.trans (List.dropWhile_suffix _).isInfix
  obtain ⟨before, behind, hparts⟩ := hcut
  refine ⟨before.flatten, behind.flatten, ?_⟩
  rw [trimSpace, ← List.flatten_append, ← List.flatten_append, hparts, flatten_chunks]

theorem validString_trimSpace (h : validString s = true) : validString (trimSpace s) = true := by
  simp only [validString, List.all_eq_true] at h ⊢
  exact fun c hc => h c ((trimSpace_chunks_sublist s).subset hc)

theorem hasControl_trimSpace (h : hasControl s = false) : hasControl (trimSpace s) = false := by
  simp only [hasControl, List.any_eq_false] at h ⊢
  exact fun c hc => h c ((trimSpace_chunks_sublist s).subset hc)

theorem length_trimSpace_le (s : GoString) : (trimSpace s).length ≤ s.length := by
  have h : (chunks (trimSpace s)).flatten.Sublist (chunks s).flatten :=
    (trimSpace_chunks_sublist s).flatten
  rw [flatten_chunks, flatten_chunks] at h
  exact h.length_le

theorem indexByte_append {s : GoString} (h : b ∉ s) (rest : GoString) :
    indexByte (s ++ b :: rest) b = some s.length := by
  have hnone : s.findIdx? (· == b) = none :=
    List.findIdx?_eq_none_iff.mpr fun c hc => beq_eq_false_iff_ne.mpr fun heq => h (heq ▸ hc)
  rw [indexByte, List.findIdx?_append, hnone]
  simp [List.findIdx?_cons]

def Trimmed (s : GoString) : Prop :=
  (∀ c ∈ (chunks s).head?, isSpace (rune c) = false) ∧ ∀ c ∈ (chunks s).getLast?,
    isSpace (rune c) = false

theorem trimmed_trimSpace (s : GoString) : Trimmed (trimSpace s) := by
  have hcut := chunks_trimSpace s
  constructor
  · intro c hc
    -- what the right trim leaves starts as what the left trim leaves
    rw [Option.mem_def, hcut] at hc
    obtain ⟨rest, hrest⟩ := List.rdropWhile_prefix spaceChunk ((chunks s).dropWhile spaceChunk)
    have hhead : ((chunks s).dropWhile spaceChunk).head? = some c := by
      rw [← hrest, List.head?_append, hc, Option.some_or]
    have hne : (chunks s).dropWhile spaceChunk ≠ [] := fun hnil => by simp [hnil] at hhead
    have hnot := List.head_dropWhile_not spaceChunk hne
    rwa [Option.some.inj ((List.head?_eq_some_head hne).symm.trans hhead)] at hnot
  · intro c hc
    rw [Option.mem_def, hcut] at hc
    have hne : ((chunks s).dropWhile spaceChunk).rdropWhile spaceChunk ≠ [] := fun hnil => by
      simp [hnil] at hc
    have hnot := List.rdropWhile_last_not spaceChunk _ hne
    rw [Option.some.inj ((List.getLast?_eq_some_getLast hne).symm.trans hc)] at hnot
    exact Bool.eq_false_iff.mpr hnot

theorem take_runeWidth_ascii {s : GoString} (hb : b ∈ s.take (runeWidth s)) (hascii : b < 0x80) :
    s.take (runeWidth s) = [b] := by
  by_cases hlen : runeLen s = 0
  · have hwidth : runeWidth s = 1 := by rw [runeWidth, hlen, Nat.max_eq_left (Nat.zero_le 1)]
    rw [hwidth] at hb ⊢
    cases s with
    | nil => cases hb
    | cons c rest =>
      rw [List.mem_singleton.mp hb]
      rfl
  · have hwidth : runeWidth s = runeLen s := Nat.max_eq_right (Nat.one_le_iff_ne_zero.mpr hlen)
    have hwell : wellFormed (s.take (runeWidth s)) = true := by
      rw [wellFormed, hwidth, runeLen_take le_rfl, List.length_take, Nat.min_eq_left (runeLen_le s)]
      exact beq_self_eq_true _
    rcases wellFormed_cases hwell with ⟨c, hc, -⟩ | ⟨-, habove⟩
    · rw [hc, List.mem_singleton] at hb
      rw [hc, hb]
    · exact absurd (habove b hb) (UInt8.not_le.mpr hascii)

theorem ascii_chunk (hb : b ∈ s) (hascii : b < 0x80) : [b] ∈ chunks s := by
  induction s using chunks_induction with
  | nil => cases hb
  | step s hs ih =>
    rw [chunks_step hs, List.mem_cons]
    rw [← List.take_append_drop (runeWidth s) s, List.mem_append] at hb
    exact hb.imp (fun hb => (take_runeWidth_ascii hb hascii).symm) ih

theorem head_chunk {s : GoString} (hb : s.head? = some b) (hascii : b < 0x80) :
    (chunks s).head? = some [b] := by
  have hs : s ≠ [] := by rintro rfl; cases hb
  have hmem : b ∈ s.take (runeWidth s) := by
    refine List.mem_of_head? ?_
    rw [List.head?_take, if_neg (Nat.ne_of_gt (runeWidth_pos s)), hb]
  rw [chunks_step hs, take_runeWidth_ascii hmem hascii, List.head?_cons]

theorem getLast_chunk {s : GoString} (hb : s.getLast? = some b) (hascii : b < 0x80) :
    (chunks s).getLast? = some [b] := by
  induction s using chunks_induction with
  | nil => cases hb
  | step s hs ih =>
    rw [chunks_step hs]
    by_cases hrest : s.drop (runeWidth s) = []
    · have hall : s.take (runeWidth s) = s := by
        conv_rhs => rw [← List.take_append_drop (runeWidth s) s, hrest, List.append_nil]
      have hmem : b ∈ s.take (runeWidth s) := by rw [hall]; exact List.mem_of_getLast? hb
      rw [hrest, chunks_nil, take_runeWidth_ascii hmem hascii, List.getLast?_singleton]
    · rw [← List.take_append_drop (runeWidth s) s, List.getLast?_append_of_ne_nil _ hrest] at hb
      have hlast := ih hb
      rw [List.getLast?_cons, hlast, Option.getD_some]

theorem mem_dropWhile {p : α → Bool} {l : List α} (h : a ∈ l) (ha : p a = false) :
    a ∈ l.dropWhile p := by
  rw [← List.takeWhile_append_dropWhile (p := p) (l := l), List.mem_append] at h
  refine h.resolve_left fun htake => ?_
  rw [List.mem_takeWhile_imp htake] at ha
  cases ha

theorem mem_trimSpace (hb : b ∈ s) (hascii : b < 0x80) (hspace : spaceChunk [b] = false) :
    b ∈ trimSpace s := by
  have hkept : [b] ∈ ((chunks s).dropWhile spaceChunk).rdropWhile spaceChunk := by
    rw [List.rdropWhile, List.mem_reverse]
    exact mem_dropWhile (List.mem_reverse.mpr (mem_dropWhile (ascii_chunk hb hascii) hspace)) hspace
  exact List.mem_flatten.mpr ⟨[b], hkept, List.mem_singleton_self b⟩

theorem chunks_of_ascii (h : ∀ b ∈ s, b < 0x80) : chunks s = s.map ([·]) := by
  induction s with
  | nil => rfl
  | cons b s ih =>
    have hlead : leadLen b = 1 := if_pos (h b List.mem_cons_self)
    have hwidth : runeWidth (b :: s) = 1 := by simp [runeWidth, runeLen, hlead, followsLead]
    rw [chunks_step (List.cons_ne_nil b s), hwidth, List.map_cons,
      ← ih fun x hx => h x (List.mem_cons_of_mem _ hx)]
    rfl

theorem rune_of_ascii (h : b < 0x80) : rune [b] = b.toNat := by
  have hlead : leadLen b = 1 := if_pos h
  simp [rune, wellFormed, runeLen, hlead, followsLead]

theorem trimSpace_of_ascii (h : ∀ b ∈ s, b < 0x80 ∧ isSpace b.toNat = false) : trimSpace s = s := by
  have hspace : ∀ c ∈ chunks s, spaceChunk c = false := by
    rw [chunks_of_ascii fun b hb => (h b hb).1]
    intro c hc
    obtain ⟨b, hb, rfl⟩ := List.mem_map.mp hc
    rw [spaceChunk, rune_of_ascii (h b hb).1]
    exact (h b hb).2
  have hleft : (chunks s).dropWhile spaceChunk = chunks s :=
    List.dropWhile_eq_self_iff.mpr fun hl => Bool.eq_false_iff.mp (hspace _ (List.getElem_mem hl))
  have hright : (chunks s).rdropWhile spaceChunk = chunks s :=
    List.rdropWhile_eq_self_iff.mpr fun hl => Bool.eq_false_iff.mp (hspace _ (List.getLast_mem hl))
  rw [trimSpace, hleft, hright, flatten_chunks]

theorem trimSpace_of_trimmed (h : Trimmed s) : trimSpace s = s := by
  have hleft : (chunks s).dropWhile spaceChunk = chunks s :=
    List.dropWhile_eq_self_iff.mpr fun hl =>
      Bool.eq_false_iff.mp (h.1 _ (List.head?_eq_getElem? ▸ List.getElem?_eq_getElem hl))
  have hright : (chunks s).rdropWhile spaceChunk = chunks s :=
    List.rdropWhile_eq_self_iff.mpr fun hl => Bool.eq_false_iff.mp
      (h.2 _ (List.getLast?_eq_some_getLast hl))
  rw [trimSpace, hleft, hright, flatten_chunks]

theorem trimSpace_of_ends {s : GoString} (hfirst : s.head? = some a)
    (ha : a < 0x80 ∧ isSpace a.toNat = false)
    (hlast : s.getLast? = some b) (hb : b < 0x80 ∧ isSpace b.toNat = false) : trimSpace s = s := by
  refine trimSpace_of_trimmed ⟨?_, ?_⟩
  · rw [head_chunk hfirst ha.1]
    rintro c ⟨⟩
    rw [rune_of_ascii ha.1, ha.2]
  · rw [getLast_chunk hlast hb.1]
    rintro c ⟨⟩
    rw [rune_of_ascii hb.1, hb.2]

/-- What a lead byte contributes to its rune; only `0xe0` and `0xf0` leave it
to the byte after them. -/
theorem leadLen_bits (lead : UInt8) :
    (leadLen lead = 1 → lead < 0x80) ∧ (leadLen lead = 2 → 2 ≤ lead.toNat % 32) ∧
    (leadLen lead = 3 → lead = 0xe0 ∨ 1 ≤ lead.toNat % 16) ∧
    (leadLen lead = 4 → lead = 0xf0 ∨ 1 ≤ lead.toNat % 8) := by
  revert lead
  exact forall_byte (by decide +kernel)

theorem acceptRange_bits (second : UInt8) :
    (acceptRange 0xe0 second = true → 32 ≤ second.toNat % 64) ∧
    (acceptRange 0xf0 second = true → 16 ≤ second.toNat % 64) := by
  revert second
  exact forall_byte (by decide +kernel)

theorem rune_of_wellFormed (h : wellFormed c = true) (hc : ∀ b ∈ c, 0x80 ≤ b) : 0x80 ≤ rune c := by
  cases c with
  | nil => decide
  | cons lead tails =>
    have hlen : runeLen (lead :: tails) = tails.length + 1 := by simpa [wellFormed] using h
    have hf := follows_of_runeLen (show runeLen (lead :: tails) ≠ 0 by omega)
    rw [runeLen_cons_of_follows hf] at hlen
    rw [hlen, Nat.add_sub_cancel, List.take_length] at hf
    simp only [followsLead, Bool.and_eq_true] at hf
    obtain ⟨-, hsecond⟩ := hf
    obtain ⟨hone, htwo, hthree, hfour⟩ := leadLen_bits lead
    unfold rune
    rw [if_pos h]
    -- one case for each length of a sequence
    rcases tails with _ | ⟨b, _ | ⟨third, _ | ⟨fourth, _ | ⟨fifth, rest⟩⟩⟩⟩
    · exact absurd (hone hlen) (UInt8.not_lt.mpr (hc lead List.mem_cons_self))
    · have := htwo hlen
      dsimp only
      omega
    · dsimp only
      rcases hthree hlen with rfl | hbits
      · have := (acceptRange_bits b).1 hsecond
        omega
      · omega
    · dsimp only
      rcases hfour hlen with rfl | hbits
      · have := (acceptRange_bits b).2 hsecond
        omega
      · omega
    · exact show 0x80 ≤ 0xfffd by decide

theorem chunk_of_rune (h : rune c < 0x80) : ∃ b, c = [b] ∧ b < 0x80 := by
  cases hwell : wellFormed c with
  | false =>
    unfold rune at h
    rw [if_neg (by rw [hwell]; decide)] at h
    exact absurd h (by decide)
  | true =>
    rcases wellFormed_cases hwell with hone | ⟨-, hmany⟩
    · exact hone
    · exact absurd h (not_lt.mpr (rune_of_wellFormed hwell hmany))

-- ---------------------------------------------------------------------------
-- Folding
-- ---------------------------------------------------------------------------

theorem foldRune_of_ascii (b : UInt8) :
    b < 0x80 → foldRune b.toNat = (lowerByte b).toNat ∧ lowerByte b < 0x80 := by
  revert b
  exact forall_byte (by decide +kernel)

theorem ascii_of_lowerByte (b : UInt8) : lowerByte b < 0x80 → b < 0x80 := by
  revert b
  exact forall_byte (by decide +kernel)

theorem fold_of_ascii (h : ∀ b ∈ s, b < 0x80) :
    (chunks s).map (fun c => foldRune (rune c)) = (toLower s).map UInt8.toNat := by
  rw [chunks_of_ascii h, toLower, List.map_map, List.map_map]
  refine List.map_congr_left fun b hb => ?_
  simp only [Function.comp_apply, rune_of_ascii (h b hb), (foldRune_of_ascii b (h b hb)).1]

theorem ascii_of_foldRune (h : foldRune r < 0x80) (hs : foldRune r ≠ 115) (hk : foldRune r ≠ 107) :
    r < 0x80 := by
  unfold foldRune at h hs hk
  split_ifs at h hs hk <;> omega

def foldsPlainly (ascii : GoString) : Bool :=
  ascii.all fun b => decide (b < 0x80) && decide (lowerByte b ≠ 115 ∧ lowerByte b ≠ 107)

theorem equalFold_iff {ascii : GoString} (h : foldsPlainly ascii = true) :
    equalFold s ascii = true ↔ toLower s = toLower ascii := by
  simp only [foldsPlainly, List.all_eq_true, Bool.and_eq_true, decide_eq_true_eq] at h
  have hascii : ∀ b ∈ ascii, b < 0x80 := fun b hb => (h b hb).1
  have hplain : ∀ b ∈ toLower ascii, b ≠ 115 ∧ b ≠ 107 := by
    intro b hb
    obtain ⟨a, ha, rfl⟩ := List.mem_map.mp hb
    exact (h a ha).2
  have hlow : ∀ b ∈ toLower ascii, b < 0x80 := by
    intro b hb
    obtain ⟨a, ha, rfl⟩ := List.mem_map.mp hb
    exact (foldRune_of_ascii a (hascii a ha)).2
  have hinj : Function.Injective UInt8.toNat := fun a b => UInt8.toNat_inj.mp
  rw [equalFold, beq_iff_eq, fold_of_ascii hascii]
  constructor
  · intro h
    have hs : ∀ b ∈ s, b < 0x80 := by
      intro b hb
      rw [← flatten_chunks s] at hb
      obtain ⟨c, hc, hbc⟩ := List.mem_flatten.mp hb
      have hfold : foldRune (rune c) ∈ (toLower ascii).map UInt8.toNat := h ▸ List.mem_map_of_mem hc
      obtain ⟨a, ha, heq⟩ := List.mem_map.mp hfold
      have hne : ∀ n : UInt8, a ≠ n → foldRune (rune c) ≠ n.toNat :=
        fun n hn he => hn (hinj (heq.trans he))
      have hrune :=
        ascii_of_foldRune (heq ▸ UInt8.lt_iff_toNat_lt.mp (hlow a ha)) (hne 115 (hplain a ha).1)
        (hne 107 (hplain a ha).2)
      obtain ⟨b', rfl, hb'⟩ := chunk_of_rune hrune
      rw [List.mem_singleton.mp hbc]
      exact hb'
    rw [fold_of_ascii hs] at h
    exact hinj.list_map h
  · intro h
    have hs : ∀ b ∈ s, b < 0x80 := fun b hb =>
      ascii_of_lowerByte b (hlow _ (h ▸ List.mem_map_of_mem hb))
    rw [fold_of_ascii hs, h]

namespace Hex

theorem fromHexChar_ascii (h : (fromHexChar b).isSome) : b < 0x80 ∧ isSpace b.toNat = false := by
  have hall : ∀ b, (fromHexChar b).isSome → b < 0x80 ∧ isSpace b.toNat = false :=
    forall_byte (by decide +kernel)
  exact hall b h

theorem decode_some : ∀ {s bytes}, decode s = some bytes →
    s.length = 2 * bytes.length ∧ ∀ b ∈ s, (fromHexChar b).isSome
  | [], bytes, h => by
    cases h
    simp
  | [_], bytes, h => by cases h
  | a :: b :: rest, bytes, h => by
    simp only [decode, Option.bind_eq_bind, Option.bind_eq_some_iff, Option.some.injEq] at h
    obtain ⟨hi, hhi, lo, hlo, tail, htail, rfl⟩ := h
    obtain ⟨hlen, hdigits⟩ := decode_some htail
    refine ⟨by rw [List.length_cons, List.length_cons, List.length_cons, hlen]; omega, ?_⟩
    simp only [List.mem_cons, forall_eq_or_imp, hhi, hlo, Option.isSome_some, true_and]
    exact hdigits

theorem trimSpace_of_decode (h : decode s = some bytes) : trimSpace s = s :=
  trimSpace_of_ascii fun b hb => fromHexChar_ascii ((decode_some h).2 b hb)

theorem digit_of_fromHexChar (h : fromHexChar c = some n) : n < 16 ∧ digit n = lowerByte c := by
  have hall : ∀ c, ((fromHexChar c).all fun n => decide (n < 16 ∧ digit n = lowerByte c)) = true :=
    forall_byte (by decide +kernel)
  have hc := hall c
  rw [h] at hc
  exact of_decide_eq_true hc

theorem encodeByte_digits (hhi : hi < 16) (hlo : lo < 16) :
    encodeByte (UInt8.ofNat (hi * 16 + lo)) = [digit hi, digit lo] := by
  have hbyte : (UInt8.ofNat (hi * 16 + lo)).toNat = hi * 16 + lo := by
    rw [UInt8.toNat_ofNat']
    omega
  rw [encodeByte, hbyte]
  congr 2 <;> congr 1 <;> omega

theorem toLower_of_decode : ∀ {s bytes}, decode s = some bytes → toLower s = encodeToString bytes
  | [], bytes, h => by
    cases h
    rfl
  | [_], bytes, h => by cases h
  | a :: b :: rest, bytes, h => by
    simp only [decode, Option.bind_eq_bind, Option.bind_eq_some_iff, Option.some.injEq] at h
    obtain ⟨hi, hhi, lo, hlo, tail, htail, rfl⟩ := h
    obtain ⟨hhi16, hhi⟩ := digit_of_fromHexChar hhi
    obtain ⟨hlo16, hlo⟩ := digit_of_fromHexChar hlo
    rw [encodeToString, List.flatMap_cons, encodeByte_digits hhi16 hlo16, hhi, hlo,
      ← encodeToString, ← toLower_of_decode htail]
    rfl

end Hex

end GoClean.Go
