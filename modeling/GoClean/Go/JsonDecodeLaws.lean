import GoClean.Go.JsonDecode

/-!
# What reading JSON gives

A rune is written back as it was read (`encodeRune_rune`). The body of a string
literal has a grammar of its own (`Literal`): `takeBody` cuts off exactly such a
body, and unquoting it gives valid UTF-8. Unquoting undoes the escapes of
`json.Marshal` (`unquoteBytes_escape`).
-/

namespace GoClean.Go

-- ---------------------------------------------------------------------------
-- Runes
-- ---------------------------------------------------------------------------

theorem leadLen_range (lead : UInt8) :
    (leadLen lead = 1 ↔ lead.toNat < 128) ∧
    (leadLen lead = 2 ↔ 194 ≤ lead.toNat ∧ lead.toNat ≤ 223) ∧
    (leadLen lead = 3 ↔ 224 ≤ lead.toNat ∧ lead.toNat ≤ 239) ∧
    (leadLen lead = 4 ↔ 240 ≤ lead.toNat ∧ lead.toNat ≤ 244) ∧
    leadLen lead ≤ 4 := by
  revert lead
  exact forall_byte (by decide +kernel)

theorem isTail_iff {b : UInt8} : isTail b = true ↔ 128 ≤ b.toNat ∧ b.toNat ≤ 191 := by
  rw [isTail, decide_eq_true_iff, UInt8.le_iff_toNat_le, UInt8.le_iff_toNat_le]
  rfl

theorem acceptRange_iff (lead second : UInt8) : acceptRange lead second = true ↔
    ((if lead = 0xe0 then 160 else if lead = 0xf0 then 144 else 128) ≤ second.toNat ∧
      second.toNat ≤ if lead = 0xed then 159 else if lead = 0xf4 then 143 else 191) := by
  rw [acceptRange, decide_eq_true_iff, UInt8.le_iff_toNat_le, UInt8.le_iff_toNat_le]
  split_ifs <;> rfl

inductive Sequence : GoString → Prop
  | one {a : UInt8} : a.toNat < 128 → Sequence [a]
  | two {a b : UInt8} : 194 ≤ a.toNat → a.toNat ≤ 223 → isTail b = true → Sequence [a, b]
  | three {a b c : UInt8} : 224 ≤ a.toNat → a.toNat ≤ 239 → isTail b = true → isTail c = true →
      (a.toNat = 224 → 160 ≤ b.toNat) → (a.toNat = 237 → b.toNat ≤ 159) → Sequence [a, b, c]
  | four {a b c d : UInt8} :
      240 ≤ a.toNat → a.toNat ≤ 244 → isTail b = true → isTail c = true → isTail d = true →
      (a.toNat = 240 → 144 ≤ b.toNat) → (a.toNat = 244 → b.toNat ≤ 143) → Sequence [a, b, c, d]

theorem wellFormed_cons : wellFormed (lead :: tails) = true ↔ followsLead lead tails = true := by
  rw [wellFormed, beq_iff_eq]
  constructor
  · intro h
    have hf := follows_of_runeLen (show runeLen (lead :: tails) ≠ 0 by rw [h]; simp)
    rw [runeLen_cons_of_follows hf, List.length_cons] at h
    rwa [h, Nat.add_sub_cancel, List.take_length] at hf
  · intro h
    have hlen := followsLead_length h
    have hf : followsLead lead (tails.take (leadLen lead - 1)) = true := by
      rwa [← hlen, Nat.add_sub_cancel, List.take_length]
    rw [runeLen_cons_of_follows hf, List.length_cons, hlen]

theorem eq_of_toNat {a b : UInt8} (h : a.toNat = b.toNat) : a = b := UInt8.toNat_inj.mp h

theorem Sequence.of_wellFormed (h : wellFormed c = true) (hne : c ≠ []) : Sequence c := by
  obtain ⟨lead, tails, rfl⟩ := List.exists_cons_of_ne_nil hne
  rw [wellFormed_cons] at h
  have hlen := followsLead_length h
  obtain ⟨h1, h2, h3, h4, hmax⟩ := leadLen_range lead
  simp only [followsLead, Bool.and_eq_true, List.all_eq_true] at h
  obtain ⟨⟨-, htails⟩, hsecond⟩ := h
  -- one case for each number of tails
  rcases tails with _ | ⟨b, _ | ⟨c, _ | ⟨d, _ | ⟨e, rest⟩⟩⟩⟩
  · exact .one (h1.mp hlen.symm)
  · obtain ⟨hlow, hhigh⟩ := h2.mp hlen.symm
    exact .two hlow hhigh (htails b (by simp))
  · obtain ⟨hlow, hhigh⟩ := h3.mp hlen.symm
    have hrange := (acceptRange_iff lead b).mp hsecond
    refine .three hlow hhigh (htails b (by simp)) (htails c (by simp))
      (fun hlead => ?_) fun hlead => ?_
    · rw [eq_of_toNat (b := 0xe0) hlead] at hrange
      exact hrange.1
    · rw [eq_of_toNat (b := 0xed) hlead] at hrange
      exact hrange.2
  · obtain ⟨hlow, hhigh⟩ := h4.mp hlen.symm
    have hrange := (acceptRange_iff lead b).mp hsecond
    refine .four hlow hhigh (htails b (by simp)) (htails c (by simp)) (htails d (by simp))
      (fun hlead => ?_) fun hlead => ?_
    · rw [eq_of_toNat (b := 0xf0) hlead] at hrange
      exact hrange.1
    · rw [eq_of_toNat (b := 0xf4) hlead] at hrange
      exact hrange.2
  · simp only [List.length_cons] at hlen
    omega

theorem acceptRange_of_bounds {lead second : UInt8} (htail : isTail second = true)
    (h1 : lead.toNat = 224 → 160 ≤ second.toNat) (h2 : lead.toNat = 237 → second.toNat ≤ 159)
    (h3 : lead.toNat = 240 → 144 ≤ second.toNat) (h4 : lead.toNat = 244 → second.toNat ≤ 143) :
    acceptRange lead second = true := by
  obtain ⟨hlow, hhigh⟩ := isTail_iff.mp htail
  rw [acceptRange_iff]
  refine ⟨?_, ?_⟩
  · split_ifs with he0 hf0
    · exact h1 (by rw [he0]; rfl)
    · exact h3 (by rw [hf0]; rfl)
    · exact hlow
  · split_ifs with hed hf4
    · exact h2 (by rw [hed]; rfl)
    · exact h4 (by rw [hf4]; rfl)
    · exact hhigh

theorem Sequence.wellFormed (h : Sequence c) : wellFormed c = true := by
  cases h with
  | @one a ha =>
    obtain ⟨h1, -⟩ := leadLen_range a
    rw [wellFormed_cons, followsLead, h1.mpr ha]
    rfl
  | @two a b hlow hhigh hb =>
    obtain ⟨-, h2, -⟩ := leadLen_range a
    have haccept : acceptRange a b = true :=
      acceptRange_of_bounds hb (fun h => by omega) (fun h => by omega)
        (fun h => by omega) fun h => by omega
    simp [wellFormed_cons, followsLead, h2.mpr ⟨hlow, hhigh⟩, hb, haccept]
  | @three a b c hlow hhigh hb hc h224 h237 =>
    obtain ⟨-, -, h3, -⟩ := leadLen_range a
    have haccept := acceptRange_of_bounds hb h224 h237 (fun h => by omega) fun h => by omega
    simp [wellFormed_cons, followsLead, h3.mpr ⟨hlow, hhigh⟩, hb, hc, haccept]
  | @four a b c d hlow hhigh hb hc hd h240 h244 =>
    obtain ⟨-, -, -, h4, -⟩ := leadLen_range a
    have haccept := acceptRange_of_bounds hb (fun h => by omega) (fun h => by omega) h240 h244
    simp [wellFormed_cons, followsLead, h4.mpr ⟨hlow, hhigh⟩, hb, hc, hd, haccept]

theorem toNat_ofNat_of_lt (h : n < 256) : (UInt8.ofNat n).toNat = n := by
  rw [UInt8.toNat_ofNat', Nat.mod_eq_of_lt h]

theorem isTail_ofNat (h : n < 64) : isTail (UInt8.ofNat (0x80 + n)) = true := by
  rw [isTail_iff, toNat_ofNat_of_lt (by omega)]
  omega

theorem sequence_encodeRune (r : Nat) : Sequence (encodeRune r) := by
  unfold encodeRune
  split_ifs with h1 h2 h3 h4
  · exact .one (by rw [toNat_ofNat_of_lt] <;> omega)
  · refine .two ?_ ?_ (isTail_ofNat (by omega)) <;> rw [toNat_ofNat_of_lt] <;> omega
  · exact .three (by decide) (by decide) (by decide) (by decide) (by decide) (by decide)
  · refine .three ?_ ?_ (isTail_ofNat (by omega)) (isTail_ofNat (by omega)) ?_ ?_ <;>
      simp only [toNat_ofNat_of_lt (show 0xe0 + r / 4096 < 256 by omega),
        toNat_ofNat_of_lt (show 0x80 + r / 64 % 64 < 256 by omega)] <;> omega
  · refine .four ?_ ?_ (isTail_ofNat (by omega)) (isTail_ofNat (by omega))
      (isTail_ofNat (by omega)) ?_ ?_ <;>
      simp only [toNat_ofNat_of_lt (show 0xf0 + r / 262144 < 256 by omega),
        toNat_ofNat_of_lt (show 0x80 + r / 4096 % 64 < 256 by omega)] <;> omega

theorem Sequence.ne_nil (h : Sequence c) : c ≠ [] := by
  cases h <;> simp

theorem Sequence.validString (h : Sequence c) : validString c = true := by
  have hlen : runeLen c = c.length := by simpa [Go.wellFormed] using h.wellFormed
  have hpos := List.length_pos_iff.mpr h.ne_nil
  have hwidth : runeWidth c = c.length := by
    rw [runeWidth, hlen]
    omega
  have hfirst := validString_first h.ne_nil (show runeLen c ≠ 0 by omega)
  rwa [hwidth, List.take_length] at hfirst

theorem ofNat_eq {b : UInt8} (h : n = b.toNat) : UInt8.ofNat n = b := by
  rw [h, UInt8.ofNat_toNat]

theorem encodeRune_rune (h : Sequence c) : encodeRune (rune c) = c := by
  have hwell := h.wellFormed
  unfold rune
  rw [if_pos hwell]
  cases h with
  | one ha =>
    dsimp only
    rw [encodeRune, if_pos ha, UInt8.ofNat_toNat]
  | two hlow hhigh hb =>
    obtain ⟨hb, hb'⟩ := isTail_iff.mp hb
    dsimp only
    rw [encodeRune, if_neg (by omega), if_pos (by omega), List.cons.injEq, List.cons.injEq]
    exact ⟨ofNat_eq (by omega), ofNat_eq (by omega), rfl⟩
  | three hlow hhigh hb hc h224 h237 =>
    obtain ⟨hb, hb'⟩ := isTail_iff.mp hb
    obtain ⟨hc, hc'⟩ := isTail_iff.mp hc
    dsimp only
    rw [encodeRune, if_neg (by omega), if_neg (by omega), if_neg (by omega), if_pos (by omega),
      List.cons.injEq, List.cons.injEq, List.cons.injEq]
    exact ⟨ofNat_eq (by omega), ofNat_eq (by omega), ofNat_eq (by omega), rfl⟩
  | four hlow hhigh hb hc hd h240 h244 =>
    obtain ⟨hb, hb'⟩ := isTail_iff.mp hb
    obtain ⟨hc, hc'⟩ := isTail_iff.mp hc
    obtain ⟨hd, hd'⟩ := isTail_iff.mp hd
    dsimp only
    rw [encodeRune, if_neg (by omega), if_neg (by omega), if_neg (by omega), if_neg (by omega),
      List.cons.injEq, List.cons.injEq, List.cons.injEq, List.cons.injEq]
    exact ⟨ofNat_eq (by omega), ofNat_eq (by omega), ofNat_eq (by omega), ofNat_eq (by omega), rfl⟩

namespace Json

-- ---------------------------------------------------------------------------
-- Bodies of string literals
-- ---------------------------------------------------------------------------

inductive Literal : GoString → Prop
  | nil : Literal []
  | plain : 0x20 ≤ b → b ≠ 0x22 → b ≠ 0x5c → Literal rest → Literal (b :: rest)
  | short : isShortEscape e = true → Literal rest → Literal (0x5c :: e :: rest)
  | code : isHexDigit a = true → isHexDigit b = true → isHexDigit c = true →
      isHexDigit d = true → Literal rest →
      Literal (0x5c :: 0x75 :: a :: b :: c :: d :: rest)

theorem takeBody_plain (hq : b ≠ 0x22) (hs : b ≠ 0x5c) (hlow : 0x20 ≤ b) (rest : GoString) :
    takeBody (b :: rest) = (takeBody rest).map fun p => (b :: p.1, p.2) := by
  rw [takeBody]
  · rw [if_neg hq, if_neg (not_or.mpr ⟨UInt8.not_lt.mpr hlow, hs⟩)]
  · intro _ _ _ _ _ h
    exact absurd h hs
  · intro _ _ h
    exact absurd h hs

theorem takeBody_short (he : isShortEscape e = true) (rest : GoString) :
    takeBody (0x5c :: e :: rest) = (takeBody rest).map fun p => (0x5c :: e :: p.1, p.2) := by
  rw [takeBody]
  · rw [if_pos he]
  · rintro _ _ _ _ _ rfl
    exact absurd he (by decide)

theorem takeBody_of_literal (h : Literal body) (rest : GoString) :
    takeBody (body ++ 0x22 :: rest) = some (body, rest) := by
  induction h with
  | nil => rfl
  | plain hlow hq hs _ ih => rw [List.cons_append, takeBody_plain hq hs hlow, ih, Option.map_some]
  | short he _ ih => rw [List.cons_append, List.cons_append, takeBody_short he, ih, Option.map_some]
  | code ha hb hc hd _ ih =>
    simp only [List.cons_append, takeBody, List.all_cons, List.all_nil, ha, hb, hc, hd,
      Bool.and_true, if_true, ih, Option.map_some]

theorem literal_of_takeBody {s : GoString} (h : takeBody s = some (body, rest)) :
    Literal body ∧ s = body ++ 0x22 :: rest := by
  induction s using takeBody.induct generalizing body with
  | case1 => cases h
  | case2 a b c d tail hhex ih =>
    simp only [takeBody, hhex, if_true, Option.map_eq_some_iff] at h
    obtain ⟨⟨inner, rest'⟩, htail, hp⟩ := h
    cases hp
    obtain ⟨hliteral, rfl⟩ := ih htail
    simp only [List.all_cons, List.all_nil, Bool.and_true, Bool.and_eq_true] at hhex
    exact ⟨.code hhex.1 hhex.2.1 hhex.2.2.1 hhex.2.2.2 hliteral, rfl⟩
  | case3 a b c d tail hhex => simp [takeBody, hhex] at h
  | case4 e tail hne hshort ih =>
    rw [takeBody_short hshort, Option.map_eq_some_iff] at h
    obtain ⟨⟨inner, rest'⟩, htail, hp⟩ := h
    cases hp
    obtain ⟨hliteral, rfl⟩ := ih htail
    exact ⟨.short hshort hliteral, rfl⟩
  | case5 e tail hne hshort =>
    rw [takeBody, if_neg hshort] at h
    · cases h
    · exact hne
  | case6 tail =>
    cases h
    exact ⟨.nil, rfl⟩
  | case7 b tail hcode hshort hq hbad =>
    rw [takeBody, if_neg hq, if_pos hbad] at h
    · cases h
    · exact hcode
    · exact hshort
  | case8 b tail hcode hshort hq hbad ih =>
    obtain ⟨hlow, hs⟩ := not_or.mp hbad
    rw [takeBody_plain hq hs (UInt8.not_lt.mp hlow), Option.map_eq_some_iff] at h
    obtain ⟨⟨inner, rest'⟩, htail, hp⟩ := h
    cases hp
    obtain ⟨hliteral, rfl⟩ := ih htail
    exact ⟨.plain (UInt8.not_lt.mp hlow) hq hs hliteral, rfl⟩

-- ---------------------------------------------------------------------------
-- Unquoting
-- ---------------------------------------------------------------------------

theorem unquoteStep_pos (h : unquoteStep s = some (written, width)) : 0 < width := by
  unfold unquoteStep at h
  split at h
  · cases h
  · simp only [Option.bind_eq_bind, Option.bind_eq_some_iff] at h
    obtain ⟨r, -, h⟩ := h
    split at h
    · split at h <;> cases h <;> decide
    · cases h
      decide
  · obtain ⟨b, -, hp⟩ := Option.map_eq_some_iff.mp h
    cases hp
    decide
  · split_ifs at h
    · cases h
      decide
    · cases h
      exact runeWidth_pos _

theorem unquoteFuel_eq (h : s.length ≤ n) (h' : s.length ≤ m) :
    unquoteFuel n s = unquoteFuel m s := by
  induction n generalizing s m with
  | zero =>
    rw [List.length_eq_zero_iff.mp (Nat.le_zero.mp h)]
    cases m <;> rfl
  | succ n ih =>
    cases s with
    | nil => cases m <;> rfl
    | cons b s =>
      cases m with
      | zero => simp at h'
      | succ m =>
        simp only [unquoteFuel, Option.bind_eq_bind]
        cases hstep : unquoteStep (b :: s) with
        | none => rfl
        | some p =>
          have hpos := unquoteStep_pos hstep
          have hdrop : ((b :: s).drop p.2).length ≤ (b :: s).length - 1 := by
            rw [List.length_drop]
            omega
          simp only [List.length_cons, Nat.add_sub_cancel] at hdrop h h'
          rw [Option.bind_some, Option.bind_some, ih (m := m) (by omega) (by omega)]

@[simp] theorem unquoteBytes_nil : unquoteBytes [] = some [] := rfl

theorem unquoteBytes_step (h : unquoteStep s = some (written, width)) :
    unquoteBytes s = (unquoteBytes (s.drop width)).map (written ++ ·) := by
  have hpos := unquoteStep_pos h
  cases s with
  | nil => cases h
  | cons b s =>
    have hdrop : ((b :: s).drop width).length ≤ s.length := by
      rw [List.length_drop, List.length_cons]
      omega
    rw [unquoteBytes, List.length_cons, unquoteFuel]
    · simp only [h, Option.bind_eq_bind, Option.bind_some]
      rw [unquoteFuel_eq hdrop le_rfl, ← unquoteBytes]
      cases unquoteBytes ((b :: s).drop width) <;> rfl
    · simp

theorem shortEscape_ascii (e : UInt8) :
    isShortEscape e = true → ∃ b, shortEscape e = some b ∧ b < 0x80 := by
  have hall : ∀ e, isShortEscape e = true → (shortEscape e).any (· < 0x80) = true :=
    forall_byte (by decide +kernel)
  intro he
  have hany := hall e he
  cases hb : shortEscape e with
  | none =>
    rw [hb] at hany
    cases hany
  | some b =>
    rw [hb] at hany
    exact ⟨b, rfl, of_decide_eq_true hany⟩

theorem Literal.high (hhigh : ∀ b ∈ bytes, 0x80 ≤ b) (h : Literal (bytes ++ rest)) :
    Literal rest := by
  induction bytes with
  | nil => exact h
  | cons b bytes ih =>
    obtain ⟨hb, hbytes⟩ := List.forall_mem_cons.mp hhigh
    refine ih hbytes ?_
    rw [List.cons_append] at h
    generalize bytes ++ rest = tail at h
    cases h with
    | plain _ _ _ htail => exact htail
    | short | code => exact absurd hb (by decide)

theorem Literal.drop_code (h : Literal s) (hcode : getu4 s = some r) : Literal (s.drop 6) := by
  cases h with
  | nil => cases hcode
  | plain _ _ hs =>
    unfold getu4 at hcode
    split at hcode
    · next heq =>
      cases heq
      exact absurd rfl hs
    · cases hcode
  | short he =>
    unfold getu4 at hcode
    split at hcode
    · next heq =>
      cases heq
      exact absurd he (by decide)
    · cases hcode
  | code _ _ _ _ hrest => exact hrest

theorem getu4_code (ha : isHexDigit a = true) (hb : isHexDigit b = true) (hc : isHexDigit c = true)
    (hd : isHexDigit d = true) (rest : GoString) :
    ∃ r, getu4 (0x5c :: 0x75 :: a :: b :: c :: d :: rest) = some r := by
  obtain ⟨a', ha⟩ := Option.isSome_iff_exists.mp ha
  obtain ⟨b', hb⟩ := Option.isSome_iff_exists.mp hb
  obtain ⟨c', hc⟩ := Option.isSome_iff_exists.mp hc
  obtain ⟨d', hd⟩ := Option.isSome_iff_exists.mp hd
  refine ⟨a' * 4096 + b' * 256 + c' * 16 + d', ?_⟩
  simp only [getu4, ha, hb, hc, hd, Option.bind_eq_bind, Option.bind_some]

theorem unquoteStep_literal (h : Literal s) (hne : s ≠ []) :
    ∃ written width, unquoteStep s = some (written, width) ∧ Sequence written ∧
    Literal (s.drop width) := by
  cases h with
  | nil => exact absurd rfl hne
  | @plain b rest hlow hq hs hrest =>
    have hstep : unquoteStep (b :: rest) = if b < 0x80 then some ([b], 1) else
        some (encodeRune (rune ((b :: rest).take (runeWidth (b :: rest)))),
          runeWidth (b :: rest)) := by
      unfold unquoteStep
      split
      · next heq => cases heq
      · next heq =>
        cases heq
        exact absurd rfl hs
      · next heq =>
        cases heq
        exact absurd rfl hs
      · next heq =>
        cases heq
        rw [if_neg (not_or.mpr ⟨hs, not_or.mpr ⟨hq, UInt8.not_lt.mpr hlow⟩⟩)]
    by_cases hascii : b < 0x80
    · rw [if_pos hascii] at hstep
      exact ⟨[b], 1, hstep, .one hascii, hrest⟩
    · rw [if_neg hascii] at hstep
      refine ⟨_, _, hstep, sequence_encodeRune _, ?_⟩
      have hliteral : Literal (b :: rest) := .plain hlow hq hs hrest
      by_cases hrune : runeLen (b :: rest) = 0
      · rw [runeWidth, hrune]
        exact hrest
      · have hwell := (wellFormed_first (s := b :: rest) (by simp)).mpr hrune
        have hhigh : ∀ x ∈ (b :: rest).take (runeWidth (b :: rest)), 0x80 ≤ x := by
          rcases wellFormed_cases hwell with ⟨x, hx, hlt⟩ | ⟨-, hhigh⟩
          · have hhead : b = x := by
              have hpos := runeWidth_pos (b :: rest)
              obtain ⟨k, hk⟩ := Nat.exists_eq_succ_of_ne_zero hpos.ne'
              rw [hk, List.take_succ_cons] at hx
              exact (List.cons.inj hx).1
            exact absurd (hhead ▸ hlt) hascii
          · exact hhigh
        rw [← List.take_append_drop (runeWidth (b :: rest)) (b :: rest)] at hliteral
        exact Literal.high hhigh hliteral
  | @short e rest he hrest =>
    obtain ⟨b, hb, hlt⟩ := shortEscape_ascii e he
    have hstep : unquoteStep (0x5c :: e :: rest) = some ([b], 2) := by
      unfold unquoteStep
      split
      · next heq => cases heq
      · next heq =>
        cases heq
        exact absurd he (by decide)
      · next heq =>
        cases heq
        rw [hb, Option.map_some]
      · next hno heq =>
        cases heq
        exact absurd rfl (hno e rest rfl)
    exact ⟨[b], 2, hstep, .one hlt, hrest⟩
  | @code a b c d rest ha hb hc hd hrest =>
    obtain ⟨r, hr⟩ := getu4_code ha hb hc hd rest
    by_cases hsurrogate : isSurrogate r = true
    · cases hpair : (getu4 rest).bind (decodePair r) with
      | none =>
        refine ⟨encodeRune 0xfffd, 6, ?_, sequence_encodeRune _, hrest⟩
        simp only [unquoteStep, hr, Option.bind_eq_bind, Option.bind_some, hsurrogate, if_true,
          List.drop_succ_cons, List.drop_zero, hpair]
      | some pair =>
        obtain ⟨low, hlow, -⟩ := Option.bind_eq_some_iff.mp hpair
        refine ⟨encodeRune pair, 12, ?_, sequence_encodeRune _, ?_⟩
        · simp only [unquoteStep, hr, Option.bind_eq_bind, Option.bind_some, hsurrogate, if_true,
            List.drop_succ_cons, List.drop_zero, hpair]
        · exact hrest.drop_code hlow
    · refine ⟨encodeRune r, 6, ?_, sequence_encodeRune _, hrest⟩
      simp only [unquoteStep, hr, Option.bind_eq_bind, Option.bind_some, hsurrogate]
      rfl

theorem unquoteBytes_literal (h : Literal body) :
    ∃ text, unquoteBytes body = some text ∧ validString text = true := by
  induction hn : body.length using Nat.strong_induction_on generalizing body with
  | _ n ih =>
    by_cases hne : body = []
    · rw [hne]
      exact ⟨[], rfl, rfl⟩
    · obtain ⟨written, width, hstep, hwritten, hrest⟩ := unquoteStep_literal h hne
      have hpos := unquoteStep_pos hstep
      have hlen := List.length_pos_iff.mpr hne
      obtain ⟨text, htext, hvalid⟩ :=
        ih (body.drop width).length (by rw [List.length_drop]; omega) hrest rfl
      refine ⟨written ++ text, ?_, ?_⟩
      · rw [unquoteBytes_step hstep, htext, Option.map_some]
      · rw [validString_append hwritten.validString, hvalid]

-- ---------------------------------------------------------------------------
-- Escapes
-- ---------------------------------------------------------------------------

theorem Literal.append (h : Literal s) (h' : Literal t) : Literal (s ++ t) := by
  induction h with
  | nil => exact h'
  | plain hlow hq hs _ ih => exact .plain hlow hq hs ih
  | short he _ ih => exact .short he ih
  | code ha hb hc hd _ ih => exact .code ha hb hc hd ih

theorem literal_high (h : ∀ b ∈ s, 0x80 ≤ b) : Literal s := by
  induction s with
  | nil => exact .nil
  | cons b s ih =>
    obtain ⟨hb, hs⟩ := List.forall_mem_cons.mp h
    refine .plain (UInt8.le_trans (by decide) hb) ?_ ?_ (ih hs)
    · rintro rfl
      exact absurd hb (by decide)
    · rintro rfl
      exact absurd hb (by decide)

theorem unquoteStep_code (hcode : getu4 (0x5c :: 0x75 :: s) = some r) (hr : isSurrogate r = false) :
    unquoteStep (0x5c :: 0x75 :: s) = some (encodeRune r, 6) := by
  rw [unquoteStep, hcode]
  simp only [Option.bind_eq_bind, Option.bind_some, hr]
  rfl

theorem unquoteStep_escapeByte (hb : b < 0x80) (rest : GoString) :
    unquoteStep (escapeByte b ++ rest) = some ([b], (escapeByte b).length) := by
  unfold escapeByte
  split_ifs with hsafe hquote h1 h2 h3 h4 h5
  · have hs : b ≠ 0x5c := by
      rintro rfl
      exact absurd hsafe (by decide)
    have hq : b ≠ 0x22 := by
      rintro rfl
      exact absurd hsafe (by decide)
    have hlow : 0x20 ≤ b := by
      simp only [htmlSafe, Bool.and_eq_true, decide_eq_true_eq] at hsafe
      exact hsafe.1.1.1.1.1
    rw [List.singleton_append, unquoteStep]
    · rw [if_neg (not_or.mpr ⟨hs, not_or.mpr ⟨hq, UInt8.not_lt.mpr hlow⟩⟩), if_pos hb]
      rfl
    · intro _ h
      exact absurd h hs
    · intro _ _ h
      exact absurd h hs
  · rcases hquote with rfl | rfl <;> rfl
  · rw [h1]
    rfl
  · rw [h2]
    rfl
  · rw [h3]
    rfl
  · rw [h4]
    rfl
  · rw [h5]
    rfl
  · have hnat : b.toNat < 128 := UInt8.lt_iff_toNat_lt.mp hb
    have hhigh := Hex.fromHexChar_digit (n := b.toNat / 16) (by omega)
    have hlow := Hex.fromHexChar_digit (n := b.toNat % 16) (by omega)
    have hzero : Hex.fromHexChar 0x30 = some 0 := by decide
    have htext : str "\\u00" = [0x5c, 0x75, 0x30, 0x30] := by decide
    have hcode : getu4 (str "\\u00" ++ Hex.encodeByte b ++ rest) = some b.toNat := by
      simp only [htext, Hex.encodeByte, List.cons_append, List.nil_append, getu4, hzero, hhigh,
        hlow, Option.bind_eq_bind, Option.bind_some, Option.some.injEq]
      omega
    have hplain : isSurrogate b.toNat = false := decide_eq_false (by omega)
    have hrune : encodeRune b.toNat = [b] := by rw [encodeRune, if_pos hnat, UInt8.ofNat_toNat]
    rw [htext] at hcode ⊢
    rw [← hrune]
    exact unquoteStep_code hcode hplain

theorem literal_escapeByte (b : UInt8) : Literal (escapeByte b) := by
  have hall : ∀ b, (takeBody (escapeByte b ++ [0x22])).map Prod.fst = some (escapeByte b) :=
    forall_byte (by decide +kernel)
  obtain ⟨⟨body, rest⟩, htake, hbody⟩ := Option.map_eq_some_iff.mp (hall b)
  cases hbody
  exact (literal_of_takeBody htake).1

theorem unquoteStep_sequence (hseq : Sequence (b :: c)) (hhigh : ∀ x ∈ b :: c, 0x80 ≤ x)
    (rest : GoString) :
    unquoteStep (b :: c ++ rest) = some (b :: c, (b :: c).length) := by
  have hb := hhigh b List.mem_cons_self
  have hlen : runeLen (b :: c) = (b :: c).length := by simpa [wellFormed] using hseq.wellFormed
  have hrune : runeLen (b :: c ++ rest) = (b :: c).length := by
    rw [runeLen_append (by rw [hlen]; simp), hlen]
  have hwidth : runeWidth (b :: c ++ rest) = (b :: c).length := by
    rw [runeWidth, hrune, List.length_cons]
    omega
  have htake : (b :: c ++ rest).take (b :: c).length = b :: c := List.take_left
  have hs : b ≠ 0x5c := by
    rintro rfl
    exact absurd hb (by decide)
  have hno : ¬(b = 0x5c ∨ b = 0x22 ∨ b < 0x20) := by
    rintro (rfl | rfl | hlow)
    · exact absurd hb (by decide)
    · exact absurd hb (by decide)
    · exact absurd (UInt8.le_trans hb (UInt8.le_of_lt hlow)) (by decide)
  rw [List.cons_append] at hwidth htake ⊢
  rw [unquoteStep]
  · rw [if_neg hno, if_neg (UInt8.not_lt.mpr hb), hwidth, htake, encodeRune_rune hseq]
  · intro _ h
    exact absurd h hs
  · intro _ _ h
    exact absurd h hs

theorem escapeChunk_cases (h : wellFormed c = true) (hne : c ≠ []) :
    (∃ b, c = [b] ∧ b < 0x80 ∧ escapeChunk c = escapeByte b) ∨
    c = lineSeparator ∧ escapeChunk c = str "\\u2028" ∨ c = paragraphSeparator ∧
    escapeChunk c = str "\\u2029" ∨
    (∀ b ∈ c, 0x80 ≤ b) ∧ escapeChunk c = c := by
  rcases wellFormed_cases h with ⟨b, rfl, hb⟩ | ⟨hmany, hhigh⟩
  · exact .inl ⟨b, rfl, hb, if_pos hb⟩
  · have hchunk : escapeChunk c = if c = lineSeparator then str "\\u2028"
        else if c = paragraphSeparator then str "\\u2029" else c := by
      unfold escapeChunk
      split
      · exact absurd rfl hmany
      · rfl
    rw [hchunk]
    split_ifs with hline hparagraph
    · exact .inr (.inl ⟨hline, rfl⟩)
    · exact .inr (.inr (.inl ⟨hparagraph, rfl⟩))
    · exact .inr (.inr (.inr ⟨hhigh, rfl⟩))

theorem unquoteStep_escapeChunk (h : wellFormed c = true) (hne : c ≠ []) (rest : GoString) :
    unquoteStep (escapeChunk c ++ rest) = some (c, (escapeChunk c).length) := by
  rcases escapeChunk_cases h hne with ⟨b, rfl, hb, hchunk⟩ | ⟨rfl, hchunk⟩ | ⟨rfl,
    hchunk⟩ | ⟨hhigh, hchunk⟩
  · rw [hchunk]
    exact unquoteStep_escapeByte hb rest
  · have hrune : encodeRune 0x2028 = lineSeparator := by decide
    rw [hchunk, ← hrune]
    exact unquoteStep_code rfl (by decide)
  · have hrune : encodeRune 0x2029 = paragraphSeparator := by decide
    rw [hchunk, ← hrune]
    exact unquoteStep_code rfl (by decide)
  · obtain ⟨b, tail, rfl⟩ := List.exists_cons_of_ne_nil hne
    rw [hchunk]
    exact unquoteStep_sequence (.of_wellFormed h hne) hhigh rest

theorem literal_escapeChunk (h : wellFormed c = true) (hne : c ≠ []) : Literal (escapeChunk c) := by
  rcases escapeChunk_cases h hne with ⟨b, rfl, hb, hchunk⟩ | ⟨rfl, hchunk⟩ | ⟨rfl,
    hchunk⟩ | ⟨hhigh, hchunk⟩
  · exact hchunk ▸ literal_escapeByte b
  · exact hchunk ▸ .code (by decide) (by decide) (by decide) (by decide) .nil
  · exact hchunk ▸ .code (by decide) (by decide) (by decide) (by decide) .nil
  · rw [hchunk]
    exact literal_high hhigh

theorem escape_step (hs : s ≠ []) :
    escape s = escapeChunk (s.take (runeWidth s)) ++ escape (s.drop (runeWidth s)) := by
  rw [escape, chunks_step hs, List.flatMap_cons, ← escape]

/-- The escaped text of valid UTF-8 is a body, and unquoting it gives the text
back. -/
theorem unquoteBytes_escape (h : validString s = true) :
    Literal (escape s) ∧ unquoteBytes (escape s) = some s := by
  induction s using chunks_induction with
  | nil => exact ⟨.nil, rfl⟩
  | step s hs ih =>
    obtain ⟨hrune, hrest⟩ := (validString_step hs).mp h
    obtain ⟨hliteral, hunquote⟩ := ih hrest
    have hwell := (wellFormed_first hs).mpr hrune
    have hne : s.take (runeWidth s) ≠ [] := by
      rw [Ne, List.take_eq_nil_iff, not_or]
      exact ⟨(runeWidth_pos s).ne', hs⟩
    rw [escape_step hs]
    refine ⟨(literal_escapeChunk hwell hne).append hliteral, ?_⟩
    rw [unquoteBytes_step (unquoteStep_escapeChunk hwell hne _), List.drop_left, hunquote,
      Option.map_some, List.take_append_drop]

end Json

end GoClean.Go
