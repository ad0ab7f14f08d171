import Mathlib.Data.List.Basic
import Mathlib.Data.List.DropRight
import GoClean.Go.Text

/-!
# Runes of a Go string

A `for range` loop cuts a string into chunks: a well-formed UTF-8 sequence,
or a single byte that starts none, which counts as U+FFFD. `chunks` is that
cut. `utf8.ValidString`, `utf8.RuneCountInString` and the trimming and
searching functions of `strings` are read off it. A stretch of the chunks is
cut as before when it stands alone (`chunks_flatten_take`,
`chunks_flatten_drop`). In a valid string the cuts are where no tail byte
stands (`runeBoundary_of_lead`).
-/

namespace GoClean.Go

def isTail (b : UInt8) : Bool := decide (0x80 ≤ b ∧ b ≤ 0xbf)

/-- The second byte a lead byte accepts: no overlong form, no surrogate,
nothing above U+10FFFF. -/
def acceptRange (lead second : UInt8) : Bool :=
  decide ((if lead = 0xe0 then 0xa0 else if lead = 0xf0 then 0x90 else 0x80) ≤ second ∧
    second ≤ (if lead = 0xed then 0x9f else if lead = 0xf4 then 0x8f else 0xbf))

def leadLen (lead : UInt8) : Nat :=
  if lead < 0x80 then 1
  else if 0xc2 ≤ lead ∧ lead ≤ 0xdf then 2
  else if 0xe0 ≤ lead ∧ lead ≤ 0xef then 3
  else if 0xf0 ≤ lead ∧ lead ≤ 0xf4 then 4
  else 0

def followsLead (lead : UInt8) (tails : GoString) : Bool :=
  tails.length + 1 == leadLen lead && tails.all isTail && tails.head?.all (acceptRange lead)

def runeLen : GoString → Nat
  | [] => 0
  | lead :: rest => if followsLead lead (rest.take (leadLen lead - 1)) then leadLen lead else 0

/-- What a `for range` loop steps over: an ill-formed byte on its own. -/
def runeWidth (s : GoString) : Nat := max 1 (runeLen s)

def chunksFuel : Nat → GoString → List GoString
  | 0, _ => []
  | _ + 1, [] => []
  | n + 1, b :: s =>
    (b :: s).take (runeWidth (b :: s)) :: chunksFuel n ((b :: s).drop (runeWidth (b :: s)))

def chunks (s : GoString) : List GoString := chunksFuel s.length s

def wellFormed (chunk : GoString) : Bool := runeLen chunk == chunk.length

/-- The code point of a chunk; U+FFFD for an ill-formed byte. -/
def rune (chunk : GoString) : Nat :=
  if wellFormed chunk then
    match chunk with
    | [a] => a.toNat
    | [a, b] => a.toNat % 32 * 64 + b.toNat % 64
    | [a, b, c] => a.toNat % 16 * 4096 + b.toNat % 64 * 64 + c.toNat % 64
    | [a, b, c, d] => a.toNat % 8 * 262144 + b.toNat % 64 * 4096 + c.toNat % 64 * 64 + d.toNat % 64
    | _ => 0xfffd
  else 0xfffd

def validString (s : GoString) : Bool := (chunks s).all wellFormed

def runeCountInString (s : GoString) : Nat := (chunks s).length

def isControl (r : Nat) : Bool := decide (r < 0x20) || decide (0x7f ≤ r ∧ r < 0xa0)

def isSpace (r : Nat) : Bool :=
  decide (9 ≤ r ∧ r ≤ 13) || r == 0x20 || r == 0x85 || r == 0xa0 || r == 0x1680 ||
  decide (0x2000 ≤ r ∧ r ≤ 0x200a) || r == 0x2028 || r == 0x2029 || r == 0x202f || r == 0x205f ||
  r == 0x3000

def hasControl (s : GoString) : Bool := (chunks s).any fun c => isControl (rune c)

def spaceChunk (chunk : GoString) : Bool := isSpace (rune chunk)

def trimSpace (s : GoString) : GoString :=
  (((chunks s).dropWhile spaceChunk).rdropWhile spaceChunk).flatten

-- ---------------------------------------------------------------------------
-- The cut
-- ---------------------------------------------------------------------------

theorem followsLead_length (h : followsLead lead tails = true) :
    tails.length + 1 = leadLen lead := by
  simp only [followsLead, Bool.and_eq_true, beq_iff_eq] at h
  exact h.1.1

theorem runeLen_cons_of_follows (h : followsLead lead (rest.take (leadLen lead - 1)) = true) :
    runeLen (lead :: rest) = leadLen lead := if_pos h

theorem follows_of_runeLen (h : runeLen (lead :: rest) ≠ 0) :
    followsLead lead (rest.take (leadLen lead - 1)) = true := by
  by_contra hf
  exact h (if_neg hf)

theorem runeLen_le (s : GoString) : runeLen s ≤ s.length := by
  cases s with
  | nil => simp [runeLen]
  | cons lead rest =>
    by_cases h : runeLen (lead :: rest) = 0
    · omega
    · have hf := follows_of_runeLen h
      have hl := followsLead_length hf
      rw [List.length_take] at hl
      rw [runeLen_cons_of_follows hf, List.length_cons]
      omega

theorem runeWidth_pos (s : GoString) : 0 < runeWidth s := by
  unfold runeWidth
  omega

theorem runeWidth_le (h : s ≠ []) : runeWidth s ≤ s.length := by
  have hp := List.length_pos_iff.mpr h
  have hl := runeLen_le s
  unfold runeWidth
  omega

theorem chunksFuel_eq (h : s.length ≤ n) (h' : s.length ≤ m) : chunksFuel n s = chunksFuel m s := by
  induction n generalizing m s with
  | zero =>
    have hs : s = [] := List.length_eq_zero_iff.mp (by omega)
    subst hs
    cases m <;> rfl
  | succ n ih =>
    cases s with
    | nil => cases m <;> rfl
    | cons b s =>
      cases m with
      | zero => simp at h'
      | succ m =>
        have hw := runeWidth_pos (b :: s)
        have hlen : ((b :: s).drop (runeWidth (b :: s))).length ≤ s.length := by
          rw [List.length_drop, List.length_cons]
          omega
        simp only [List.length_cons] at h h'
        rw [chunksFuel, chunksFuel, ih (m := m) (by omega) (by omega)]

@[simp] theorem chunks_nil : chunks [] = [] := rfl

theorem chunks_step (h : s ≠ []) :
    chunks s = s.take (runeWidth s) :: chunks (s.drop (runeWidth s)) := by
  cases s with
  | nil => exact absurd rfl h
  | cons b s =>
    have hw := runeWidth_pos (b :: s)
    have hlen : ((b :: s).drop (runeWidth (b :: s))).length ≤ s.length := by
      rw [List.length_drop, List.length_cons]
      omega
    rw [chunks, List.length_cons, chunksFuel, chunks, chunksFuel_eq hlen le_rfl]

theorem chunks_induction {P : GoString → Prop} (nil : P [])
    (step : ∀ s, s ≠ [] → P (s.drop (runeWidth s)) → P s) (s : GoString) : P s := by
  induction hn : s.length using Nat.strong_induction_on generalizing s with
  | _ n ih =>
    by_cases hs : s = []
    · exact hs ▸ nil
    · have hp := List.length_pos_iff.mpr hs
      have hw := runeWidth_pos s
      refine step s hs (ih _ ?_ _ rfl)
      rw [List.length_drop]
      omega

@[simp] theorem flatten_chunks (s : GoString) : (chunks s).flatten = s := by
  induction s using chunks_induction with
  | nil => rfl
  | step s hs ih => rw [chunks_step hs, List.flatten_cons, ih, List.take_append_drop]

theorem runeLen_append (h : runeLen s ≠ 0) (t : GoString) : runeLen (s ++ t) = runeLen s := by
  cases s with
  | nil => simp [runeLen] at h
  | cons lead rest =>
    have hf := follows_of_runeLen h
    have hl := followsLead_length hf
    rw [List.length_take] at hl
    have htake : (rest ++ t).take (leadLen lead - 1) = rest.take (leadLen lead - 1) :=
      List.take_append_of_le_length (by omega)
    rw [List.cons_append, runeLen, runeLen, htake]

theorem runeLen_take (h : runeLen s ≤ n) : runeLen (s.take n) = runeLen s := by
  by_cases h0 : runeLen (s.take n) = 0
  · by_contra hne
    cases s with
    | nil => simp at hne
    | cons lead rest =>
      have hf := follows_of_runeLen (fun e => hne (h0.trans e.symm))
      have hl := followsLead_length hf
      rw [runeLen_cons_of_follows hf] at h
      obtain ⟨m, rfl⟩ : ∃ m, n = m + 1 := ⟨n - 1, by omega⟩
      have htake : (rest.take m).take (leadLen lead - 1) = rest.take (leadLen lead - 1) := by
        rw [List.take_take, Nat.min_eq_left (by omega)]
      rw [List.take_succ_cons, runeLen, htake, if_pos hf] at h0
      omega
  · rw [← runeLen_append h0 (s.drop n), List.take_append_drop]

theorem runeWidth_take (h : runeWidth s ≤ n) : runeWidth (s.take n) = runeWidth s := by
  unfold runeWidth at h ⊢
  rw [runeLen_take (by omega)]

theorem chunks_flatten_take (s : GoString) (k : Nat) :
    chunks ((chunks s).take k).flatten = (chunks s).take k := by
  induction s using chunks_induction generalizing k with
  | nil => simp
  | step s hs ih =>
    cases k with
    | zero => simp
    | succ k =>
      have hw := runeWidth_le hs
      have hpos := runeWidth_pos s
      rw [chunks_step hs, List.take_succ_cons, List.flatten_cons]
      -- what is kept of `s` is a start of `s` that covers its first rune
      obtain ⟨m, hm⟩ : ∃ m, ((chunks (s.drop (runeWidth s))).take k).flatten =
          (s.drop (runeWidth s)).take m := by
        refine ⟨_, List.prefix_iff_eq_take.mp
          ⟨((chunks (s.drop (runeWidth s))).drop k).flatten, ?_⟩⟩
        rw [← List.flatten_append, List.take_append_drop, flatten_chunks]
      have htake : s.take (runeWidth s) ++ (s.drop (runeWidth s)).take m =
          s.take (runeWidth s + m) := by
        rw [List.take_add]
      have hne : s.take (runeWidth s + m) ≠ [] := by
        rw [← List.length_pos_iff, List.length_take]
        omega
      rw [hm, htake, chunks_step hne, runeWidth_take (by omega), List.take_take,
        Nat.min_eq_left (by omega), List.drop_take, Nat.add_sub_cancel_left, ← hm, ih]

theorem chunks_flatten_drop (s : GoString) (k : Nat) :
    chunks ((chunks s).drop k).flatten = (chunks s).drop k := by
  induction s using chunks_induction generalizing k with
  | nil => simp
  | step s hs ih =>
    cases k with
    | zero => simp
    | succ k => rw [chunks_step hs, List.drop_succ_cons, ih]

/-- A well-formed chunk is one ASCII byte, or several bytes that are all
above ASCII. -/
theorem wellFormed_cases (h : wellFormed c = true) :
    (∃ b, c = [b] ∧ b < 0x80) ∨ (c.length ≠ 1 ∧ ∀ b ∈ c, 0x80 ≤ b) := by
  cases c with
  | nil => exact .inr (by simp)
  | cons lead tails =>
    have hlen : runeLen (lead :: tails) = tails.length + 1 := by
      simpa [wellFormed] using h
    have hf := follows_of_runeLen (show runeLen (lead :: tails) ≠ 0 by omega)
    have hl := followsLead_length hf
    rw [runeLen_cons_of_follows hf] at hlen
    rw [hlen, Nat.add_sub_cancel, List.take_length] at hf
    simp only [followsLead, Bool.and_eq_true, List.all_eq_true] at hf
    by_cases ha : lead < 0x80
    · have hone : leadLen lead = 1 := if_pos ha
      have hnil : tails = [] := List.length_eq_zero_iff.mp (by omega)
      exact .inl ⟨lead, by rw [hnil], ha⟩
    · have hmany : leadLen lead ≠ 1 := by
        simp only [leadLen, if_neg ha]
        repeat' split
        all_goals decide
      refine .inr ⟨by rw [List.length_cons]; omega, fun b hb => ?_⟩
      rcases List.mem_cons.mp hb with rfl | hb
      · exact UInt8.not_lt.mp ha
      · have ht := hf.1.2 b hb
        simp only [isTail, decide_eq_true_eq] at ht
        exact ht.1

-- ---------------------------------------------------------------------------
-- Boundaries
-- ---------------------------------------------------------------------------

theorem wellFormed_first (h : s ≠ []) :
    wellFormed (s.take (runeWidth s)) = true ↔ runeLen s ≠ 0 := by
  have hlen : (s.take (runeWidth s)).length = runeWidth s := List.length_take_of_le (runeWidth_le h)
  have hrune : runeLen (s.take (runeWidth s)) = runeLen s := runeLen_take (Nat.le_max_right 1 _)
  rw [wellFormed, beq_iff_eq, hlen, hrune, runeWidth]
  omega

theorem validString_step (h : s ≠ []) :
    validString s = true ↔ runeLen s ≠ 0 ∧ validString (s.drop (runeWidth s)) = true := by
  rw [validString, chunks_step h, List.all_cons, Bool.and_eq_true,
    wellFormed_first h, ← validString]

theorem validString_first (h : s ≠ []) (hrune : runeLen s ≠ 0) :
    validString (s.take (runeWidth s)) = true := by
  have hone := chunks_flatten_take s 1
  rw [chunks_step h, List.take_succ_cons, List.take_zero, List.flatten_singleton] at hone
  rw [validString, hone, List.all_cons, List.all_nil, Bool.and_true, wellFormed_first h]
  exact hrune

theorem chunks_append (h : validString s = true) (t : GoString) :
    chunks (s ++ t) = chunks s ++ chunks t := by
  induction s using chunks_induction with
  | nil => rfl
  | step s hs ih =>
    obtain ⟨hrune, hrest⟩ := (validString_step hs).mp h
    have hwidth : runeWidth (s ++ t) = runeWidth s := by
      rw [runeWidth, runeLen_append hrune, ← runeWidth]
    have hle := runeWidth_le hs
    rw [chunks_step (List.append_ne_nil_of_left_ne_nil hs t), hwidth,
      List.take_append_of_le_length hle,
      List.drop_append_of_le_length hle, ih hrest, chunks_step hs, List.cons_append]

theorem validString_append (h : validString s = true) (t : GoString) :
    validString (s ++ t) = validString t := by
  rw [validString, chunks_append h, List.all_append, ← validString, h, Bool.true_and, ← validString]

theorem validString_of_ascii (h : ∀ b ∈ s, b < 0x80) : validString s = true := by
  induction s using chunks_induction with
  | nil => rfl
  | step s hs ih =>
    cases s with
    | nil => exact absurd rfl hs
    | cons b s =>
      have hlead : leadLen b = 1 := if_pos (h b List.mem_cons_self)
      have hlen : runeLen (b :: s) = 1 := by simp [runeLen, hlead, followsLead]
      have hrest := ih fun x hx => h x (List.mem_of_mem_drop hx)
      exact (validString_step hs).mpr ⟨by omega, hrest⟩

theorem isTail_of_leadLen (lead : UInt8) : leadLen lead ≠ 0 → isTail lead = false := by
  revert lead
  exact forall_byte (by decide +kernel)

/-- UTF-8 synchronises itself: a well-formed sequence starts with a byte that
is no tail, -/
theorem lead_of_runeLen (h : runeLen (lead :: rest) ≠ 0) : isTail lead = false := by
  have hlen := runeLen_cons_of_follows (follows_of_runeLen h)
  exact isTail_of_leadLen lead (hlen ▸ h)

theorem tail_of_runeLen {s : GoString} (h : runeLen s ≠ 0) (hpos : 0 < i) (hi : i < runeWidth s)
    (hb : s[i]? = some b) : isTail b = true := by
  cases s with
  | nil => cases hb
  | cons lead rest =>
    obtain ⟨j, rfl⟩ : ∃ j, i = j + 1 := ⟨i - 1, by omega⟩
    have hf := follows_of_runeLen h
    rw [runeWidth, runeLen_cons_of_follows hf] at hi
    rw [List.getElem?_cons_succ] at hb
    have hmem : b ∈ rest.take (leadLen lead - 1) := by
      refine List.mem_of_getElem? (i := j) ?_
      rw [List.getElem?_take_of_lt (by omega), hb]
    simp only [followsLead, Bool.and_eq_true, List.all_eq_true] at hf
    exact hf.1.2 b hmem

/-- A place between two runes of the string, or one of its ends. -/
def RuneBoundary (s : GoString) (i : Nat) : Prop := ∃ k, ((chunks s).take k).flatten.length = i

theorem runeBoundary_zero (s : GoString) : RuneBoundary s 0 := ⟨0, rfl⟩

theorem runeBoundary_step (hs : s ≠ []) (h : RuneBoundary (s.drop (runeWidth s)) i) :
    RuneBoundary s (runeWidth s + i) := by
  obtain ⟨k, hk⟩ := h
  refine ⟨k + 1, ?_⟩
  rw [chunks_step hs, List.take_succ_cons, List.flatten_cons, List.length_append, hk,
    List.length_take_of_le (runeWidth_le hs)]

theorem runeBoundary_of_lead (hvalid : validString s = true) (hb : s[i]? = some b)
    (hlead : isTail b = false) :
    RuneBoundary s i := by
  induction s using chunks_induction generalizing i with
  | nil => cases hb
  | step s hs ih =>
    obtain ⟨hrune, hrest⟩ := (validString_step hs).mp hvalid
    rcases Nat.eq_zero_or_pos i with rfl | hpos
    · exact runeBoundary_zero s
    · rcases Nat.lt_or_ge i (runeWidth s) with hinside | hbehind
      · exact absurd (tail_of_runeLen hrune hpos hinside hb) (Bool.eq_false_iff.mp hlead)
      · obtain ⟨j, rfl⟩ := Nat.exists_eq_add_of_le hbehind
        refine runeBoundary_step hs (ih hrest ?_)
        rwa [List.getElem?_drop]

theorem RuneBoundary.add (h : RuneBoundary s i) (hvalid : validString part = true)
    (hpart : part <+: s.drop i) :
    RuneBoundary s (i + part.length) := by
  obtain ⟨k, rfl⟩ := h
  obtain ⟨rest, hrest⟩ := hpart
  -- behind the boundary the string is cut as before
  have hcut : ((chunks s).take k).flatten ++ ((chunks s).drop k).flatten = s := by
    rw [← List.flatten_append, List.take_append_drop, flatten_chunks]
  have hdrop := congrArg (List.drop ((chunks s).take k).flatten.length) hcut
  rw [List.drop_left, ← hrest] at hdrop
  have hchunks := chunks_flatten_drop s k
  rw [hdrop, chunks_append hvalid] at hchunks
  refine ⟨k + (chunks part).length, ?_⟩
  rw [List.take_add, ← hchunks, List.take_left, List.flatten_append,
    List.length_append, flatten_chunks]

-- ---------------------------------------------------------------------------
-- Trimming
-- ---------------------------------------------------------------------------

theorem chunks_trimSpace (s : GoString) :
    chunks (trimSpace s) = ((chunks s).dropWhile spaceChunk).rdropWhile spaceChunk := by
  obtain ⟨k, hk⟩ : ∃ k, (chunks s).dropWhile spaceChunk = (chunks s).drop k :=
    ⟨_, List.suffix_iff_eq_drop.mp (List.dropWhile_suffix spaceChunk)⟩
  obtain ⟨m, hm⟩ : ∃ m, ((chunks s).drop k).rdropWhile spaceChunk = ((chunks s).drop k).take m :=
    ⟨_, List.prefix_iff_eq_take.mp (List.rdropWhile_prefix spaceChunk _)⟩
  rw [trimSpace, hk, hm, ← chunks_flatten_drop s k, chunks_flatten_take]

theorem trimSpace_trimSpace (s : GoString) : trimSpace (trimSpace s) = trimSpace s := by
  have hd (l : List GoString) : (l.rdropWhile spaceChunk).rdropWhile spaceChunk =
      l.rdropWhile spaceChunk := List.rdropWhile_idempotent ..
  have hc := chunks_trimSpace s
  -- the first chunk kept by the left trim is not a space, and the right trim keeps a start
  have hfirst : ∀ l : List GoString, ((l.dropWhile spaceChunk).rdropWhile spaceChunk).dropWhile
      spaceChunk = (l.dropWhile spaceChunk).rdropWhile spaceChunk := by
    intro l
    obtain ⟨rest, hrest⟩ := List.rdropWhile_prefix spaceChunk (l.dropWhile spaceChunk)
    cases hk : (l.dropWhile spaceChunk).rdropWhile spaceChunk with
    | nil => rfl
    | cons c cs =>
      rw [hk] at hrest
      have hne : l.dropWhile spaceChunk ≠ [] := by simp [← hrest]
      have hnot := List.head_dropWhile_not spaceChunk hne
      have hhead : (l.dropWhile spaceChunk).head hne = c := by simp [← hrest]
      rw [hhead] at hnot
      simp [hnot]
  rw [trimSpace, hc, hfirst, hd, ← hc, flatten_chunks]

end GoClean.Go
