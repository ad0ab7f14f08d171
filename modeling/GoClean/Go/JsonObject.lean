import GoClean.Go.JsonDecodeLaws

/-!
# Objects of strings

The texts of JSON objects whose members are strings or null, as a grammar
apart from the parser, and that the parser reads exactly these texts as such
objects (`readValue_object_iff`).
-/

namespace GoClean.Go.Json

def Blanks (s : GoString) : Prop := ∀ b ∈ s, isBlank b = true

theorem Blanks.nil : Blanks [] := fun _ h => absurd h List.not_mem_nil

theorem skipBlanks_append (h : Blanks blanks) (s : GoString) :
    skipBlanks (blanks ++ s) = skipBlanks s :=
  List.dropWhile_append_of_pos h

theorem skipBlanks_cons (h : isBlank b = false) (s : GoString) : skipBlanks (b :: s) = b :: s :=
  List.dropWhile_cons_of_neg (by simp [h])

theorem exists_blanks (s : GoString) : ∃ blanks, Blanks blanks ∧ s = blanks ++ skipBlanks s :=
  ⟨s.takeWhile isBlank, fun _ hb => List.mem_takeWhile_imp hb, List.takeWhile_append_dropWhile.symm⟩

theorem skipBlanks_eq_cons_iff (h : isBlank b = false) :
    skipBlanks s = b :: rest ↔ ∃ blanks, Blanks blanks ∧ s = blanks ++ b :: rest := by
  constructor
  · intro hs
    obtain ⟨blanks, hblanks, heq⟩ := exists_blanks s
    exact ⟨blanks, hblanks, hs ▸ heq⟩
  · rintro ⟨blanks, hblanks, rfl⟩
    rw [skipBlanks_append hblanks, skipBlanks_cons h]

theorem skipBlanks_eq_nil_iff : skipBlanks s = [] ↔ Blanks s := List.dropWhile_eq_nil_iff

-- ---------------------------------------------------------------------------
-- Strings and null
-- ---------------------------------------------------------------------------

def quoted (body : GoString) : GoString := 0x22 :: (body ++ [0x22])

def scalar : Option GoString → JsonValue
  | none => .null
  | some body => .string body

def scalarText : Option GoString → GoString
  | none => str "null"
  | some body => quoted body

def ScalarLiteral (value : Option GoString) : Prop := ∀ body ∈ value, Literal body

theorem quoted_append (body rest : GoString) :
    quoted body ++ rest = 0x22 :: (body ++ 0x22 :: rest) := by
  simp [quoted]

theorem scalarText_head (value : Option GoString) :
    ∃ b tail, scalarText value = b :: tail ∧ isBlank b = false := by
  cases value with
  | none => exact ⟨0x6e, str "ull", by decide, by decide⟩
  | some body => exact ⟨0x22, body ++ [0x22], rfl, by decide⟩

theorem parseLiteral_null (rest : GoString) :
    parseLiteral (str "null" ++ rest) = some (.null, rest) := by
  have hafter : after (str "null") (str "null" ++ rest) = some rest := by
    rw [after, if_pos (hasPrefix_iff.mpr ⟨rest, rfl⟩), List.drop_left]
  rw [parseLiteral, hafter]

theorem after_eq_some (h : after start s = some rest) : s = start ++ rest := by
  unfold after at h
  split_ifs at h with hstart
  obtain ⟨tail, rfl⟩ := hasPrefix_iff.mp hstart
  cases h
  rw [List.drop_left]

theorem parseLiteral_eq_scalar (h : parseLiteral s = some (scalar value, rest)) :
    value = none ∧ s = str "null" ++ rest := by
  unfold parseLiteral at h
  split at h
  case h_1 hnull =>
    cases value <;> cases h
    exact ⟨rfl, after_eq_some hnull⟩
  case h_2 | h_3 => cases value <;> cases h
  case h_4 =>
    obtain ⟨p, -, hp⟩ := Option.map_eq_some_iff.mp h
    cases value <;> cases hp

theorem parseValue_scalar_iff :
    parseValue (n + 1) depth s = some (scalar value, rest) ↔
      ScalarLiteral value ∧ ∃ blanks, Blanks blanks ∧ s = blanks ++ (scalarText value ++ rest) := by
  constructor
  · intro h
    obtain ⟨blanks, hblanks, hs⟩ := exists_blanks s
    unfold parseValue at h
    split at h
    case h_1 =>
      split_ifs at h
      split at h
      · cases value <;> cases h
      · obtain ⟨p, -, hp⟩ := Option.map_eq_some_iff.mp h
        cases value <;> cases hp
    case h_2 =>
      split_ifs at h
      split at h
      · cases value <;> cases h
      · obtain ⟨p, -, hp⟩ := Option.map_eq_some_iff.mp h
        cases value <;> cases hp
    case h_3 tail htail =>
      obtain ⟨⟨body, tail'⟩, hbody, hp⟩ := Option.map_eq_some_iff.mp h
      obtain ⟨hliteral, rfl⟩ := literal_of_takeBody hbody
      cases value with
      | none => cases hp
      | some _ =>
        cases hp
        refine ⟨fun _ hmem => Option.some.inj hmem ▸ hliteral, blanks, hblanks, ?_⟩
        rw [scalarText, quoted_append, ← htail]
        exact hs
    case h_4 =>
      obtain ⟨rfl, hnull⟩ := parseLiteral_eq_scalar h
      exact ⟨fun _ hmem => (nomatch hmem), blanks, hblanks, hnull ▸ hs⟩
  · rintro ⟨hliteral, blanks, hblanks, rfl⟩
    obtain ⟨b, tail, htext, hb⟩ := scalarText_head value
    have hskip : skipBlanks (blanks ++ (scalarText value ++ rest)) = scalarText value ++ rest := by
      rw [skipBlanks_append hblanks, htext, List.cons_append, skipBlanks_cons hb]
    rw [parseValue, hskip]
    cases value with
    | none => exact parseLiteral_null rest
    | some body =>
      rw [scalarText, quoted_append]
      simp only [takeBody_of_literal (hliteral body rfl), Option.map_some, scalar]

-- ---------------------------------------------------------------------------
-- Members
-- ---------------------------------------------------------------------------

abbrev Member := GoString × Option GoString

def Member.parsed (m : Member) : GoString × JsonValue := (m.1, scalar m.2)

inductive MemberText (m : Member) : GoString → Prop
  | mk {b₁ b₂ b₃ b₄ : GoString} :
      Literal m.1 → ScalarLiteral m.2 → Blanks b₁ → Blanks b₂ → Blanks b₃ → Blanks b₄ →
      MemberText m (b₁ ++ (quoted m.1 ++ (b₂ ++ 0x3a :: (b₃ ++ (scalarText m.2 ++ b₄)))))

theorem MemberText.plain {m : Member} (hkey : Literal m.1) (hvalue : ScalarLiteral m.2) :
    MemberText m (quoted m.1 ++ 0x3a :: scalarText m.2) := by
  simpa using MemberText.mk hkey hvalue Blanks.nil Blanks.nil Blanks.nil Blanks.nil

inductive MembersText : List Member → GoString → Prop
  | last {m : Member} : MemberText m text → MembersText [m] text
  | cons {m : Member} :
      MemberText m text → MembersText ms rest → MembersText (m :: ms) (text ++ 0x2c :: rest)

inductive ObjectText : List Member → GoString → Prop
  | empty {b₁ b₂ : GoString} : Blanks b₁ → Blanks b₂ → ObjectText [] (b₁ ++ 0x7b :: (b₂ ++ [0x7d]))
  | members {b₁ : GoString} :
      Blanks b₁ → MembersText ms text → ObjectText ms (b₁ ++ 0x7b :: (text ++ [0x7d]))

/-- One round of `parseMembers`: the key and the value of a member, and the
text from the comma or the brace on. -/
def ReadsMember (n depth : Nat) (m : Member) (s rest : GoString) : Prop :=
  ∃ key afterKey afterColon afterValue, skipBlanks s = 0x22 :: key ∧
    takeBody key = some (m.1, afterKey) ∧
    skipBlanks afterKey = 0x3a :: afterColon ∧ parseValue n depth afterColon =
      some (scalar m.2, afterValue) ∧
    skipBlanks afterValue = rest

theorem readsMember_iff {m : Member} (hb : isBlank b = false) :
    ReadsMember (n + 1) depth m s (b :: rest) ↔ ∃ text, MemberText m text ∧
    s = text ++ b :: rest := by
  constructor
  · rintro ⟨key, afterKey, afterColon, afterValue, hquote, hkey, hcolon, hvalue, hend⟩
    obtain ⟨b₁, hb₁, rfl⟩ := (skipBlanks_eq_cons_iff (by decide)).mp hquote
    obtain ⟨hliteral, rfl⟩ := literal_of_takeBody hkey
    obtain ⟨b₂, hb₂, rfl⟩ := (skipBlanks_eq_cons_iff (by decide)).mp hcolon
    obtain ⟨hscalar, b₃, hb₃, rfl⟩ := parseValue_scalar_iff.mp hvalue
    obtain ⟨b₄, hb₄, rfl⟩ := (skipBlanks_eq_cons_iff hb).mp hend
    refine ⟨_, .mk hliteral hscalar hb₁ hb₂ hb₃ hb₄, ?_⟩
    simp only [quoted, List.append_assoc, List.cons_append, List.nil_append]
  · rintro ⟨_, ⟨hliteral, hscalar, hb₁, hb₂, hb₃, hb₄⟩, rfl⟩
    refine ⟨_, _, _, _, (skipBlanks_eq_cons_iff (by decide)).mpr ⟨_, hb₁, ?_⟩,
      takeBody_of_literal hliteral _, (skipBlanks_eq_cons_iff (by decide)).mpr ⟨_, hb₂, rfl⟩,
      parseValue_scalar_iff.mpr ⟨hscalar, _, hb₃, rfl⟩,
      (skipBlanks_eq_cons_iff hb).mpr ⟨_, hb₄, rfl⟩⟩
    simp only [quoted, List.append_assoc, List.cons_append, List.nil_append]

theorem parseMembers_comma {m : Member} (h : ReadsMember n depth m s (0x2c :: rest)) :
    parseMembers (n + 1) depth s = (parseMembers n depth rest).map fun p =>
    (m.parsed :: p.1, p.2) := by
  obtain ⟨key, afterKey, afterColon, afterValue, hquote, hkey, hcolon, hvalue, hend⟩ := h
  simp only [parseMembers, hquote, hkey, hcolon, hvalue, hend, Option.bind_eq_bind,
    Option.bind_some, Member.parsed]

theorem parseMembers_brace {m : Member} (h : ReadsMember n depth m s (0x7d :: rest)) :
    parseMembers (n + 1) depth s = some ([m.parsed], rest) := by
  obtain ⟨key, afterKey, afterColon, afterValue, hquote, hkey, hcolon, hvalue, hend⟩ := h
  simp only [parseMembers, hquote, hkey, hcolon, hvalue, hend, Option.bind_eq_bind,
    Option.bind_some, Member.parsed]

theorem parseMembers_cases (h : parseMembers (n + 1) depth s = some (parsed, rest)) :
    ∃ key value, ∃ afterKey afterColon afterValue inner, skipBlanks s = 0x22 :: inner ∧
      takeBody inner = some (key, afterKey) ∧ skipBlanks afterKey = 0x3a :: afterColon ∧
      parseValue n depth afterColon = some (value, afterValue) ∧
      ((∃ tail parsed', skipBlanks afterValue = 0x2c :: tail ∧
        parseMembers n depth tail = some (parsed', rest) ∧
          parsed = (key, value) :: parsed') ∨
        skipBlanks afterValue = 0x7d :: rest ∧ parsed = [(key, value)]) := by
  rw [parseMembers] at h
  split at h
  case h_2 => cases h
  case h_1 inner hquote =>
    obtain ⟨⟨key, afterKey⟩, hkey, h⟩ := Option.bind_eq_some_iff.mp h
    dsimp only at h
    split at h
    case h_2 => cases h
    case h_1 afterColon hcolon =>
      obtain ⟨⟨value, afterValue⟩, hvalue, h⟩ := Option.bind_eq_some_iff.mp h
      refine ⟨key, value, afterKey, afterColon, afterValue, inner, hquote, hkey, hcolon, hvalue, ?_⟩
      dsimp only at h
      split at h
      case h_1 tail hend =>
        obtain ⟨⟨parsed', rest'⟩, hrest, hp⟩ := Option.map_eq_some_iff.mp h
        cases hp
        exact .inl ⟨tail, parsed', hend, hrest, rfl⟩
      case h_2 tail hend =>
        cases h
        exact .inr ⟨hend, rfl⟩
      case h_3 => cases h

theorem parseMembers_sound {ms : List Member}
    (h : parseMembers n depth s = some (ms.map Member.parsed, rest)) :
    ∃ text, MembersText ms text ∧ s = text ++ 0x7d :: rest := by
  induction n generalizing s ms with
  | zero => cases h
  | succ n ih =>
    obtain ⟨key, value, afterKey, afterColon, afterValue, inner, hquote, hkey,
      hcolon, hvalue, hend⟩ :=
      parseMembers_cases h
    -- no value is read without fuel
    obtain _ | n := n
    · cases hvalue
    rcases hend with ⟨tail, parsed', hcomma, hrest, hms⟩ | ⟨hbrace, hms⟩
    · obtain ⟨m, ms, rfl, hm, rfl⟩ := List.map_eq_cons_iff.mp hms
      cases hm
      obtain ⟨text, htext, rfl⟩ :=
        (readsMember_iff (by decide)).mp ⟨inner, afterKey, afterColon, afterValue, hquote, hkey,
          hcolon, hvalue, hcomma⟩
      obtain ⟨text', htext', rfl⟩ := ih hrest
      exact ⟨text ++ 0x2c :: text', .cons htext htext', by simp⟩
    · obtain ⟨m, ms, rfl, hm, hnil⟩ := List.map_eq_cons_iff.mp hms
      cases hm
      cases List.map_eq_nil_iff.mp hnil
      obtain ⟨text, htext, rfl⟩ :=
        (readsMember_iff (by decide)).mp ⟨inner, afterKey, afterColon, afterValue, hquote, hkey,
          hcolon, hvalue, hbrace⟩
      exact ⟨text, .last htext, rfl⟩

theorem parseMembers_complete (h : MembersText ms text) (hn : ms.length < n) (depth : Nat)
    (rest : GoString) :
    parseMembers n depth (text ++ 0x7d :: rest) = some (ms.map Member.parsed, rest) := by
  induction h generalizing n with
  | last hm =>
    obtain ⟨n, rfl⟩ := Nat.exists_eq_add_of_lt hn
    rw [List.length_singleton, show 1 + n + 1 = n + 1 + 1 by omega,
      parseMembers_brace ((readsMember_iff (by decide)).mpr ⟨_, hm, rfl⟩)]
    rfl
  | @cons text ms tail m hm hms ih =>
    obtain ⟨n, rfl⟩ := Nat.exists_eq_add_of_lt hn
    rw [List.length_cons, List.append_assoc, List.cons_append, show ms.length + 1 + n + 1 =
      ms.length + n + 1 + 1 by omega,
      parseMembers_comma ((readsMember_iff (by decide)).mpr ⟨_, hm, rfl⟩),
      ih (by omega), Option.map_some]
    rfl

-- ---------------------------------------------------------------------------
-- Objects
-- ---------------------------------------------------------------------------

theorem parseMembers_skipBlanks : parseMembers n depth (skipBlanks s) = parseMembers n depth s := by
  cases n with
  | zero => rfl
  | succ n => rw [parseMembers, parseMembers, skipBlanks, skipBlanks, List.dropWhile_idempotent]

theorem parseLiteral_ne_object : parseLiteral s ≠ some (.object parsed, rest) := by
  intro h
  unfold parseLiteral at h
  split at h
  case h_1 | h_2 | h_3 => cases h
  case h_4 =>
    obtain ⟨p, -, hp⟩ := Option.map_eq_some_iff.mp h
    cases hp

theorem MembersText.head (h : MembersText ms text) :
    ∃ blanks tail, Blanks blanks ∧ text = blanks ++ 0x22 :: tail := by
  cases h with
  | last hm =>
    obtain ⟨-, -, hb, -, -, -⟩ := hm
    exact ⟨_, _, hb, rfl⟩
  | cons hm _ =>
    obtain ⟨-, -, hb, -, -, -⟩ := hm
    exact ⟨_, _, hb, List.append_assoc ..⟩

theorem MembersText.length_lt (h : MembersText ms text) : ms.length < text.length := by
  induction h with
  | last hm =>
    obtain ⟨-, -, -, -, -, -⟩ := hm
    simp only [quoted, List.length_append, List.length_cons, List.length_nil]
    omega
  | cons hm _ ih =>
    simp only [List.length_append, List.length_cons]
    omega

theorem ObjectText.literals (h : ObjectText ms text) :
    ∀ m ∈ ms, Literal m.1 ∧ ScalarLiteral m.2 := by
  cases h with
  | empty => exact fun _ hm => absurd hm List.not_mem_nil
  | members _ hmembers =>
    clear * - hmembers
    induction hmembers with
    | last hm =>
      obtain ⟨hkey, hvalue, -, -, -, -⟩ := hm
      exact List.forall_mem_singleton.mpr ⟨hkey, hvalue⟩
    | cons hm _ ih =>
      obtain ⟨hkey, hvalue, -, -, -, -⟩ := hm
      exact List.forall_mem_cons.mpr ⟨⟨hkey, hvalue⟩, ih⟩

theorem readValue_blanks (h : Blanks s) : readValue s = none := by
  rw [readValue, parseValue, skipBlanks_eq_nil_iff.mpr h]
  rfl

/-- The next value is an object of strings and nulls exactly where the text of
one stands. -/
theorem readValue_object_iff {ms : List Member} :
    readValue s = some (.object (ms.map Member.parsed), rest) ↔ ∃ text, ObjectText ms text ∧
    s = text ++ rest := by
  constructor
  · intro h
    rw [readValue, parseValue] at h
    split at h
    case h_1 inner hbrace =>
      obtain ⟨b₁, hb₁, rfl⟩ := (skipBlanks_eq_cons_iff (by decide)).mp hbrace
      rw [if_neg (by decide)] at h
      split at h
      case h_1 tail hend =>
        obtain ⟨b₂, hb₂, rfl⟩ := (skipBlanks_eq_cons_iff (by decide)).mp hend
        obtain ⟨hms, rfl⟩ : ms.map Member.parsed = [] ∧ tail = rest := by simpa [eq_comm] using h
        cases List.map_eq_nil_iff.mp hms
        exact ⟨_, .empty hb₁ hb₂, by simp⟩
      case h_2 =>
        obtain ⟨⟨parsed, tail⟩, hmembers, hp⟩ := Option.map_eq_some_iff.mp h
        obtain ⟨rfl, rfl⟩ : parsed = ms.map Member.parsed ∧ tail = rest := by simpa using hp
        rw [parseMembers_skipBlanks] at hmembers
        obtain ⟨text, htext, rfl⟩ := parseMembers_sound hmembers
        exact ⟨_, .members hb₁ htext, by simp⟩
    case h_2 =>
      rw [if_neg (by decide)] at h
      split at h
      · cases h
      · obtain ⟨p, -, hp⟩ := Option.map_eq_some_iff.mp h
        cases hp
    case h_3 =>
      obtain ⟨p, -, hp⟩ := Option.map_eq_some_iff.mp h
      cases hp
    case h_4 => exact absurd h parseLiteral_ne_object
  · rintro ⟨text, htext, rfl⟩
    cases htext with
    | @empty b₁ b₂ hb₁ hb₂ =>
      have hbrace : skipBlanks (b₁ ++ 0x7b :: (b₂ ++ [0x7d]) ++ rest) =
          0x7b :: (b₂ ++ 0x7d :: rest) :=
        (skipBlanks_eq_cons_iff (by decide)).mpr ⟨b₁, hb₁, by simp⟩
      have hend : skipBlanks (b₂ ++ 0x7d :: rest) = 0x7d :: rest :=
        (skipBlanks_eq_cons_iff (by decide)).mpr ⟨b₂, hb₂, rfl⟩
      simp only [readValue, parseValue, hbrace, hend]
      rfl
    | @members ms text b₁ hb₁ hmembers =>
      have hbrace : skipBlanks (b₁ ++ 0x7b :: (text ++ [0x7d]) ++ rest) =
          0x7b :: (text ++ 0x7d :: rest) :=
        (skipBlanks_eq_cons_iff (by decide)).mpr ⟨b₁, hb₁, by simp⟩
      obtain ⟨b₂, tail, hb₂, htext⟩ := hmembers.head
      have hquote : skipBlanks (text ++ 0x7d :: rest) = 0x22 :: (tail ++ 0x7d :: rest) :=
        (skipBlanks_eq_cons_iff (by decide)).mpr ⟨b₂, hb₂,
          by rw [htext, List.append_assoc, List.cons_append]⟩
      have hfuel : ms.length < (b₁ ++ 0x7b :: (text ++ [0x7d]) ++ rest).length := by
        have := hmembers.length_lt
        simp only [List.length_append, List.length_cons]
        omega
      have hparse := parseMembers_complete hmembers hfuel (maxNestingDepth - 1) rest
      rw [← parseMembers_skipBlanks, hquote] at hparse
      simp only [readValue, parseValue, hbrace, hquote]
      rw [if_neg (by decide)]
      exact congrArg (Option.map fun p => (JsonValue.object p.1, p.2)) hparse

end GoClean.Go.Json
