import GoClean.Go.Utf8

/-!
# JSON text of a struct of strings

`json.Marshal` of a struct with two string fields. Strings are written with
Go's escapes: quote, backslash, control characters, the three characters
that HTML gives a meaning, and the two Unicode line separators; an
ill-formed byte becomes U+FFFD. On valid UTF-8 the text determines both
fields (`marshalPair_injective`).
-/

namespace GoClean.Go.Json

def htmlSafe (b : UInt8) : Bool :=
  decide (0x20 ≤ b) && b != 0x22 && b != 0x26 && b != 0x3c && b != 0x3e && b != 0x5c

def escapeByte (b : UInt8) : GoString :=
  if htmlSafe b then [b]
  else if b = 0x22 ∨ b = 0x5c then [0x5c, b]
  else if b = 0x08 then str "\\b"
  else if b = 0x0c then str "\\f"
  else if b = 0x0a then str "\\n"
  else if b = 0x0d then str "\\r"
  else if b = 0x09 then str "\\t"
  else str "\\u00" ++ Hex.encodeByte b

def lineSeparator : GoString := [0xe2, 0x80, 0xa8]
def paragraphSeparator : GoString := [0xe2, 0x80, 0xa9]

/-- One rune of the string: an ASCII byte, an ill-formed byte, U+2028 or
U+2029, or any other rune, which is copied. -/
def escapeChunk (chunk : GoString) : GoString :=
  match chunk with
  | [b] => if b < 0x80 then escapeByte b else str "\\ufffd"
  | _ =>
    if chunk = lineSeparator then str "\\u2028"
    else if chunk = paragraphSeparator then str "\\u2029"
    else chunk

def escape (s : GoString) : GoString := (chunks s).flatMap escapeChunk

def quote (s : GoString) : GoString := 0x22 :: (escape s ++ [0x22])

def marshalPair (firstKey secondKey first second : GoString) : GoString :=
  str "\x7b\"" ++ firstKey ++ str "\":" ++ (quote first ++
    (str ",\"" ++ secondKey ++ str "\":" ++ (quote second ++ str "\x7d")))

-- ---------------------------------------------------------------------------
-- Reading a string back
-- ---------------------------------------------------------------------------

/-- The four digits after `\u`, for the code points the escapes use. -/
private def unescapeDigits : UInt8 → UInt8 → UInt8 → UInt8 → Option GoString
  | 0x30, 0x30, c, d => Hex.decode [c, d]
  | 0x32, 0x30, 0x32, 0x38 => some lineSeparator
  | 0x32, 0x30, 0x32, 0x39 => some paragraphSeparator
  | _, _, _, _ => none

private def unescapeShort (b : UInt8) : UInt8 :=
  if b = 0x62 then 0x08
  else if b = 0x66 then 0x0c
  else if b = 0x6e then 0x0a
  else if b = 0x72 then 0x0d
  else if b = 0x74 then 0x09
  else b

private def unquote : GoString → Option (GoString × GoString)
  | [] => none
  | 0x5c :: 0x75 :: a :: b :: c :: d :: rest =>
    (unescapeDigits a b c d).bind fun bytes => (unquote rest).map fun p => (bytes ++ p.1, p.2)
  | 0x5c :: b :: rest => (unquote rest).map fun p => (unescapeShort b :: p.1, p.2)
  | b :: rest => if b = 0x22 then some ([], rest) else (unquote rest).map fun p => (b :: p.1, p.2)

private theorem unquote_plain (hq : b ≠ 0x22) (hb : b ≠ 0x5c) (rest : GoString) :
    unquote (b :: rest) = (unquote rest).map fun p => (b :: p.1, p.2) := by
  rw [unquote]
  · rw [if_neg hq]
  · intro _ _ _ _ _ h
    exact absurd h hb
  · intro _ _ h
    exact absurd h hb

private theorem unquote_short (hu : b ≠ 0x75) (rest : GoString) :
    unquote (0x5c :: b :: rest) = (unquote rest).map fun p => (unescapeShort b :: p.1, p.2) := by
  rw [unquote]
  intro _ _ _ _ _ h
  exact absurd h hu

private theorem unquote_high (bytes : GoString) (h : ∀ b ∈ bytes, 0x80 ≤ b) (rest : GoString) :
    unquote (bytes ++ rest) = (unquote rest).map fun p => (bytes ++ p.1, p.2) := by
  induction bytes with
  | nil =>
    rw [List.nil_append]
    cases unquote rest <;> rfl
  | cons b bytes ih =>
    have hb := h b (by simp)
    have hq : b ≠ 0x22 := by rintro rfl; exact absurd hb (by decide)
    have hs : b ≠ 0x5c := by rintro rfl; exact absurd hb (by decide)
    rw [List.cons_append, unquote_plain hq hs, ih fun x hx => h x (List.mem_cons_of_mem _ hx)]
    cases unquote rest <;> rfl

private theorem unquote_escapeByte (hb : b < 0x80) (rest : GoString) :
    unquote (escapeByte b ++ rest) = (unquote rest).map fun p => (b :: p.1, p.2) := by
  unfold escapeByte
  split
  · next hsafe =>
    have hq : b ≠ 0x22 := by rintro rfl; exact absurd hsafe (by decide)
    have hs : b ≠ 0x5c := by rintro rfl; exact absurd hsafe (by decide)
    exact unquote_plain hq hs rest
  split
  · next h => rcases h with rfl | rfl <;> exact unquote_short (by decide) rest
  split
  · next h => subst h; exact unquote_short (by decide) rest
  split
  · next h => subst h; exact unquote_short (by decide) rest
  split
  · next h => subst h; exact unquote_short (by decide) rest
  split
  · next h => subst h; exact unquote_short (by decide) rest
  split
  · next h => subst h; exact unquote_short (by decide) rest
  · have hdec : Hex.decode (Hex.encodeByte b) = some [b] := by
      simpa [Hex.decode] using Hex.decode_encodeByte b []
    show unquote (0x5c :: 0x75 :: 0x30 :: 0x30 :: Hex.digit (b.toNat / 16) ::
      Hex.digit (b.toNat % 16) :: rest) = _
    rw [unquote]
    show (Hex.decode (Hex.encodeByte b)).bind _ = _
    rw [hdec]
    rfl

private theorem unquote_escapeChunk (h : wellFormed c = true) (rest : GoString) :
    unquote (escapeChunk c ++ rest) = (unquote rest).map fun p => (c ++ p.1, p.2) := by
  rcases wellFormed_cases h with ⟨b, rfl, hb⟩ | ⟨hmany, hhigh⟩
  · simp only [escapeChunk, hb, if_true]
    exact unquote_escapeByte hb rest
  · unfold escapeChunk
    split
    · exact absurd rfl hmany
    split
    · next hl => subst hl; rfl
    split
    · next hp => subst hp; rfl
    · exact unquote_high c hhigh rest

/-- Reading back a quoted string of valid UTF-8 gives the string and the
text after it. -/
private theorem unquote_escape (h : validString s = true) (rest : GoString) :
    unquote (escape s ++ 0x22 :: rest) = some (s, rest) := by
  have hall : ∀ cs : List GoString, (∀ c ∈ cs, wellFormed c = true) →
      unquote (cs.flatMap escapeChunk ++ 0x22 :: rest) = some (cs.flatten, rest) := by
    intro cs
    induction cs with
    | nil => intro _; rfl
    | cons c cs ih =>
      intro hc
      rw [List.flatMap_cons, List.append_assoc, unquote_escapeChunk (hc c (by simp)),
        ih fun x hx => hc x (List.mem_cons_of_mem _ hx)]
      rfl
  have hs := hall (chunks s) (by simpa [validString] using h)
  rwa [flatten_chunks] at hs

/-- A quoted string of valid UTF-8 and the text after it are determined by
the whole. -/
theorem quote_append_injective (hs : validString s = true) (ht : validString t = true)
    (h : quote s ++ a = quote t ++ b) : s = t ∧ a = b := by
  simp only [quote, List.cons_append, List.append_assoc, List.nil_append, List.cons.injEq,
    true_and] at h
  have hu := congrArg unquote h
  rw [unquote_escape hs, unquote_escape ht] at hu
  simpa using hu

theorem marshalPair_injective (ha : validString a = true) (ha' : validString a' = true)
    (hb : validString b = true) (hb' : validString b' = true)
    (h : marshalPair firstKey secondKey a b = marshalPair firstKey secondKey a' b') :
    a = a' ∧ b = b' := by
  unfold marshalPair at h
  obtain ⟨hfirst, htail⟩ := quote_append_injective ha ha' (List.append_cancel_left h)
  exact ⟨hfirst, (quote_append_injective hb hb' (List.append_cancel_left htail)).1⟩

end GoClean.Go.Json
