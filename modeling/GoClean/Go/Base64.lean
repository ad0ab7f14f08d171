import GoClean.Go.Text

/-!
# Unpadded base64url

`base64.RawURLEncoding`. The encoder writes one spelling; the decoder also
reads text with carriage returns and line feeds anywhere and does not look
at the unused low bits of a final short group.
-/

namespace GoClean.Go.Base64

def encodeDigits : List UInt8 → List Nat
  | a :: b :: c :: rest =>
    let value := a.toNat * 65536 + b.toNat * 256 + c.toNat
    value / 262144 :: value / 4096 % 64 :: value / 64 % 64 :: value % 64 :: encodeDigits rest
  | [a, b] =>
    let value := a.toNat * 65536 + b.toNat * 256
    [value / 262144, value / 4096 % 64, value / 64 % 64]
  | [a] =>
    let value := a.toNat * 65536
    [value / 262144, value / 4096 % 64]
  | [] => []

/-- The alphabet `A`..`Z`, `a`..`z`, `0`..`9`, `-`, `_`. -/
def encodeChar (n : Nat) : UInt8 :=
  if n < 26 then UInt8.ofNat (65 + n)
  else if n < 52 then UInt8.ofNat (71 + n)
  else if n < 62 then UInt8.ofNat (n - 4)
  else if n = 62 then 45
  else 95

def encodeToString (bytes : List UInt8) : GoString := (encodeDigits bytes).map encodeChar

def decodeChar (c : UInt8) : Option Nat :=
  if 65 ≤ c ∧ c ≤ 90 then some (c.toNat - 65)
  else if 97 ≤ c ∧ c ≤ 122 then some (c.toNat - 71)
  else if 48 ≤ c ∧ c ≤ 57 then some (c.toNat + 4)
  else if c = 45 then some 62
  else if c = 95 then some 63
  else none

/-- One quantum of four digits gives three bytes; a final one of three or
two digits gives two or one, and a single digit is an error. -/
def decodeDigits : List Nat → Option (List UInt8)
  | p :: q :: r :: s :: rest =>
    let value := p * 262144 + q * 4096 + r * 64 + s
    (decodeDigits rest).map fun tail =>
      UInt8.ofNat (value / 65536) :: UInt8.ofNat (value / 256) :: UInt8.ofNat value :: tail
  | [p, q, r] =>
    let value := p * 262144 + q * 4096 + r * 64
    some [UInt8.ofNat (value / 65536), UInt8.ofNat (value / 256)]
  | [p, q] => some [UInt8.ofNat ((p * 262144 + q * 4096) / 65536)]
  | [_] => none
  | [] => some []

def isNewline (c : UInt8) : Bool := c == 10 || c == 13

def decodeString (text : GoString) : Option (List UInt8) :=
  ((text.filter (!isNewline ·)).mapM decodeChar).bind decodeDigits

theorem encodeDigits_lt (bytes : List UInt8) : ∀ d ∈ encodeDigits bytes, d < 64 := by
  induction bytes using encodeDigits.induct with
  | case1 a b c rest ih =>
    have ha := a.toNat_lt
    have hb := b.toNat_lt
    have hc := c.toNat_lt
    intro d hd
    simp only [encodeDigits, List.mem_cons] at hd
    rcases hd with rfl | rfl | rfl | rfl | hd
    · omega
    · omega
    · omega
    · omega
    · exact ih d hd
  | case2 a b =>
    have ha := a.toNat_lt
    have hb := b.toNat_lt
    simp only [encodeDigits, List.mem_cons, List.not_mem_nil, or_false]
    rintro d (rfl | rfl | rfl) <;> omega
  | case3 a =>
    have ha := a.toNat_lt
    simp only [encodeDigits, List.mem_cons, List.not_mem_nil, or_false]
    rintro d (rfl | rfl) <;> omega
  | case4 => simp [encodeDigits]

theorem byte_of_value (b : UInt8) (h : n % 256 = b.toNat) : UInt8.ofNat n = b := by
  apply UInt8.toNat.inj
  rw [UInt8.toNat_ofNat', h]

theorem decodeDigits_encodeDigits (bytes : List UInt8) :
    decodeDigits (encodeDigits bytes) = some bytes := by
  induction bytes using encodeDigits.induct with
  | case1 a b c rest ih =>
    have ha := a.toNat_lt
    have hb := b.toNat_lt
    have hc := c.toNat_lt
    simp only [encodeDigits, decodeDigits, ih, Option.map_some]
    rw [byte_of_value a (by omega), byte_of_value b (by omega), byte_of_value c (by omega)]
  | case2 a b =>
    have ha := a.toNat_lt
    have hb := b.toNat_lt
    simp only [encodeDigits, decodeDigits]
    rw [byte_of_value a (by omega), byte_of_value b (by omega)]
  | case3 a =>
    have ha := a.toNat_lt
    simp only [encodeDigits, decodeDigits]
    rw [byte_of_value a (by omega)]
  | case4 => rfl

theorem decodeChar_encodeChar (h : n < 64) :
    decodeChar (encodeChar n) = some n ∧ isNewline (encodeChar n) = false := by
  have hd : ∀ i : Fin 64, decodeChar (encodeChar i) = some i.val ∧
      isNewline (encodeChar i) = false := by decide
  exact hd ⟨n, h⟩

theorem decodeText_map (digits : List Nat) (h : ∀ d ∈ digits, d < 64) :
    ((digits.map encodeChar).filter (!isNewline ·)).mapM decodeChar = some digits := by
  induction digits with
  | nil => rfl
  | cons d rest ih =>
    obtain ⟨hdec, hline⟩ := decodeChar_encodeChar (h d (by simp))
    have hrest := ih fun x hx => h x (List.mem_cons_of_mem _ hx)
    simp [hline, hdec, hrest]

theorem decodeString_encodeToString (bytes : List UInt8) :
    decodeString (encodeToString bytes) = some bytes := by
  rw [decodeString, encodeToString, decodeText_map _ (encodeDigits_lt bytes), Option.bind_some,
    decodeDigits_encodeDigits]

theorem length_encodeDigits (bytes : List UInt8) :
    (encodeDigits bytes).length = (4 * bytes.length + 2) / 3 := by
  induction bytes using encodeDigits.induct with
  | case1 a b c rest ih =>
    simp only [encodeDigits, List.length_cons, ih]
    omega
  | case2 => simp [encodeDigits]
  | case3 => simp [encodeDigits]
  | case4 => rfl

@[simp] theorem length_encodeToString (bytes : List UInt8) :
    (encodeToString bytes).length = (4 * bytes.length + 2) / 3 := by
  rw [encodeToString, List.length_map, length_encodeDigits]

-- A line feed and a set unused bit both spell the same byte.
example : decodeString (str "QQ") = some [65] ∧ decodeString (str "Q\nQ") = some [65] ∧
    decodeString (str "QR") = some [65] ∧ decodeString (str "QQ==") = none := by decide +kernel

end GoClean.Go.Base64
