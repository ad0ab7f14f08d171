import GoClean.Go.Json
import GoClean.Go.Strings

/-!
# Reading JSON

`json.Decoder` on a stream of bytes: the next value of the stream, with its
strings still quoted, and the text after it. A string is then unquoted as
`unquoteBytes` does it: escapes are resolved, a surrogate without its partner
and every ill-formed byte become U+FFFD.
-/

namespace GoClean.Go

/-- `utf8.AppendRune` to nothing: what is no code point becomes U+FFFD. -/
def encodeRune (r : Nat) : GoString :=
  if r < 0x80 then [UInt8.ofNat r]
  else if r < 0x800 then [UInt8.ofNat (0xc0 + r / 64), UInt8.ofNat (0x80 + r % 64)]
  else if 0xd800 ≤ r ∧ r ≤ 0xdfff ∨ 0x10ffff < r then [0xef, 0xbf, 0xbd]
  else if r < 0x10000 then
    [UInt8.ofNat (0xe0 + r / 4096), UInt8.ofNat (0x80 + r / 64 % 64), UInt8.ofNat (0x80 + r % 64)]
  else
    [UInt8.ofNat (0xf0 + r / 262144), UInt8.ofNat (0x80 + r / 4096 % 64),
      UInt8.ofNat (0x80 + r / 64 % 64), UInt8.ofNat (0x80 + r % 64)]

namespace Json

-- ---------------------------------------------------------------------------
-- Strings
-- ---------------------------------------------------------------------------

def isShortEscape (b : UInt8) : Bool := (str "bfnrt\\/\"").contains b

def isHexDigit (b : UInt8) : Bool := (Hex.fromHexChar b).isSome

/-- What is left of a string literal after its opening quote: its body up to
the closing quote, and the text after that. -/
def takeBody : GoString → Option (GoString × GoString)
  | [] => none
  | 0x5c :: 0x75 :: a :: b :: c :: d :: rest =>
    if [a, b, c, d].all isHexDigit then
      (takeBody rest).map fun p => (0x5c :: 0x75 :: a :: b :: c :: d :: p.1, p.2)
    else none
  | 0x5c :: e :: rest =>
    if isShortEscape e then (takeBody rest).map fun p => (0x5c :: e :: p.1, p.2) else none
  | b :: rest =>
    if b = 0x22 then some ([], rest)
    else if b < 0x20 ∨ b = 0x5c then none
    else (takeBody rest).map fun p => (b :: p.1, p.2)

/-- `getu4`: the number of a `\u` escape at the start of the text. -/
def getu4 : GoString → Option Nat
  | 0x5c :: 0x75 :: a :: b :: c :: d :: _ => do
    let a ← Hex.fromHexChar a
    let b ← Hex.fromHexChar b
    let c ← Hex.fromHexChar c
    let d ← Hex.fromHexChar d
    some (a * 4096 + b * 256 + c * 16 + d)
  | _ => none

def isSurrogate (r : Nat) : Bool := decide (0xd800 ≤ r ∧ r ≤ 0xdfff)

def decodePair (high low : Nat) : Option Nat :=
  if high < 0xdc00 ∧ 0xdc00 ≤ low ∧ low ≤ 0xdfff then
    some ((high - 0xd800) * 1024 + (low - 0xdc00) + 0x10000)
  else none

def shortEscape (e : UInt8) : Option UInt8 :=
  if e = 0x22 ∨ e = 0x5c ∨ e = 0x2f ∨ e = 0x27 then some e
  else if e = 0x62 then some 0x08
  else if e = 0x66 then some 0x0c
  else if e = 0x6e then some 0x0a
  else if e = 0x72 then some 0x0d
  else if e = 0x74 then some 0x09
  else none

/-- One step of the loop of `unquoteBytes`: the bytes it writes, and how many
it reads. -/
def unquoteStep (s : GoString) : Option (GoString × Nat) :=
  match s with
  | [] => none
  | 0x5c :: 0x75 :: _ => do
    let r ← getu4 s
    if isSurrogate r then
      match (getu4 (s.drop 6)).bind (decodePair r) with
      | some pair => some (encodeRune pair, 12)
      | none => some (encodeRune 0xfffd, 6)
    else some (encodeRune r, 6)
  | 0x5c :: e :: _ => (shortEscape e).map fun b => ([b], 2)
  | b :: _ =>
    if b = 0x5c ∨ b = 0x22 ∨ b < 0x20 then none
    else if b < 0x80 then some ([b], 1)
    else some (encodeRune (rune (s.take (runeWidth s))), runeWidth s)

def unquoteFuel : Nat → GoString → Option GoString
  | _, [] => some []
  | 0, _ => none
  | n + 1, s => do
    let (written, width) ← unquoteStep s
    let rest ← unquoteFuel n (s.drop width)
    some (written ++ rest)

def unquoteBytes (body : GoString) : Option GoString := unquoteFuel body.length body

-- ---------------------------------------------------------------------------
-- Values
-- ---------------------------------------------------------------------------

end Json

/-- A JSON value; the strings are bodies of literals. -/
inductive JsonValue
  | null
  | bool (b : Bool)
  | number (text : GoString)
  | string (body : GoString)
  | array (items : List JsonValue)
  | object (members : List (GoString × JsonValue))

namespace Json

def isBlank (b : UInt8) : Bool := b == 0x20 || b == 0x09 || b == 0x0d || b == 0x0a

def skipBlanks (s : GoString) : GoString := s.dropWhile isBlank

def takeDigits (s : GoString) : Option (GoString × GoString) :=
  if s.takeWhile isDigit = [] then none else some (s.takeWhile isDigit, s.dropWhile isDigit)

def takeInteger : GoString → Option (GoString × GoString)
  | 0x30 :: rest => some ([0x30], rest)
  | s => takeDigits s

def takeFraction : GoString → Option (GoString × GoString)
  | 0x2e :: rest => (takeDigits rest).map fun p => (0x2e :: p.1, p.2)
  | s => some ([], s)

def takeExponent : GoString → Option (GoString × GoString)
  | e :: rest =>
    if e = 0x65 ∨ e = 0x45 then
      match rest with
      | sign :: digits =>
        if sign = 0x2b ∨ sign = 0x2d then (takeDigits digits).map fun p => (e :: sign :: p.1, p.2)
        else (takeDigits rest).map fun p => (e :: p.1, p.2)
      | [] => none
    else some ([], e :: rest)
  | [] => some ([], [])

def takeNumber (s : GoString) : Option (GoString × GoString) := do
  let (sign, s) := match s with
    | 0x2d :: rest => (([0x2d] : GoString), rest)
    | s => ([], s)
  let (integer, s) ← takeInteger s
  let (fraction, s) ← takeFraction s
  let (exponent, s) ← takeExponent s
  some (sign ++ integer ++ fraction ++ exponent, s)

def after (start s : GoString) : Option GoString :=
  if hasPrefix s start then some (s.drop start.length) else none

def parseLiteral (s : GoString) : Option (JsonValue × GoString) :=
  match after (str "null") s, after (str "true") s, after (str "false") s with
  | some rest, _, _ => some (.null, rest)
  | _, some rest, _ => some (.bool true, rest)
  | _, _, some rest => some (.bool false, rest)
  | none, none, none => (takeNumber s).map fun p => (.number p.1, p.2)

mutual

/-- The value the text starts with. `depth` is how many objects and arrays may
still be opened; `n` bounds the recursion. -/
def parseValue : Nat → Nat → GoString → Option (JsonValue × GoString)
  | 0, _, _ => none
  | n + 1, depth, s =>
    match skipBlanks s with
    | 0x7b :: rest =>
      if depth = 0 then none
      else
        match skipBlanks rest with
        | 0x7d :: rest => some (.object [], rest)
        | rest => (parseMembers n (depth - 1) rest).map fun p => (.object p.1, p.2)
    | 0x5b :: rest =>
      if depth = 0 then none
      else
        match skipBlanks rest with
        | 0x5d :: rest => some (.array [], rest)
        | rest => (parseItems n (depth - 1) rest).map fun p => (.array p.1, p.2)
    | 0x22 :: rest => (takeBody rest).map fun p => (.string p.1, p.2)
    | rest => parseLiteral rest

def parseMembers : Nat → Nat → GoString → Option (List (GoString × JsonValue) × GoString)
  | 0, _, _ => none
  | n + 1, depth, s =>
    match skipBlanks s with
    | 0x22 :: rest => do
      let (key, rest) ← takeBody rest
      match skipBlanks rest with
      | 0x3a :: rest => do
        let (value, rest) ← parseValue n depth rest
        match skipBlanks rest with
        | 0x2c :: rest => (parseMembers n depth rest).map fun p => ((key, value) :: p.1, p.2)
        | 0x7d :: rest => some ([(key, value)], rest)
        | _ => none
      | _ => none
    | _ => none

def parseItems : Nat → Nat → GoString → Option (List JsonValue × GoString)
  | 0, _, _ => none
  | n + 1, depth, s => do
    let (value, rest) ← parseValue n depth s
    match skipBlanks rest with
    | 0x2c :: rest => (parseItems n depth rest).map fun p => (value :: p.1, p.2)
    | 0x5d :: rest => some ([value], rest)
    | _ => none

end

def maxNestingDepth : Nat := 10000

/-- The next value of a stream, and the text after it. -/
def readValue (s : GoString) : Option (JsonValue × GoString) :=
  parseValue (s.length + 1) maxNestingDepth s

end Json

end GoClean.Go
