import Mathlib.Data.List.DropRight
import GoClean.Go.Strings

/-!
# The texts bootstrap recognises

`cmd/bootstrap`: the regular expressions and the functions that take a module
path apart. Each pattern is read as its leftmost match with the preferences
of `regexp`; none matches across a line end, so the patterns that are
anchored at lines go through the lines.
-/

namespace GoClean.Bootstrap

open Go

def isLowerAlnum (b : UInt8) : Bool := isDigit b || decide (97 ≤ b ∧ b ≤ 122)
def isAlnum (b : UInt8) : Bool := isLowerAlnum b || decide (65 ≤ b ∧ b ≤ 90)

def startsWith (first more : UInt8 → Bool) : GoString → Bool
  | [] => false
  | c :: rest => first c && rest.all more

/-- A segment of `modulePathPattern`, with the punctuation it may have. -/
def pathSegment (punctuation : GoString) : GoString → Bool :=
  startsWith isAlnum fun b => isAlnum b || punctuation.contains b

def modulePathPattern (module : GoString) : Bool :=
  match module.splitOn 47 with
  | first :: later => pathSegment ".+~-" first && !later.isEmpty && later.all (pathSegment ".+_~-")
  | [] => false

def slugPattern : GoString → Bool :=
  startsWith isLowerAlnum fun b => isLowerAlnum b || b == 95 || b == 45

/-- Letters, digits and inner hyphens, at most `max` of them. -/
def hyphenated (max : Nat) (s : GoString) : Bool :=
  decide (s.length ≤ max) && s.head?.any isAlnum && s.getLast?.any isAlnum &&
    s.all fun b => isAlnum b || b == 45

def ownerPattern (owner : GoString) : Bool := hyphenated 39 owner

-- ---------------------------------------------------------------------------
-- Addresses
-- ---------------------------------------------------------------------------

def isLocalByte (b : UInt8) : Bool := isAlnum b || (str ".!#$%&'*+/=?^_`\x7b|\x7d~-").contains b

/-- The longest label of a domain that stands at the start, empty if none
does. -/
def domainLabel (s : GoString) : GoString :=
  if s.head?.any isAlnum then
    ((s.takeWhile fun b => isAlnum b || b == 45).take 63).rdropWhile (· == 45)
  else []

def domainTail : Nat → GoString → GoString
  | fuel + 1, 46 :: s =>
    let label := domainLabel s
    if label.isEmpty then [] else 46 :: label ++ domainTail fuel (s.drop label.length)
  | _, _ => []

/-- The domain of `emailPattern` at the start of a text. A first label that is
cut short is not followed by a dot. -/
def emailDomain (s : GoString) : Option GoString :=
  let first := domainLabel s
  let tail := domainTail s.length (s.drop first.length)
  if first.isEmpty || tail.isEmpty then none else some (first ++ tail)

/-- `emailPattern.FindAllString`. Every position of a run of local bytes is
followed by the same text, so the run is tried once. -/
def findEmails : Nat → GoString → List GoString
  | fuel + 1, c :: rest =>
    let name := (c :: rest).takeWhile isLocalByte
    if name.isEmpty then findEmails fuel rest
    else
      match (c :: rest).drop name.length with
      | 64 :: after =>
        match emailDomain after with
        | some domain => (name ++ 64 :: domain) :: findEmails fuel (after.drop domain.length)
        | none => findEmails fuel after
      | other => findEmails fuel other
  | _, _ => []

def emailPattern (text : GoString) : List GoString := findEmails text.length text

def isAtextByte (b : UInt8) : Bool :=
  decide (128 ≤ b) || decide (33 ≤ b ∧ b ≤ 126) && !(str "()<>[]:;@\\,\"").contains b

/-- A dot-atom of `net/mail`: atoms, joined by single dots. -/
def dotAtom (s : GoString) : Bool :=
  validString s && (s.splitOn 46).all fun atom => !atom.isEmpty && atom.all isAtextByte

/-- `mail.ParseAddress` accepts the text and gives it back as the address:
two dot-atoms around an at sign. A quoted name or a domain literal is either
given back in another form or refused by `emailPattern`. -/
def parsesAsItself (email : GoString) : Bool :=
  match email.splitOn 64 with
  | [name, domain] => dotAtom name && dotAtom domain
  | _ => false

-- ---------------------------------------------------------------------------
-- Lines
-- ---------------------------------------------------------------------------

def isBlank (b : UInt8) : Bool := b == 9 || b == 32

def isNameByte (b : UInt8) : Bool := !(isBlank b || b == 13 || b == 10)

def directiveLine (line : GoString) : Option GoString :=
  let rest := line.drop 6
  let name := (rest.dropWhile isBlank).takeWhile isNameByte
  if hasPrefix line "module" && !(rest.takeWhile isBlank).isEmpty && !name.isEmpty then
    some name else none

def lines (text : GoString) : List GoString := text.splitOn 10

def moduleDirective (text : GoString) : Option GoString := (lines text).findSome? directiveLine

def isNonSpace (b : UInt8) : Bool := !(isBlank b || b == 10 || b == 12 || b == 13)

/-- `^Copyright \(c\)[\t ]+\S+[\t ]+([^\r\n]+?)[\t ]*\r?$` in one line. When
only blanks are left for the holder, the last of them is taken, if there is
another for the gap. -/
def copyrightLine (line : GoString) : Option GoString :=
  let rest := line.drop 13
  let afterGap := rest.dropWhile isBlank
  let afterYear := afterGap.dropWhile isNonSpace
  let gap := afterYear.takeWhile isBlank
  let tail := afterYear.dropWhile isBlank
  let body := if tail.getLast? = some 13 then tail.dropLast else tail
  if !hasPrefix line "Copyright (c)" || (rest.takeWhile isBlank).isEmpty ||
    (afterGap.takeWhile isNonSpace).isEmpty ||
      gap.isEmpty || body.contains 13 then none
  else if body.isEmpty then (if 2 ≤ gap.length then gap.getLast?.map ([·]) else none)
  else some (body.rdropWhile isBlank)

def copyrightHolder (text : GoString) : Option GoString := (lines text).findSome? copyrightLine

-- ---------------------------------------------------------------------------
-- Names
-- ---------------------------------------------------------------------------

def isVersion (segment : GoString) : Bool :=
  decide (1 < segment.length) && segment.head? == some 118 && (segment.drop 1).all isDigit

def projectSlug (module : GoString) : GoString :=
  let parts := module.splitOn 47
  let last := parts.getLastD []
  if isVersion last && decide (1 < parts.length) then parts.getD (parts.length - 2) [] else last

def githubOwner (module : GoString) : GoString :=
  let parts := module.splitOn 47
  if 3 ≤ parts.length ∧ equalFold (parts.headD []) "github.com" = true then parts.getD 1 [] else []

/-- `strings.ToUpper` of one byte: a byte that is no rune becomes the
replacement character. -/
def upperByte (b : UInt8) : GoString :=
  if 97 ≤ b ∧ b ≤ 122 then [b - 32] else if 128 ≤ b then [0xef, 0xbf, 0xbd] else [b]

def capitalize : GoString → GoString
  | [] => []
  | c :: rest => upperByte c ++ rest

def titleFromSlug (slug : GoString) : GoString :=
  let parts :=
    (slug.splitOnP fun b => b == 45 || b == 95 || b == 46).filter fun part => !part.isEmpty
  [32].intercalate (parts.map capitalize)

end GoClean.Bootstrap
