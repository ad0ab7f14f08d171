import GoClean.Go.Strings

/-!
# Network addresses

The parts of `net` and `net/netip` that a peer address passes through: how a
TCP address is printed, how host and port are taken apart, and how an IP
address is printed and read. The readers make the checks of the loops in Go,
in their order.
-/

namespace GoClean.Go

/-- The sixteen bytes of a `net.IP` as groups of two. An IPv4 address is
mapped into the last two groups. -/
structure IP where
  groups : List UInt16
  length_groups : groups.length = 8
  deriving DecidableEq

-- ---------------------------------------------------------------------------
-- Printing
-- ---------------------------------------------------------------------------

namespace IP

def appendDecimal (x : UInt8) : GoString :=
  (if 100 ≤ x.toNat then [Hex.digit (x.toNat / 100)] else []) ++
    (if 10 ≤ x.toNat then [Hex.digit (x.toNat / 10 % 10)] else []) ++ [Hex.digit (x.toNat % 10)]

def appendHex (x : UInt16) : GoString :=
  (if 0x1000 ≤ x.toNat then [Hex.digit (x.toNat / 4096)] else []) ++
    (if 0x100 ≤ x.toNat then [Hex.digit (x.toNat / 256 % 16)] else []) ++
    (if 0x10 ≤ x.toNat then [Hex.digit (x.toNat / 16 % 16)] else []) ++ [Hex.digit (x.toNat % 16)]

def mappedGroups : List UInt16 := [0, 0, 0, 0, 0, 0xffff]

def groupBytes (g : UInt16) : List UInt8 :=
  [UInt8.ofNat (g.toNat / 256), UInt8.ofNat (g.toNat % 256)]

def bytesGroup (hi lo : UInt8) : UInt16 := UInt16.ofNat (hi.toNat * 256 + lo.toNat)

def to4 (ip : IP) : Option (List UInt8) :=
  if ip.groups.take 6 = mappedGroups then some ((ip.groups.drop 6).flatMap groupBytes) else none

def zeroRun (groups : List UInt16) (start : Nat) : Nat :=
  ((groups.drop start).takeWhile (· == 0)).length

def longestZeros (groups : List UInt16) : Option (Nat × Nat) :=
  (List.range groups.length).foldl (fun best start =>
    let length := zeroRun groups start
    if 2 ≤ length ∧ best.all (fun run => decide (run.2 - run.1 < length)) then
      some (start, start + length) else best)
    none

def colons (groups : List UInt16) : GoString := join 58 (groups.map appendHex)

/-- `appendTo6`: the longest run of zeros is written as `::`. -/
def string6 (groups : List UInt16) : GoString :=
  match longestZeros groups with
  | none => colons groups
  | some (start, stop) => colons (groups.take start) ++ 58 :: 58 :: colons (groups.drop stop)

def string (ip : IP) : GoString :=
  match ip.to4 with
  | some bytes => join 46 (bytes.map appendDecimal)
  | none => string6 ip.groups

end IP

def joinHostPort (host port : GoString) : GoString :=
  if host.contains 58 then 91 :: host ++ 93 :: 58 :: port else host ++ 58 :: port

structure TCPAddr where
  ip : IP
  zone : GoString := []
  port : Nat
  deriving DecidableEq

namespace TCPAddr

def portText (addr : TCPAddr) : GoString :=
  (Nat.toDigits 10 addr.port).map fun c => UInt8.ofNat c.toNat

def string (addr : TCPAddr) : GoString :=
  if addr.zone ≠ [] then joinHostPort (addr.ip.string ++ 37 :: addr.zone) addr.portText
  else joinHostPort addr.ip.string addr.portText

end TCPAddr

-- ---------------------------------------------------------------------------
-- Reading
-- ---------------------------------------------------------------------------

def lastIndexByte (s : GoString) (b : UInt8) : Option Nat :=
  (indexByte s.reverse b).map fun i => s.length - 1 - i

/-- `net.SplitHostPort`, with `none` for its errors. -/
def splitHostPort (hostport : GoString) : Option (GoString × GoString) := do
  let i ← lastIndexByte hostport 58
  let port := hostport.drop (i + 1)
  if hostport.head? = some 91 then
    let stop ← indexByte hostport 93
    -- the bracket closes just before the last colon
    if stop + 1 ≠ i ∨ hostport.tail.contains 91 ∨ (hostport.drop (stop + 1)).contains 93 then none
    else some (hostport.tail.take (stop - 1), port)
  else
    let host := hostport.take i
    if host.contains 58 ∨ hostport.contains 91 ∨ hostport.contains 93 then none
      else some (host, port)

namespace IP

def isHexDigit (c : UInt8) : Bool := (Hex.fromHexChar c).isSome

def hexValue (digits : GoString) : Nat :=
  digits.foldl (fun n c => n * 16 + (Hex.fromHexChar c).getD 0) 0

/-- `parseIPv4Fields` from the octets before, the value of the current one and
the number of its digits. -/
def parseIPv4Fields (fields : List UInt8) (val digLen : Nat) : GoString → Option (List UInt8)
  | [] => if fields.length < 3 then none else some (fields ++ [UInt8.ofNat val])
  | c :: rest =>
    if isDigit c then
      if digLen = 1 ∧ val = 0 then none
      else if 255 < val * 10 + (c.toNat - 48) then none
      else parseIPv4Fields fields (val * 10 + (c.toNat - 48)) (digLen + 1) rest
    else if c = 46 then
      if digLen = 0 ∨ rest = [] then none
      else if fields.length = 3 then none
      else parseIPv4Fields (fields ++ [UInt8.ofNat val]) 0 0 rest
    else none

def octetGroups : List UInt8 → List UInt16
  | [a, b, c, d] => [bytesGroup a b, bytesGroup c d]
  | _ => []

/-- The loop of `parseIPv6`: the groups and the place of the ellipsis so far,
and how many groups may follow. It returns both and the text it leaves. -/
def parseGroups (groups : List UInt16) (ellipsis : Option Nat) :
    Nat → GoString → Option (List UInt16 × Option Nat × GoString)
  | 0, s => some (groups, ellipsis, s)
  | room + 1, s =>
    let digits := s.takeWhile isHexDigit
    let rest := s.dropWhile isHexDigit
    if digits = [] ∨ 4 < digits.length then none
    else if rest.head? = some 46 then
      -- an IPv4 address in place of the last two groups
      if (ellipsis = none ∧ groups.length ≠ 6) ∨ room = 0 then none
      else (parseIPv4Fields [] 0 0 s).map fun octets => (groups ++ octetGroups octets, ellipsis, [])
    else
      let groups := groups ++ [UInt16.ofNat (hexValue digits)]
      match rest with
      | [] => some (groups, ellipsis, [])
      | colon :: more =>
        if colon ≠ 58 ∨ more = [] then none
        else if more.head? = some 58 then
          if ellipsis.isSome then none
          else if more.tail = [] then some (groups, some groups.length, [])
          else parseGroups groups (some groups.length) room more.tail
        else parseGroups groups ellipsis room more

/-- The end of `parseIPv6`: the whole text is used, and an ellipsis stands for
at least one group. -/
def expandEllipsis (groups : List UInt16) (ellipsis : Option Nat) (rest : GoString) :
    Option (List UInt16) :=
  if rest ≠ [] then none
  else if groups.length < 8 then
    ellipsis.map fun place => groups.take place ++ List.replicate (8 - groups.length) 0 ++
      groups.drop place
  else if ellipsis.isSome then none
  else some groups

def parseGroupText (s : GoString) : Option (List UInt16) :=
  if s.take 2 = [58, 58] then
    if s.drop 2 = [] then some (List.replicate 8 0)
    else do
      let (groups, ellipsis, rest) ← parseGroups [] (some 0) 8 (s.drop 2)
      expandEllipsis groups ellipsis rest
  else do
    let (groups, ellipsis, rest) ← parseGroups [] none 8 s
    expandEllipsis groups ellipsis rest

def parseIPv6 (s : GoString) : Option (List UInt16 × GoString) :=
  match indexByte s 37 with
  | none => (parseGroupText s).map fun groups => (groups, [])
  | some i =>
    let zone := s.drop (i + 1)
    if zone = [] then none else (parseGroupText (s.take i)).map fun groups => (groups, zone)

def isSeparator (c : UInt8) : Bool := c == 46 || c == 58 || c == 37

/-- `netip.ParseAddr`: the first separator decides how the text is read. -/
def parseAddr (s : GoString) : Option (List UInt16 × GoString) := do
  let c ← s.find? isSeparator
  if c = 46 then
    let octets ← parseIPv4Fields [] 0 0 s
    some (mappedGroups ++ octetGroups octets, [])
  else if c = 58 then parseIPv6 s
  else none

end IP

/-- `net.ParseIP`, which accepts no zone. -/
def parseIP (s : GoString) : Option IP :=
  match IP.parseAddr s with
  | some (groups, zone) =>
    if h : groups.length = 8 then if zone = [] then some ⟨groups, h⟩ else none else none
  | none => none

end GoClean.Go
