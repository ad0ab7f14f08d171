import GoClean.Go.Strings

/-!
# URLs

The parts of a `net/url.URL` that the code looks at. `url.Parse` itself is a
parameter of what uses it; the host is split as `Hostname` and `Port` do, and a
query is read as `ParseQuery` does.
-/

namespace GoClean.Go

structure URL where
  scheme : GoString
  opaquePart : GoString := []
  /-- `User != nil`. -/
  user : Bool := false
  host : GoString
  path : GoString := []
  rawPath : GoString := []
  forceQuery : Bool := false
  rawQuery : GoString := []
  fragment : GoString := []
  deriving DecidableEq

namespace URL

def validOptionalPort : GoString → Bool
  | [] => true
  | colon :: digits => colon == 58 && digits.all isDigit

/-- `splitHostPort`: the part after the last colon is the port if it has only
digits; brackets are taken off the host. -/
def splitHostPort (hostPort : GoString) : GoString × GoString :=
  let colon := (hostPort.reverse.findIdx? (· == 58)).map fun i => hostPort.length - 1 - i
  let (host, port) := match colon with
    | some i => if validOptionalPort (hostPort.drop i) then (hostPort.take i, hostPort.drop (i + 1))
        else (hostPort, [])
    | none => (hostPort, [])
  if host.head? = some 91 ∧ host.getLast? = some 93 then (host.tail.dropLast, port)
    else (host, port)

def hostname (u : URL) : GoString := (splitHostPort u.host).1

def port (u : URL) : GoString := (splitHostPort u.host).2

def upperhex (n : Nat) : UInt8 := if n < 10 then UInt8.ofNat (48 + n) else UInt8.ofNat (55 + n)

def escape (kept : GoString) (s : GoString) : GoString :=
  s.flatMap fun c => if kept.contains c then [c] else
    [37, upperhex (c.toNat / 16), upperhex (c.toNat % 16)]

def unreserved : GoString := "ABCDEFGHIJKLMNOPQRSTUVWXYZabcdefghijklmnopqrstuvwxyz0123456789-_.~"

def escapedPath (u : URL) : GoString :=
  if u.path = str "*" then str "*" else escape (unreserved ++ str "$&+,/:;=@") u.path

/-- `String` of a URL with a host, and without user information, opaque part,
query, fragment and `RawPath`. -/
def string (u : URL) : GoString :=
  let path := u.escapedPath
  (if u.scheme = [] then [] else u.scheme ++ str ":") ++ str "//" ++
    escape (unreserved ++ str "!$&'()*+,;=:[]<>\"") u.host ++
    (if path ≠ [] ∧ hasPrefix path (str "/") = false then str "/" else []) ++ path

theorem string_hasScheme {u : URL} (h : u.scheme ≠ []) :
    hasPrefix u.string (u.scheme ++ str "://") = true := by
  rw [hasPrefix_iff, string, if_neg h]
  exact ⟨_, by simp only [List.append_assoc]; rfl⟩

end URL

-- ---------------------------------------------------------------------------
-- Queries
-- ---------------------------------------------------------------------------

/-- `url.QueryUnescape`, or `none` where a percent sign has no two digits
behind it. -/
def queryUnescape : GoString → Option GoString
  | [] => some []
  | 37 :: hi :: lo :: rest => do
    let hi ← Hex.fromHexChar hi
    let lo ← Hex.fromHexChar lo
    let tail ← queryUnescape rest
    some (UInt8.ofNat (hi * 16 + lo) :: tail)
  | c :: rest =>
    if c = 37 then none
    else (queryUnescape rest).map ((if c = 43 then 32 else c) :: ·)

def cutByte (s : GoString) (sep : UInt8) : GoString × GoString :=
  match indexByte s sep with
  | some i => (s.take i, s.drop (i + 1))
  | none => (s, [])

abbrev Values := List (GoString × GoString)

/-- `values[key]`, which is empty if the key is missing. -/
def Values.get (values : Values) (key : GoString) : List GoString :=
  (values.filter fun pair => pair.1 == key).map Prod.snd

def parseQueryPart (part : GoString) : Option Values :=
  if part.contains 59 then none
  else if part = [] then some []
  else do
    let key ← queryUnescape (cutByte part 61).1
    let value ← queryUnescape (cutByte part 61).2
    some [(key, value)]

def maxQueryParams : Nat := 10000

/-- `url.ParseQuery`, or `none` if it returns an error. -/
def parseQuery (query : GoString) : Option Values :=
  let parts := query.splitOn 38
  if maxQueryParams < parts.length then none else (parts.mapM parseQueryPart).map List.flatten

def validPort (port : GoString) : Bool :=
  match port with
  | [] => true
  | _ => match atoi port with
    | some n => decide (1 ≤ n ∧ n ≤ 65535)
    | none => false

end GoClean.Go
