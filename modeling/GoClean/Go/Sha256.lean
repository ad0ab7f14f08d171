import Mathlib.Data.Vector.Basic
import GoClean.Lib.BigEndian

/-!
# SHA-256 and HMAC-SHA-256

`crypto/sha256` and `crypto/hmac` as they compute. The code under study uses
both only as functions with 32-byte results, so the theorems quantify over a
`Hashes`; `Hashes.go` is the pair the program runs with, on which concrete
runs are evaluated.
-/

namespace GoClean.Go

open BigEndian (beNat beBytes)

abbrev Digest := List.Vector UInt8 32

namespace Sha256

abbrev Word := BitVec 32

structure State where
  a : Word
  b : Word
  c : Word
  d : Word
  e : Word
  f : Word
  g : Word
  h : Word

/-- The first 32 bits of the fractional parts of the square roots of the
first eight primes. -/
def init : State :=
  ⟨0x6a09e667, 0xbb67ae85, 0x3c6ef372, 0xa54ff53a, 0x510e527f, 0x9b05688c, 0x1f83d9ab, 0x5be0cd19⟩

def k : List Word :=
  [0x428a2f98, 0x71374491, 0xb5c0fbcf, 0xe9b5dba5, 0x3956c25b, 0x59f111f1, 0x923f82a4, 0xab1c5ed5,
   0xd807aa98, 0x12835b01, 0x243185be, 0x550c7dc3, 0x72be5d74, 0x80deb1fe, 0x9bdc06a7, 0xc19bf174,
   0xe49b69c1, 0xefbe4786, 0x0fc19dc6, 0x240ca1cc, 0x2de92c6f, 0x4a7484aa, 0x5cb0a9dc, 0x76f988da,
   0x983e5152, 0xa831c66d, 0xb00327c8, 0xbf597fc7, 0xc6e00bf3, 0xd5a79147, 0x06ca6351, 0x14292967,
   0x27b70a85, 0x2e1b2138, 0x4d2c6dfc, 0x53380d13, 0x650a7354, 0x766a0abb, 0x81c2c92e, 0x92722c85,
   0xa2bfe8a1, 0xa81a664b, 0xc24b8b70, 0xc76c51a3, 0xd192e819, 0xd6990624, 0xf40e3585, 0x106aa070,
   0x19a4c116, 0x1e376c08, 0x2748774c, 0x34b0bcb5, 0x391c0cb3, 0x4ed8aa4a, 0x5b9cca4f, 0x682e6ff3,
   0x748f82ee, 0x78a5636f, 0x84c87814, 0x8cc70208, 0x90befffa, 0xa4506ceb, 0xbef9a3f7, 0xc67178f2]

/-- One round: the working variables, and the next sixteen words of the
message schedule with the current one first. -/
def round (s : State × List Word) (constant : Word) : State × List Word :=
  let (v, window) := s
  let w (i : Nat) := window.getD i 0
  let s1 := v.e.rotateRight 6 ^^^ v.e.rotateRight 11 ^^^ v.e.rotateRight 25
  let ch := (v.e &&& v.f) ^^^ (~~~v.e &&& v.g)
  let t1 := v.h + s1 + ch + constant + w 0
  let s0 := v.a.rotateRight 2 ^^^ v.a.rotateRight 13 ^^^ v.a.rotateRight 22
  let maj := (v.a &&& v.b) ^^^ (v.a &&& v.c) ^^^ (v.b &&& v.c)
  let sigma0 := (w 1).rotateRight 7 ^^^ (w 1).rotateRight 18 ^^^ (w 1 >>> 3)
  let sigma1 := (w 14).rotateRight 17 ^^^ (w 14).rotateRight 19 ^^^ (w 14 >>> 10)
  (⟨t1 + (s0 + maj), v.a, v.b, v.c, v.d + t1, v.e, v.f, v.g⟩,
    window.drop 1 ++ [w 0 + sigma0 + w 9 + sigma1])

def words : Nat → List UInt8 → List Word
  | 0, _ => []
  | n + 1, block => BitVec.ofNat 32 (beNat (block.take 4)) :: words n (block.drop 4)

def compress (v : State) (block : List UInt8) : State :=
  let u := (k.foldl round (v, words 16 block)).1
  ⟨v.a + u.a, v.b + u.b, v.c + u.c, v.d + u.d, v.e + u.e, v.f + u.f, v.g + u.g, v.h + u.h⟩

def pad (message : List UInt8) : List UInt8 :=
  message ++ 0x80 :: List.replicate ((119 - message.length % 64) % 64) 0 ++
    beBytes 8 (8 * message.length)

def blocks : Nat → State → List UInt8 → State
  | 0, v, _ => v
  | n + 1, v, padded => blocks n (compress v (padded.take 64)) (padded.drop 64)

def output (v : State) : List UInt8 :=
  [v.a, v.b, v.c, v.d, v.e, v.f, v.g, v.h].flatMap fun w => beBytes 4 w.toNat

def sum256 (message : List UInt8) : Digest :=
  let padded := pad message
  ⟨output (blocks (padded.length / 64) init padded), by simp [output]⟩

/-- HMAC with a 32-byte key, which the block size pads with zeros. -/
def hmac (key : Digest) (message : List UInt8) : Digest :=
  let block := key.toList ++ List.replicate 32 0
  let inner := sum256 (block.map (· ^^^ 0x36) ++ message)
  sum256 (block.map (· ^^^ 0x5c) ++ inner.toList)

example : (sum256 [0x61, 0x62, 0x63]).toList = beBytes 32
    0xba7816bf8f01cfea414140de5dae2223b00361a396177a9cb410ff61f20015ad := by decide +kernel

end Sha256

/-- The two hash functions the program is built on. -/
structure Hashes where
  sum256 : List UInt8 → Digest
  hmac : Digest → List UInt8 → Digest

def Hashes.go : Hashes := ⟨Sha256.sum256, Sha256.hmac⟩

end GoClean.Go
