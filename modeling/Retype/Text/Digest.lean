/-!
# Content digests

The SHA-256 digest of a list of octets, written as hexadecimal digits. The
message is padded to whole blocks; each block is stretched to a schedule of 64
words, and 64 rounds mix it into eight state words.
-/

set_option autoImplicit false

namespace Retype.Digest

def roundConstants : Array UInt32 := #[
  0x428a2f98, 0x71374491, 0xb5c0fbcf, 0xe9b5dba5, 0x3956c25b, 0x59f111f1, 0x923f82a4, 0xab1c5ed5,
  0xd807aa98, 0x12835b01, 0x243185be, 0x550c7dc3, 0x72be5d74, 0x80deb1fe, 0x9bdc06a7, 0xc19bf174,
  0xe49b69c1, 0xefbe4786, 0x0fc19dc6, 0x240ca1cc, 0x2de92c6f, 0x4a7484aa, 0x5cb0a9dc, 0x76f988da,
  0x983e5152, 0xa831c66d, 0xb00327c8, 0xbf597fc7, 0xc6e00bf3, 0xd5a79147, 0x06ca6351, 0x14292967,
  0x27b70a85, 0x2e1b2138, 0x4d2c6dfc, 0x53380d13, 0x650a7354, 0x766a0abb, 0x81c2c92e, 0x92722c85,
  0xa2bfe8a1, 0xa81a664b, 0xc24b8b70, 0xc76c51a3, 0xd192e819, 0xd6990624, 0xf40e3585, 0x106aa070,
  0x19a4c116, 0x1e376c08, 0x2748774c, 0x34b0bcb5, 0x391c0cb3, 0x4ed8aa4a, 0x5b9cca4f, 0x682e6ff3,
  0x748f82ee, 0x78a5636f, 0x84c87814, 0x8cc70208, 0x90befffa, 0xa4506ceb, 0xbef9a3f7, 0xc67178f2]

structure Words where
  a : UInt32
  b : UInt32
  c : UInt32
  d : UInt32
  e : UInt32
  f : UInt32
  g : UInt32
  h : UInt32
  deriving DecidableEq, Repr

def start : Words :=
  ⟨0x6a09e667, 0xbb67ae85, 0x3c6ef372, 0xa54ff53a, 0x510e527f, 0x9b05688c, 0x1f83d9ab, 0x5be0cd19⟩

def rotate (x : UInt32) (n : UInt32) : UInt32 := (x >>> n) ||| (x <<< (32 - n))

def padded (bs : List UInt8) : List UInt8 :=
  let bits := 8 * bs.length
  let zeros := (119 - bs.length % 64) % 64
  let length := (List.range 8).map fun i => Nat.toUInt8 (bits >>> (8 * (7 - i)))
  bs ++ [0x80] ++ List.replicate zeros 0 ++ length

def word : List UInt8 → UInt32 := List.foldl (fun w b => (w <<< 8) ||| b.toUInt32) 0

/-- Cuts a list into pieces of one size, for as many pieces as `fuel` says. -/
def pieces {α : Type} (size : Nat) : Nat → List α → List (List α)
  | 0, _ => []
  | fuel + 1, xs => xs.take size :: pieces size fuel (xs.drop size)

def stretch (ws : Array UInt32) (t : Nat) : Array UInt32 :=
  let w (back : Nat) := ws.getD (t - back) 0
  let low := w 15
  let high := w 2
  let s0 := rotate low 7 ^^^ rotate low 18 ^^^ (low >>> 3)
  let s1 := rotate high 17 ^^^ rotate high 19 ^^^ (high >>> 10)
  ws.push (s1 + w 7 + s0 + w 16)

def schedule (block : List UInt8) : Array UInt32 :=
  ((List.range 48).map (· + 16)).foldl stretch ((pieces 4 16 block).map word).toArray

def mix (ws : Array UInt32) (s : Words) (t : Nat) : Words :=
  let sum1 := rotate s.e 6 ^^^ rotate s.e 11 ^^^ rotate s.e 25
  let choice := (s.e &&& s.f) ^^^ ((~~~s.e) &&& s.g)
  let t1 := s.h + sum1 + choice + roundConstants.getD t 0 + ws.getD t 0
  let sum0 := rotate s.a 2 ^^^ rotate s.a 13 ^^^ rotate s.a 22
  let majority := (s.a &&& s.b) ^^^ (s.a &&& s.c) ^^^ (s.b &&& s.c)
  ⟨t1 + sum0 + majority, s.a, s.b, s.c, s.d + t1, s.e, s.f, s.g⟩

def compress (s : Words) (block : List UInt8) : Words :=
  let r := (List.range 64).foldl (mix (schedule block)) s
  ⟨s.a + r.a, s.b + r.b, s.c + r.c, s.d + r.d, s.e + r.e, s.f + r.f, s.g + r.g, s.h + r.h⟩

def hex (w : UInt32) : String :=
  let ds := Nat.toDigits 16 w.toNat
  String.ofList (List.replicate (8 - ds.length) '0' ++ ds)

def sha256 (bs : List UInt8) : String :=
  let message := padded bs
  let s := (pieces 64 (message.length / 64) message).foldl compress start
  String.join ([s.a, s.b, s.c, s.d, s.e, s.f, s.g, s.h].map hex)

end Retype.Digest
