/-!
# SHA-256

Padding, message schedule and compression over 32-bit words, and the digest as 64 lower-case hex
digits.
-/

namespace Rulebook.Digest

set_option autoImplicit false

def roundConstants : Array UInt32 := #[
  0x428a2f98, 0x71374491, 0xb5c0fbcf, 0xe9b5dba5, 0x3956c25b, 0x59f111f1, 0x923f82a4, 0xab1c5ed5,
  0xd807aa98, 0x12835b01, 0x243185be, 0x550c7dc3, 0x72be5d74, 0x80deb1fe, 0x9bdc06a7, 0xc19bf174,
  0xe49b69c1, 0xefbe4786, 0x0fc19dc6, 0x240ca1cc, 0x2de92c6f, 0x4a7484aa, 0x5cb0a9dc, 0x76f988da,
  0x983e5152, 0xa831c66d, 0xb00327c8, 0xbf597fc7, 0xc6e00bf3, 0xd5a79147, 0x06ca6351, 0x14292967,
  0x27b70a85, 0x2e1b2138, 0x4d2c6dfc, 0x53380d13, 0x650a7354, 0x766a0abb, 0x81c2c92e, 0x92722c85,
  0xa2bfe8a1, 0xa81a664b, 0xc24b8b70, 0xc76c51a3, 0xd192e819, 0xd6990624, 0xf40e3585, 0x106aa070,
  0x19a4c116, 0x1e376c08, 0x2748774c, 0x34b0bcb5, 0x391c0cb3, 0x4ed8aa4a, 0x5b9cca4f, 0x682e6ff3,
  0x748f82ee, 0x78a5636f, 0x84c87814, 0x8cc70208, 0x90befffa, 0xa4506ceb, 0xbef9a3f7, 0xc67178f2]

structure Words where
  a : UInt32
  b : UInt32
  c : UInt32
  d : UInt32
  e : UInt32
  f : UInt32
  g : UInt32
  h : UInt32

def initial : Words :=
  ⟨0x6a09e667, 0xbb67ae85, 0x3c6ef372, 0xa54ff53a, 0x510e527f, 0x9b05688c, 0x1f83d9ab, 0x5be0cd19⟩

def rotate (x n : UInt32) : UInt32 := (x >>> n) ||| (x <<< (32 - n))

def bigSigma0 (x : UInt32) : UInt32 := rotate x 2 ^^^ rotate x 13 ^^^ rotate x 22

def bigSigma1 (x : UInt32) : UInt32 := rotate x 6 ^^^ rotate x 11 ^^^ rotate x 25

def sigma0 (x : UInt32) : UInt32 := rotate x 7 ^^^ rotate x 18 ^^^ (x >>> 3)

def sigma1 (x : UInt32) : UInt32 := rotate x 17 ^^^ rotate x 19 ^^^ (x >>> 10)

def choose (x y z : UInt32) : UInt32 := (x &&& y) ^^^ (~~~x &&& z)

def majority (x y z : UInt32) : UInt32 := (x &&& y) ^^^ (x &&& z) ^^^ (y &&& z)

/-- The zero bytes between the delimiter and the length: up to the next whole block. -/
def zerosNeeded (size : Nat) : Nat := (119 - size % 64) % 64

def lengthBytes (size : Nat) : List UInt8 :=
  (List.range 8).map fun i => UInt8.ofNat (size * 8 / Nat.pow 256 (7 - i))

def pad (message : ByteArray) : ByteArray :=
  let tail := (0x80 : UInt8) :: List.replicate (zerosNeeded message.size) 0 ++
    lengthBytes message.size
  tail.foldl ByteArray.push message

def wordAt (data : ByteArray) (i : Nat) : UInt32 :=
  let byte (j : Nat) : UInt32 := (data.get! (i + j)).toUInt32
  (byte 0 <<< 24) ||| (byte 1 <<< 16) ||| (byte 2 <<< 8) ||| byte 3

def schedule (data : ByteArray) (start : Nat) : Array UInt32 :=
  let first := (Array.range 16).map fun i => wordAt data (start + 4 * i)
  (List.range 48).foldl (fun w i =>
    w.push (w[i]! + sigma0 w[i + 1]! + w[i + 9]! + sigma1 w[i + 14]!)) first

def round (w : Words) (constant word : UInt32) : Words :=
  let t1 := w.h + bigSigma1 w.e + choose w.e w.f w.g + constant + word
  let t2 := bigSigma0 w.a + majority w.a w.b w.c
  ⟨t1 + t2, w.a, w.b, w.c, w.d + t1, w.e, w.f, w.g⟩

def compress (data : ByteArray) (state : Words) (block : Nat) : Words :=
  let w := schedule data (64 * block)
  let r := (List.range 64).foldl (fun s i => round s roundConstants[i]! w[i]!) state
  ⟨state.a + r.a, state.b + r.b, state.c + r.c, state.d + r.d,
    state.e + r.e, state.f + r.f, state.g + r.g, state.h + r.h⟩

def state (message : ByteArray) : Words :=
  let data := pad message
  (List.range (data.size / 64)).foldl (compress data) initial

def hexDigit (n : Nat) : Char := (Nat.digitChar (n % 16))

/-- The lowest `width` hex digits of a number. -/
def hexDigits : Nat → Nat → List Char
  | 0, _ => []
  | width + 1, n => hexDigits width (n / 16) ++ [hexDigit n]

def Words.hex (w : Words) : List Char :=
  [w.a, w.b, w.c, w.d, w.e, w.f, w.g, w.h].flatMap fun x => hexDigits 8 x.toNat

/-- The digest of some bytes in lower-case hex. -/
def ofBytes (message : ByteArray) : String := String.ofList (state message).hex

def ofText (text : String) : String := ofBytes text.toUTF8

theorem length_hexDigits (width n : Nat) : (hexDigits width n).length = width := by
  induction width generalizing n with
  | zero => rfl
  | succ width ih => simp [hexDigits, ih]

theorem length_ofBytes (message : ByteArray) : (ofBytes message).length = 64 := by
  simp [ofBytes, Words.hex, length_hexDigits]

end Rulebook.Digest
