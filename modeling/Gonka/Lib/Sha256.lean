/-
SHA-256 (FIPS 180-4), on lists of bytes.

`sha256 msg` pads the message to a whole number of 64-byte blocks, folds the
compression function over them and writes the eight state words in big-endian
order.  Nothing in the development depends on how the digest is computed,
except for its length (`length_sha256`) and for the runs on fixed inputs, which
evaluate it in the kernel; where a result needs the absence of collisions it
says between which inputs.
-/
import Mathlib.Algebra.Group.Nat.Defs
import Mathlib.Data.Set.Function

namespace Sha256

/-- The eight working variables, 32-bit words held as natural numbers. -/
structure State where
  a : ℕ
  b : ℕ
  c : ℕ
  d : ℕ
  e : ℕ
  f : ℕ
  g : ℕ
  h : ℕ
  deriving DecidableEq

/-- The initial hash value: the fractional parts of the square roots of the
first eight primes. -/
def initial : State where
  a := 0x6a09e667
  b := 0xbb67ae85
  c := 0x3c6ef372
  d := 0xa54ff53a
  e := 0x510e527f
  f := 0x9b05688c
  g := 0x1f83d9ab
  h := 0x5be0cd19

/-- The round constants: the fractional parts of the cube roots of the first
sixty-four primes. -/
def roundConstants : List ℕ :=
  [0x428a2f98, 0x71374491, 0xb5c0fbcf, 0xe9b5dba5, 0x3956c25b, 0x59f111f1, 0x923f82a4, 0xab1c5ed5,
   0xd807aa98, 0x12835b01, 0x243185be, 0x550c7dc3, 0x72be5d74, 0x80deb1fe, 0x9bdc06a7, 0xc19bf174,
   0xe49b69c1, 0xefbe4786, 0x0fc19dc6, 0x240ca1cc, 0x2de92c6f, 0x4a7484aa, 0x5cb0a9dc, 0x76f988da,
   0x983e5152, 0xa831c66d, 0xb00327c8, 0xbf597fc7, 0xc6e00bf3, 0xd5a79147, 0x06ca6351, 0x14292967,
   0x27b70a85, 0x2e1b2138, 0x4d2c6dfc, 0x53380d13, 0x650a7354, 0x766a0abb, 0x81c2c92e, 0x92722c85,
   0xa2bfe8a1, 0xa81a664b, 0xc24b8b70, 0xc76c51a3, 0xd192e819, 0xd6990624, 0xf40e3585, 0x106aa070,
   0x19a4c116, 0x1e376c08, 0x2748774c, 0x34b0bcb5, 0x391c0cb3, 0x4ed8aa4a, 0x5b9cca4f, 0x682e6ff3,
   0x748f82ee, 0x78a5636f, 0x84c87814, 0x8cc70208, 0x90befffa, 0xa4506ceb, 0xbef9a3f7, 0xc67178f2]

/-- Addition modulo `2 ^ 32`. -/
def add (x y : ℕ) : ℕ := (x + y) % 2 ^ 32

def rotr (x n : ℕ) : ℕ := (x >>> n) ||| ((x <<< (32 - n)) % 2 ^ 32)

def bigSigma0 (x : ℕ) : ℕ := rotr x 2 ^^^ rotr x 13 ^^^ rotr x 22
def bigSigma1 (x : ℕ) : ℕ := rotr x 6 ^^^ rotr x 11 ^^^ rotr x 25
def smallSigma0 (x : ℕ) : ℕ := rotr x 7 ^^^ rotr x 18 ^^^ (x >>> 3)
def smallSigma1 (x : ℕ) : ℕ := rotr x 17 ^^^ rotr x 19 ^^^ (x >>> 10)
def ch (x y z : ℕ) : ℕ := (x &&& y) ^^^ ((0xffffffff ^^^ x) &&& z)
def maj (x y z : ℕ) : ℕ := (x &&& y) ^^^ (x &&& z) ^^^ (y &&& z)

/-- One of the sixty-four rounds, with round constant `k` and schedule word `w`. -/
def round (s : State) (k w : ℕ) : State :=
  let t1 := add (add (add (add s.h (bigSigma1 s.e)) (ch s.e s.f s.g)) k) w
  let t2 := add (bigSigma0 s.a) (maj s.a s.b s.c)
  { a := add t1 t2, b := s.a, c := s.b, d := s.c, e := add s.d t1, f := s.e, g := s.f, h := s.g }

/-- The rounds of one block.  `window` holds the next sixteen words of the
message schedule: the first one is consumed, and the word sixteen places later
takes its place at the end. -/
def rounds : List ℕ → List ℕ → State → State
  | [], _, s => s
  | k :: ks, window, s =>
    let w := window.getD 0 0
    let next := add (add (smallSigma1 (window.getD 14 0)) (window.getD 9 0))
      (add (smallSigma0 (window.getD 1 0)) w)
    rounds ks (window.tail ++ [next]) (round s k w)

/-- The compression function. -/
def compress (s : State) (block : List ℕ) : State :=
  let r := rounds roundConstants block s
  { a := add s.a r.a, b := add s.b r.b, c := add s.c r.c, d := add s.d r.d,
    e := add s.e r.e, f := add s.f r.f, g := add s.g r.g, h := add s.h r.h }

/-- Big-endian words of a list of bytes. -/
def words : List UInt8 → List ℕ
  | a :: b :: c :: d :: rest =>
    ((((a.toNat * 256) + b.toNat) * 256 + c.toNat) * 256 + d.toNat) :: words rest
  | _ => []

/-- The four bytes of a word, most significant first. -/
def wordBytes (w : ℕ) : List UInt8 :=
  [UInt8.ofNat (w >>> 24), UInt8.ofNat (w >>> 16), UInt8.ofNat (w >>> 8), UInt8.ofNat w]

/-- The message followed by `0x80`, zeros, and its length in bits as eight
bytes; a multiple of sixty-four bytes. -/
def pad (msg : List UInt8) : List UInt8 :=
  let bits := 8 * msg.length
  let zeros : List UInt8 := List.replicate ((119 - msg.length % 64) % 64) 0
  let lengthBytes := (List.range 8).map fun i => UInt8.ofNat (bits >>> (8 * (7 - i)))
  msg ++ [0x80] ++ zeros ++ lengthBytes

/-- Fold the compression function over `n` blocks of sixteen words. -/
def absorb : ℕ → List ℕ → State → State
  | 0, _, s => s
  | n + 1, ws, s => absorb n (ws.drop 16) (compress s (ws.take 16))

end Sha256

open Sha256 in
def sha256 (msg : List UInt8) : List UInt8 :=
  let ws := words (pad msg)
  let s := absorb (ws.length / 16) ws initial
  wordBytes s.a ++ wordBytes s.b ++ wordBytes s.c ++ wordBytes s.d
    ++ wordBytes s.e ++ wordBytes s.f ++ wordBytes s.g ++ wordBytes s.h

@[simp] theorem length_sha256 (msg : List UInt8) : (sha256 msg).length = 32 := rfl

-- the one-block example of the standard, on the bytes of `abc`
example : sha256 [0x61, 0x62, 0x63] =
    [0xba, 0x78, 0x16, 0xbf, 0x8f, 0x01, 0xcf, 0xea, 0x41, 0x41, 0x40, 0xde, 0x5d, 0xae, 0x22, 0x23,
     0xb0, 0x03, 0x61, 0xa3, 0x96, 0x17, 0x7a, 0x9c, 0xb4, 0x10, 0xff, 0x61, 0xf2, 0x00, 0x15, 0xad] := by
  decide +kernel
