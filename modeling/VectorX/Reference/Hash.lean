import VectorX.Common.Bytes

/-!
# The hash functions of the deployment

SHA-256, Blake2b with a 32-byte digest and Keccak-256, as byte-string functions.
-/

/-! ## SHA-256 -/

namespace Sha256

open Bytes (slice beNat beBytes)

def initialState : List UInt32 :=
  [ 0x6a09e667, 0xbb67ae85, 0x3c6ef372, 0xa54ff53a,
    0x510e527f, 0x9b05688c, 0x1f83d9ab, 0x5be0cd19 ]

def roundConstants : List UInt32 :=
  [ 0x428a2f98, 0x71374491, 0xb5c0fbcf, 0xe9b5dba5, 0x3956c25b, 0x59f111f1,
    0x923f82a4, 0xab1c5ed5, 0xd807aa98, 0x12835b01, 0x243185be, 0x550c7dc3,
    0x72be5d74, 0x80deb1fe, 0x9bdc06a7, 0xc19bf174, 0xe49b69c1, 0xefbe4786,
    0x0fc19dc6, 0x240ca1cc, 0x2de92c6f, 0x4a7484aa, 0x5cb0a9dc, 0x76f988da,
    0x983e5152, 0xa831c66d, 0xb00327c8, 0xbf597fc7, 0xc6e00bf3, 0xd5a79147,
    0x06ca6351, 0x14292967, 0x27b70a85, 0x2e1b2138, 0x4d2c6dfc, 0x53380d13,
    0x650a7354, 0x766a0abb, 0x81c2c92e, 0x92722c85, 0xa2bfe8a1, 0xa81a664b,
    0xc24b8b70, 0xc76c51a3, 0xd192e819, 0xd6990624, 0xf40e3585, 0x106aa070,
    0x19a4c116, 0x1e376c08, 0x2748774c, 0x34b0bcb5, 0x391c0cb3, 0x4ed8aa4a,
    0x5b9cca4f, 0x682e6ff3, 0x748f82ee, 0x78a5636f, 0x84c87814, 0x8cc70208,
    0x90befffa, 0xa4506ceb, 0xbef9a3f7, 0xc67178f2 ]

def rotateRight (x n : UInt32) : UInt32 := x >>> n ||| x <<< (32 - n)

/-- The first `n` words of the message schedule that continues 16 words. -/
def schedule : ℕ → List UInt32 → List UInt32
  | 0, _ => []
  | n + 1, w =>
    let w1 := w.getD 1 0
    let w14 := w.getD 14 0
    let s0 := rotateRight w1 7 ^^^ rotateRight w1 18 ^^^ w1 >>> 3
    let s1 := rotateRight w14 17 ^^^ rotateRight w14 19 ^^^ w14 >>> 10
    w.getD 0 0 :: schedule n (w.drop 1 ++ [w.getD 0 0 + s0 + w.getD 9 0 + s1])

/-- One round, on the working variables `[a, b, c, d, e, f, g, h]`. -/
def round (v : List UInt32) (kw : UInt32 × UInt32) : List UInt32 :=
  match v with
  | [a, b, c, d, e, f, g, h] =>
    let s1 := rotateRight e 6 ^^^ rotateRight e 11 ^^^ rotateRight e 25
    let ch := (e &&& f) ^^^ (~~~e &&& g)
    let t1 := h + s1 + ch + kw.1 + kw.2
    let s0 := rotateRight a 2 ^^^ rotateRight a 13 ^^^ rotateRight a 22
    let maj := (a &&& b) ^^^ (a &&& c) ^^^ (b &&& c)
    [t1 + (s0 + maj), a, b, c, d + t1, e, f, g]
  | _ => v

/-- The compression function on one block of 64 bytes. -/
def compress (state : List UInt32) (block : List UInt8) : List UInt32 :=
  let words := (List.range 16).map fun i => UInt32.ofNat (beNat (slice block (4 * i) 4))
  let v := (roundConstants.zip (schedule 64 words)).foldl round state
  List.zipWith (· + ·) state v

def padding (length : ℕ) : List UInt8 :=
  0x80 :: List.replicate ((119 - length % 64) % 64) 0 ++ beBytes 8 (8 * length)

/-- The SHA-256 digest. -/
def hash (msg : List UInt8) : List UInt8 :=
  let padded := msg ++ padding msg.length
  let state := (List.range (padded.length / 64)).foldl
    (fun state i => compress state (slice padded (64 * i) 64)) initialState
  (List.range 8).flatMap fun i => beBytes 4 (state.getD i 0).toNat

theorem length_hash (msg : List UInt8) : (hash msg).length = 32 := by
  simp [hash, List.length_flatMap]

end Sha256

/-! ## Blake2b -/

namespace Blake2b

open Bytes (slice leNat leBytes)

def initialState : List UInt64 :=
  [ 0x6a09e667f3bcc908, 0xbb67ae8584caa73b, 0x3c6ef372fe94f82b,
    0xa54ff53a5f1d36f1, 0x510e527fade682d1, 0x9b05688c2b3e6c1f,
    0x1f83d9abfb41bd6b, 0x5be0cd19137e2179 ]

/-- The order in which the message words enter each round. -/
def permutations : List (List ℕ) :=
  [ [0, 1, 2, 3, 4, 5, 6, 7, 8, 9, 10, 11, 12, 13, 14, 15],
    [14, 10, 4, 8, 9, 15, 13, 6, 1, 12, 0, 2, 11, 7, 5, 3],
    [11, 8, 12, 0, 5, 2, 15, 13, 10, 14, 3, 6, 7, 1, 9, 4],
    [7, 9, 3, 1, 13, 12, 11, 14, 2, 6, 5, 10, 4, 0, 15, 8],
    [9, 0, 5, 7, 2, 4, 10, 15, 14, 1, 11, 12, 6, 8, 3, 13],
    [2, 12, 6, 10, 0, 11, 8, 3, 4, 13, 7, 5, 15, 14, 1, 9],
    [12, 5, 1, 15, 14, 13, 4, 10, 0, 7, 6, 3, 9, 2, 8, 11],
    [13, 11, 7, 14, 12, 1, 3, 9, 5, 0, 15, 4, 8, 6, 2, 10],
    [6, 15, 14, 9, 11, 3, 0, 8, 12, 2, 13, 7, 1, 4, 10, 5],
    [10, 2, 8, 4, 7, 6, 1, 5, 15, 11, 9, 14, 3, 12, 13, 0] ]

def rotateRight (x n : UInt64) : UInt64 := x >>> n ||| x <<< (64 - n)

/-- The mixing function on four of the sixteen working words. -/
def mix (v : List UInt64) (a b c d : ℕ) (x y : UInt64) : List UInt64 :=
  let va := v.getD a 0 + v.getD b 0 + x
  let vd := rotateRight (v.getD d 0 ^^^ va) 32
  let vc := v.getD c 0 + vd
  let vb := rotateRight (v.getD b 0 ^^^ vc) 24
  let va := va + vb + y
  let vd := rotateRight (vd ^^^ va) 16
  let vc := vc + vd
  let vb := rotateRight (vb ^^^ vc) 63
  (((v.set a va).set b vb).set c vc).set d vd

/-- The working words of the columns, then of the diagonals. -/
def lanes : List (ℕ × ℕ × ℕ × ℕ) :=
  [ (0, 4, 8, 12), (1, 5, 9, 13), (2, 6, 10, 14), (3, 7, 11, 15),
    (0, 5, 10, 15), (1, 6, 11, 12), (2, 7, 8, 13), (3, 4, 9, 14) ]

def round (m v : List UInt64) (r : ℕ) : List UInt64 :=
  let s := permutations.getD (r % 10) []
  lanes.zipIdx.foldl (fun v lane =>
    let ((a, b, c, d), i) := lane
    mix v a b c d (m.getD (s.getD (2 * i) 0) 0) (m.getD (s.getD (2 * i + 1) 0) 0)) v

/-- The compression function on one block of 128 bytes, after `t` bytes of input. -/
def compress (h : List UInt64) (block : List UInt8) (t : ℕ) (isLast : Bool) : List UInt64 :=
  let m := (List.range 16).map fun i => UInt64.ofNat (leNat (slice block (8 * i) 8))
  let v := h ++ initialState
  let v := v.set 12 (v.getD 12 0 ^^^ UInt64.ofNat t)
  let v := v.set 14 (if isLast then ~~~(v.getD 14 0) else v.getD 14 0)
  let v := (List.range 12).foldl (round m) v
  (List.range 8).map fun i => h.getD i 0 ^^^ v.getD i 0 ^^^ v.getD (i + 8) 0

/-- The Blake2b digest of 32 bytes, without a key. -/
def hash (msg : List UInt8) : List UInt8 :=
  let blocks := max 1 ((msg.length + 127) / 128)
  let padded := msg ++ List.replicate (128 * blocks - msg.length) 0
  let h := initialState.set 0 (initialState.getD 0 0 ^^^ 0x01010020)
  let h := (List.range blocks).foldl (fun h i =>
    compress h (slice padded (128 * i) 128) (min (128 * (i + 1)) msg.length) (i + 1 == blocks)) h
  (List.range 4).flatMap fun i => leBytes 8 (h.getD i 0).toNat

theorem length_hash (msg : List UInt8) : (hash msg).length = 32 := by
  simp [hash, List.length_flatMap]

end Blake2b

/-! ## Keccak-256 -/

namespace Keccak256

open Bytes (slice leNat leBytes)

def roundConstants : List UInt64 :=
  [ 0x0000000000000001, 0x0000000000008082, 0x800000000000808a,
    0x8000000080008000, 0x000000000000808b, 0x0000000080000001,
    0x8000000080008081, 0x8000000000008009, 0x000000000000008a,
    0x0000000000000088, 0x0000000080008009, 0x000000008000000a,
    0x000000008000808b, 0x800000000000008b, 0x8000000000008089,
    0x8000000000008003, 0x8000000000008002, 0x8000000000000080,
    0x000000000000800a, 0x800000008000000a, 0x8000000080008081,
    0x8000000000008080, 0x0000000080000001, 0x8000000080008008 ]

/-- The rotation of lane `x + 5 * y`. -/
def offsets : List UInt64 :=
  [ 0, 1, 62, 28, 27,
    36, 44, 6, 55, 20,
    3, 10, 43, 25, 39,
    41, 45, 15, 21, 8,
    18, 2, 61, 56, 14 ]

def rotateLeft (x n : UInt64) : UInt64 := if n = 0 then x else x <<< n ||| x >>> (64 - n)

/-- One round of the permutation, on the 25 lanes. -/
def round (a : List UInt64) (rc : UInt64) : List UInt64 :=
  let c := (List.range 5).map fun x =>
    a.getD x 0 ^^^ a.getD (x + 5) 0 ^^^ a.getD (x + 10) 0 ^^^ a.getD (x + 15) 0 ^^^ a.getD (x + 20) 0
  let theta := (List.range 25).map fun i =>
    a.getD i 0 ^^^ c.getD ((i % 5 + 4) % 5) 0 ^^^ rotateLeft (c.getD ((i % 5 + 1) % 5) 0) 1
  -- lane (x, y) of the rotated state comes from lane (x + 3 * y, x)
  let b := (List.range 25).map fun i =>
    let src := (i % 5 + 3 * (i / 5)) % 5 + 5 * (i % 5)
    rotateLeft (theta.getD src 0) (offsets.getD src 0)
  let chi := (List.range 25).map fun i =>
    let row := 5 * (i / 5)
    b.getD i 0 ^^^ (~~~(b.getD (row + (i % 5 + 1) % 5) 0) &&& b.getD (row + (i % 5 + 2) % 5) 0)
  chi.set 0 (chi.getD 0 0 ^^^ rc)

/-- Absorb one block of 136 bytes. -/
def absorb (a : List UInt64) (block : List UInt8) : List UInt64 :=
  let a := (List.range 25).map fun i =>
    if i < 17 then a.getD i 0 ^^^ UInt64.ofNat (leNat (slice block (8 * i) 8)) else a.getD i 0
  roundConstants.foldl round a

def padding (length : ℕ) : List UInt8 :=
  let n := 136 - length % 136
  if n = 1 then [0x81] else 0x01 :: List.replicate (n - 2) 0 ++ [0x80]

/-- The Keccak-256 digest. -/
def hash (msg : List UInt8) : List UInt8 :=
  let padded := msg ++ padding msg.length
  let a := (List.range (padded.length / 136)).foldl
    (fun a i => absorb a (slice padded (136 * i) 136)) (List.replicate 25 0)
  (List.range 4).flatMap fun i => leBytes 8 (a.getD i 0).toNat

theorem length_hash (msg : List UInt8) : (hash msg).length = 32 := by
  simp [hash, List.length_flatMap]

end Keccak256
