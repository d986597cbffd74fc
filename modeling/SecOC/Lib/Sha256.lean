import SecOC.Lib.Bytes

/-! SHA-256 on byte strings, and the HMAC built on it. -/

namespace Sha256
open Py

structure Chain where
  a : UInt32
  b : UInt32
  c : UInt32
  d : UInt32
  e : UInt32
  f : UInt32
  g : UInt32
  h : UInt32

def initial : Chain where
  a := 0x6a09e667
  b := 0xbb67ae85
  c := 0x3c6ef372
  d := 0xa54ff53a
  e := 0x510e527f
  f := 0x9b05688c
  g := 0x1f83d9ab
  h := 0x5be0cd19

def constants : List UInt32 :=
  [0x428a2f98, 0x71374491, 0xb5c0fbcf, 0xe9b5dba5, 0x3956c25b, 0x59f111f1, 0x923f82a4, 0xab1c5ed5,
   0xd807aa98, 0x12835b01, 0x243185be, 0x550c7dc3, 0x72be5d74, 0x80deb1fe, 0x9bdc06a7, 0xc19bf174,
   0xe49b69c1, 0xefbe4786, 0x0fc19dc6, 0x240ca1cc, 0x2de92c6f, 0x4a7484aa, 0x5cb0a9dc, 0x76f988da,
   0x983e5152, 0xa831c66d, 0xb00327c8, 0xbf597fc7, 0xc6e00bf3, 0xd5a79147, 0x06ca6351, 0x14292967,
   0x27b70a85, 0x2e1b2138, 0x4d2c6dfc, 0x53380d13, 0x650a7354, 0x766a0abb, 0x81c2c92e, 0x92722c85,
   0xa2bfe8a1, 0xa81a664b, 0xc24b8b70, 0xc76c51a3, 0xd192e819, 0xd6990624, 0xf40e3585, 0x106aa070,
   0x19a4c116, 0x1e376c08, 0x2748774c, 0x34b0bcb5, 0x391c0cb3, 0x4ed8aa4a, 0x5b9cca4f, 0x682e6ff3,
   0x748f82ee, 0x78a5636f, 0x84c87814, 0x8cc70208, 0x90befffa, 0xa4506ceb, 0xbef9a3f7, 0xc67178f2]

def rotr (x n : UInt32) : UInt32 := (x >>> n) ||| (x <<< (32 - n))

def nextWord (ws : List UInt32) : UInt32 :=
  let w := fun i => ws.getD (i - 1) 0
  let s0 := rotr (w 15) 7 ^^^ rotr (w 15) 18 ^^^ (w 15 >>> 3)
  let s1 := rotr (w 2) 17 ^^^ rotr (w 2) 19 ^^^ (w 2 >>> 10)
  w 16 + s0 + w 7 + s1

def extend : Nat → List UInt32 → List UInt32
  | 0, ws => ws
  | n + 1, ws => extend n (nextWord ws :: ws)

def words : Bytes → List UInt32
  | b0 :: b1 :: b2 :: b3 :: bs => UInt32.ofNat (fromBytesBE [b0, b1, b2, b3]) :: words bs
  | _ => []

def schedule (block : Bytes) : List UInt32 := (extend 48 (words block).reverse).reverse

def round (s : Chain) (kw : UInt32 × UInt32) : Chain :=
  let s1 := rotr s.e 6 ^^^ rotr s.e 11 ^^^ rotr s.e 25
  let ch := (s.e &&& s.f) ^^^ (~~~s.e &&& s.g)
  let t1 := s.h + s1 + ch + kw.1 + kw.2
  let s0 := rotr s.a 2 ^^^ rotr s.a 13 ^^^ rotr s.a 22
  let maj := (s.a &&& s.b) ^^^ (s.a &&& s.c) ^^^ (s.b &&& s.c)
  { a := t1 + s0 + maj, b := s.a, c := s.b, d := s.c, e := s.d + t1, f := s.e, g := s.f, h := s.g }

def compress (s : Chain) (block : Bytes) : Chain :=
  let r := (constants.zip (schedule block)).foldl round s
  { a := s.a + r.a, b := s.b + r.b, c := s.c + r.c, d := s.d + r.d
    e := s.e + r.e, f := s.f + r.f, g := s.g + r.g, h := s.h + r.h }

def pad (message : Bytes) : Bytes :=
  message ++ 0x80 :: List.replicate ((119 - message.length % 64) % 64) 0 ++
    toBytesBE 8 (message.length * 8)

def absorb : Nat → Chain → Bytes → Chain
  | 0, s, _ => s
  | n + 1, s, bs => absorb n (compress s (bs.take 64)) (bs.drop 64)

def Chain.bytes (s : Chain) : Bytes :=
  [s.a, s.b, s.c, s.d, s.e, s.f, s.g, s.h].flatMap fun w => toBytesBE 4 w.toNat

def hash (message : Bytes) : Bytes :=
  (absorb ((pad message).length / 64) initial (pad message)).bytes

def blockKey (key : Bytes) : Bytes :=
  let k := if 64 < key.length then hash key else key
  k ++ List.replicate (64 - k.length) 0

def hmac (key data : Bytes) : Bytes :=
  let k := blockKey key
  hash (k.map (· ^^^ 0x5c) ++ hash (k.map (· ^^^ 0x36) ++ data))

theorem hash_length (message : Bytes) : (hash message).length = 32 := by
  simp [hash, Chain.bytes]

theorem hmac_length (key data : Bytes) : (hmac key data).length = 32 := hash_length _

-- The key "Jefe" on "what do ya want for nothing?".
example : toHex (hmac [0x4a, 0x65, 0x66, 0x65]
    [0x77, 0x68, 0x61, 0x74, 0x20, 0x64, 0x6f, 0x20, 0x79, 0x61, 0x20, 0x77, 0x61, 0x6e, 0x74, 0x20,
      0x66, 0x6f, 0x72, 0x20, 0x6e, 0x6f, 0x74, 0x68, 0x69, 0x6e, 0x67, 0x3f]) =
    "5bdcc146bf60754e6a042426089575c75a003f089d2739839dec58b964ec3843" := by
  decide +kernel

end Sha256
