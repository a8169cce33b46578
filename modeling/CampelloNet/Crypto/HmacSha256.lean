import CampelloNet.Lib.Bytes

/-!
# SHA-256 and HMAC

`hmac_sha256.cpp`. The block buffer is the list of the `datalen` bytes it holds; the message schedule
and the compression rounds are loops over what is left of them.
-/

namespace CampelloNet.Crypto

open Lib

namespace Sha256

def rotr (x n : UInt32) : UInt32 := (x >>> n) ||| (x <<< (32 - n))

def choose (x y z : UInt32) : UInt32 := (x &&& y) ^^^ (~~~x &&& z)

def maj (x y z : UInt32) : UInt32 := (x &&& y) ^^^ (x &&& z) ^^^ (y &&& z)

def ep0 (x : UInt32) : UInt32 := rotr x 2 ^^^ rotr x 13 ^^^ rotr x 22

def ep1 (x : UInt32) : UInt32 := rotr x 6 ^^^ rotr x 11 ^^^ rotr x 25

def sig0 (x : UInt32) : UInt32 := rotr x 7 ^^^ rotr x 18 ^^^ (x >>> 3)

def sig1 (x : UInt32) : UInt32 := rotr x 17 ^^^ rotr x 19 ^^^ (x >>> 10)

def K : List UInt32 :=
  [0x428a2f98, 0x71374491, 0xb5c0fbcf, 0xe9b5dba5, 0x3956c25b, 0x59f111f1, 0x923f82a4, 0xab1c5ed5,
    0xd807aa98, 0x12835b01, 0x243185be, 0x550c7dc3, 0x72be5d74, 0x80deb1fe, 0x9bdc06a7, 0xc19bf174,
    0xe49b69c1, 0xefbe4786, 0x0fc19dc6, 0x240ca1cc, 0x2de92c6f, 0x4a7484aa, 0x5cb0a9dc, 0x76f988da,
    0x983e5152, 0xa831c66d, 0xb00327c8, 0xbf597fc7, 0xc6e00bf3, 0xd5a79147, 0x06ca6351, 0x14292967,
    0x27b70a85, 0x2e1b2138, 0x4d2c6dfc, 0x53380d13, 0x650a7354, 0x766a0abb, 0x81c2c92e, 0x92722c85,
    0xa2bfe8a1, 0xa81a664b, 0xc24b8b70, 0xc76c51a3, 0xd192e819, 0xd6990624, 0xf40e3585, 0x106aa070,
    0x19a4c116, 0x1e376c08, 0x2748774c, 0x34b0bcb5, 0x391c0cb3, 0x4ed8aa4a, 0x5b9cca4f, 0x682e6ff3,
    0x748f82ee, 0x78a5636f, 0x84c87814, 0x8cc70208, 0x90befffa, 0xa4506ceb, 0xbef9a3f7, 0xc67178f2]

/-- The eight words of the hash state. -/
structure Words where
  a : UInt32
  b : UInt32
  c : UInt32
  d : UInt32
  e : UInt32
  f : UInt32
  g : UInt32
  h : UInt32
  deriving DecidableEq

def Words.toList (w : Words) : List UInt32 := [w.a, w.b, w.c, w.d, w.e, w.f, w.g, w.h]

def Words.add (w v : Words) : Words :=
  ⟨w.a + v.a, w.b + v.b, w.c + v.c, w.d + v.d, w.e + v.e, w.f + v.f, w.g + v.g, w.h + v.h⟩

def initial : Words :=
  ⟨0x6a09e667, 0xbb67ae85, 0x3c6ef372, 0xa54ff53a, 0x510e527f, 0x9b05688c, 0x1f83d9ab, 0x5be0cd19⟩

structure State where
  /-- the first `datalen` bytes of `data` -/
  data : Bytes := []
  bitlen : UInt64 := 0
  state : Words := initial

/-- The sixteen words of a block. -/
def blockWords : Bytes → List UInt32
  | b0 :: b1 :: b2 :: b3 :: rest => ofBe32 b0 b1 b2 b3 :: blockWords rest
  | _ => []

/-- `n` more words of the message schedule, after the words `m`. -/
def schedule : ℕ → List UInt32 → List UInt32
  | 0, m => m
  | n + 1, m =>
    let i := m.length
    schedule n (m ++ [sig1 (m.getD (i - 2) 0) + m.getD (i - 7) 0 + sig0 (m.getD (i - 15) 0) +
      m.getD (i - 16) 0])

/-- The rounds, from the constants and schedule words that are left. -/
def rounds : List (UInt32 × UInt32) → Words → Words
  | [], w => w
  | (k, m) :: rest, w =>
    let t1 := w.h + ep1 w.e + choose w.e w.f w.g + k + m
    let t2 := ep0 w.a + maj w.a w.b w.c
    rounds rest ⟨t1 + t2, w.a, w.b, w.c, w.d + t1, w.e, w.f, w.g⟩

/-- `sha256_transform` on one block of 64 bytes. -/
def transform (state : Words) (block : Bytes) : Words :=
  state.add (rounds (K.zip (schedule 48 (blockWords block))) state)

def update : Bytes → State → State
  | [], ctx => ctx
  | byte :: bytes, ctx =>
    let data := ctx.data ++ [byte]
    if data.length = 64 then
      update bytes { data := [], bitlen := ctx.bitlen + 512, state := transform ctx.state data }
    else update bytes { ctx with data := data }

def final (ctx : State) : Bytes :=
  let datalen := ctx.data.length
  let padded := ctx.data ++ [0x80]
  let (data, state) :=
    if datalen < 56 then (padded ++ List.replicate (56 - padded.length) 0, ctx.state)
    else
      (List.replicate 56 0,
        transform ctx.state (padded ++ List.replicate (64 - padded.length) 0))
  let bitlen := ctx.bitlen + .ofNat (datalen * 8)
  (transform state (data ++ be64 bitlen)).toList.flatMap be32

end Sha256

def sha256 (data : Bytes) : Bytes := Sha256.final (Sha256.update data {})

/-- The key XORed into a block of `pad` bytes. -/
def keyPad (pad : UInt8) (key : Bytes) : Bytes :=
  key.map (pad ^^^ ·) ++ List.replicate (64 - key.length) pad

def hmacSha256 (key message : Bytes) : Bytes :=
  let key := if key.length > 64 then sha256 key else key
  let inner := Sha256.final (Sha256.update message (Sha256.update (keyPad 0x36 key) {}))
  Sha256.final (Sha256.update inner (Sha256.update (keyPad 0x5c key) {}))

end CampelloNet.Crypto
