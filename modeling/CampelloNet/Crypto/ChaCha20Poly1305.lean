import CampelloNet.Lib.Bytes

/-!
# ChaCha20-Poly1305

`chachapoly.cpp`, function by function: the ChaCha20 block function and stream, the Poly1305
accumulator in five limbs of 26 bits, and the AEAD construction over both. Keys and nonces have
their sizes as types. A `memcpy` to the partly filled Poly1305 buffer appends to the list of the
bytes it holds.
-/

namespace CampelloNet.Crypto

open Lib

abbrev Key := Vector UInt8 32

abbrev Nonce := Vector UInt8 12

/-! ### Words -/

/-- The word at the start of some bytes; every caller has four of them. -/
def load32le : Bytes → UInt32
  | b0 :: b1 :: b2 :: b3 :: _ => ofLe32 b0 b1 b2 b3
  | _ => 0

def store64le (v : UInt64) : Bytes := le32 v.toUInt32 ++ le32 (v >>> 32).toUInt32

def rotl (x n : UInt32) : UInt32 := (x <<< n) ||| (x >>> (32 - n))

/-! ### ChaCha20 -/

/-- A quarter round on the words `a`, `b`, `c`, `d`. -/
def qr (x : Vector UInt32 16) (a b c d : Fin 16) : Vector UInt32 16 :=
  let x := x.set a (x[a] + x[b])
  let x := x.set d (x[d] ^^^ x[a])
  let x := x.set d (rotl x[d] 16)
  let x := x.set c (x[c] + x[d])
  let x := x.set b (x[b] ^^^ x[c])
  let x := x.set b (rotl x[b] 12)
  let x := x.set a (x[a] + x[b])
  let x := x.set d (x[d] ^^^ x[a])
  let x := x.set d (rotl x[d] 8)
  let x := x.set c (x[c] + x[d])
  let x := x.set b (x[b] ^^^ x[c])
  x.set b (rotl x[b] 7)

/-- Four column rounds and four diagonal rounds. -/
def doubleRound (x : Vector UInt32 16) : Vector UInt32 16 :=
  let x := qr x 0 4 8 12
  let x := qr x 1 5 9 13
  let x := qr x 2 6 10 14
  let x := qr x 3 7 11 15
  let x := qr x 0 5 10 15
  let x := qr x 1 6 11 12
  let x := qr x 2 7 8 13
  qr x 3 4 9 14

def chacha20State (key : Key) (counter : UInt32) (nonce : Nonce) : Vector UInt32 16 :=
  let k := key.toList
  let n := nonce.toList
  #v[0x61707865, 0x3320646e, 0x79622d32, 0x6b206574,
    load32le k, load32le (k.drop 4), load32le (k.drop 8), load32le (k.drop 12),
    load32le (k.drop 16), load32le (k.drop 20), load32le (k.drop 24), load32le (k.drop 28),
    counter, load32le n, load32le (n.drop 4), load32le (n.drop 8)]

/-- The 64 bytes of one block. -/
def chacha20Block (key : Key) (counter : UInt32) (nonce : Nonce) : Bytes :=
  let state := chacha20State key counter nonce
  let working := Nat.repeat doubleRound 10 state
  (working.zipWith (· + ·) state).toList.flatMap le32

/-- The loop of `chacha20_crypt`, of as many turns as `data` has blocks. -/
def cryptBlocks (key : Key) (nonce : Nonce) : Nat → UInt32 → Bytes → Bytes
  | 0, _, data => data
  | n + 1, counter, data =>
    List.zipWith (· ^^^ ·) (data.take 64) (chacha20Block key counter nonce) ++
      cryptBlocks key nonce n (counter + 1) (data.drop 64)

def chacha20Crypt (key : Key) (nonce : Nonce) (counter : UInt32) (data : Bytes) : Bytes :=
  cryptBlocks key nonce ((data.length + 63) / 64) counter data

/-! ### Poly1305 -/

/-- A number in limbs of 26 bits. -/
structure Limbs where
  l0 : UInt32
  l1 : UInt32
  l2 : UInt32
  l3 : UInt32
  l4 : UInt32
  deriving DecidableEq

structure Poly1305State where
  /-- clamped key -/
  r : Limbs
  /-- accumulator -/
  h : Limbs
  /-- s -/
  pad : Vector UInt32 4
  /-- the `leftover` bytes -/
  buffer : Bytes

/-- Sixteen bytes as limbs, the top one with `hibit`. -/
def Limbs.ofBlock (m : Bytes) (hibit : UInt32) : Limbs :=
  let b0 := load32le m
  let b1 := load32le (m.drop 4)
  let b2 := load32le (m.drop 8)
  let b3 := load32le (m.drop 12)
  { l0 := b0 &&& 0x3ffffff
    l1 := ((b0 >>> 26) ||| (b1 <<< 6)) &&& 0x3ffffff
    l2 := ((b1 >>> 20) ||| (b2 <<< 12)) &&& 0x3ffffff
    l3 := ((b2 >>> 14) ||| (b3 <<< 18)) &&& 0x3ffffff
    l4 := (b3 >>> 8) ||| hibit }

def Limbs.add (h m : Limbs) : Limbs :=
  ⟨h.l0 + m.l0, h.l1 + m.l1, h.l2 + m.l2, h.l3 + m.l3, h.l4 + m.l4⟩

/-- `h *= r`, the carries, and the reduction of what is above 130 bits. -/
def Limbs.mul (h r : Limbs) : Limbs :=
  let s1 := r.l1 * 5
  let s2 := r.l2 * 5
  let s3 := r.l3 * 5
  let s4 := r.l4 * 5
  let d0 := h.l0.toUInt64 * r.l0.toUInt64 + h.l1.toUInt64 * s4.toUInt64 +
    h.l2.toUInt64 * s3.toUInt64 + h.l3.toUInt64 * s2.toUInt64 + h.l4.toUInt64 * s1.toUInt64
  let d1 := h.l0.toUInt64 * r.l1.toUInt64 + h.l1.toUInt64 * r.l0.toUInt64 +
    h.l2.toUInt64 * s4.toUInt64 + h.l3.toUInt64 * s3.toUInt64 + h.l4.toUInt64 * s2.toUInt64
  let d2 := h.l0.toUInt64 * r.l2.toUInt64 + h.l1.toUInt64 * r.l1.toUInt64 +
    h.l2.toUInt64 * r.l0.toUInt64 + h.l3.toUInt64 * s4.toUInt64 + h.l4.toUInt64 * s3.toUInt64
  let d3 := h.l0.toUInt64 * r.l3.toUInt64 + h.l1.toUInt64 * r.l2.toUInt64 +
    h.l2.toUInt64 * r.l1.toUInt64 + h.l3.toUInt64 * r.l0.toUInt64 + h.l4.toUInt64 * s4.toUInt64
  let d4 := h.l0.toUInt64 * r.l4.toUInt64 + h.l1.toUInt64 * r.l3.toUInt64 +
    h.l2.toUInt64 * r.l2.toUInt64 + h.l3.toUInt64 * r.l1.toUInt64 + h.l4.toUInt64 * r.l0.toUInt64
  let c := (d0 >>> 26).toUInt32
  let h0 := d0.toUInt32 &&& 0x3ffffff
  let d1 := d1 + c.toUInt64
  let c := (d1 >>> 26).toUInt32
  let h1 := d1.toUInt32 &&& 0x3ffffff
  let d2 := d2 + c.toUInt64
  let c := (d2 >>> 26).toUInt32
  let h2 := d2.toUInt32 &&& 0x3ffffff
  let d3 := d3 + c.toUInt64
  let c := (d3 >>> 26).toUInt32
  let h3 := d3.toUInt32 &&& 0x3ffffff
  let d4 := d4 + c.toUInt64
  let c := (d4 >>> 26).toUInt32
  let h4 := d4.toUInt32 &&& 0x3ffffff
  let h0 := h0 + c * 5
  let c := h0 >>> 26
  let h0 := h0 &&& 0x3ffffff
  ⟨h0, h1 + c, h2, h3, h4⟩

/-- One block added to the accumulator. -/
def Poly1305State.absorb (st : Poly1305State) (m : Bytes) (hibit : UInt32) : Poly1305State :=
  { st with h := (st.h.add (.ofBlock m hibit)).mul st.r }

def poly1305Init (key : Key) : Poly1305State :=
  let clamped := key
  let clamped := clamped.set 3 (clamped[3] &&& 0x0f)
  let clamped := clamped.set 7 (clamped[7] &&& 0x0f)
  let clamped := clamped.set 11 (clamped[11] &&& 0x0f)
  let clamped := clamped.set 15 (clamped[15] &&& 0x0f)
  let clamped := clamped.set 4 (clamped[4] &&& 0xfe)
  let clamped := clamped.set 8 (clamped[8] &&& 0xfe)
  let clamped := clamped.set 12 (clamped[12] &&& 0xfe)
  let c := clamped.toList
  let k := key.toList
  let t0 := load32le c
  let t1 := load32le (c.drop 4)
  let t2 := load32le (c.drop 8)
  let t3 := load32le (c.drop 12)
  { r :=
      { l0 := t0 &&& 0x3ffffff
        l1 := ((t0 >>> 26) ||| (t1 <<< 6)) &&& 0x3ffffff
        l2 := ((t1 >>> 20) ||| (t2 <<< 12)) &&& 0x3ffffff
        l3 := ((t2 >>> 14) ||| (t3 <<< 18)) &&& 0x3ffffff
        l4 := (t3 >>> 8) &&& 0x3ffffff }
    h := ⟨0, 0, 0, 0, 0⟩
    pad := #v[load32le (k.drop 16), load32le (k.drop 20), load32le (k.drop 24),
      load32le (k.drop 28)]
    buffer := [] }

/-- The loop of `poly1305_blocks`, of as many turns as `m` has whole blocks. -/
def poly1305Blocks (hibit : UInt32) : Nat → Bytes → Poly1305State → Poly1305State
  | 0, _, st => st
  | n + 1, m, st => poly1305Blocks hibit n (m.drop 16) (st.absorb (m.take 16) hibit)

/-- `1u << 24`: the bit above a whole block. -/
def hibit : UInt32 := 0x1000000

/-- The part of `poly1305_update` that runs with an empty buffer. -/
def poly1305Whole (st : Poly1305State) (m : Bytes) : Poly1305State :=
  let n := m.length / 16
  { poly1305Blocks hibit n m st with buffer := st.buffer ++ m.drop (16 * n) }

def poly1305Update (st : Poly1305State) (m : Bytes) : Poly1305State :=
  if st.buffer.length ≠ 0 then
    let want := min (16 - st.buffer.length) m.length
    let st := { st with buffer := st.buffer ++ m.take want }
    if st.buffer.length < 16 then st
    else poly1305Whole { st.absorb st.buffer hibit with buffer := [] } (m.drop want)
  else poly1305Whole st m

/-- The words of the low 128 bits of an accumulator. -/
def Limbs.pack (h : Limbs) : Vector UInt32 4 :=
  #v[h.l0 ||| (h.l1 <<< 26), (h.l1 >>> 6) ||| (h.l2 <<< 20), (h.l2 >>> 12) ||| (h.l3 <<< 14),
    (h.l3 >>> 18) ||| ((h.l4 &&& 0x00ffffff) <<< 8)]

/-- Add `s` to the packed accumulator word by word, from the carry `u`. -/
def addPad (u : UInt64) : List (UInt32 × UInt32) → Bytes
  | [] => []
  | (word, pad) :: rest =>
    let u := u + (word.toUInt64 + pad.toUInt64)
    le32 u.toUInt32 ++ addPad (u >>> 32) rest

def poly1305Finish (st : Poly1305State) : Bytes :=
  -- a partial block carries its high bit in the byte after it
  let st := if st.buffer.length ≠ 0 then
      st.absorb (st.buffer ++ 1 :: List.replicate (15 - st.buffer.length) 0) 0
    else st
  addPad 0 (st.h.pack.toList.zip st.pad.toList)

/-! ### The AEAD construction -/

/-- Absorb some data and pad it to whole blocks. -/
def updatePadded (st : Poly1305State) (data : Bytes) : Poly1305State :=
  if data.length > 0 then
    let st := poly1305Update st data
    let pad := 16 - data.length % 16
    if pad < 16 then poly1305Update st (List.replicate pad 0) else st
  else st

def aeadComputeTag (polyKey : Key) (aad ciphertext : Bytes) : Bytes :=
  let st := poly1305Init polyKey
  let st := updatePadded st aad
  let st := updatePadded st ciphertext
  let lenBlock := store64le (.ofNat aad.length) ++ store64le (.ofNat ciphertext.length)
  poly1305Finish (poly1305Update st lenBlock)

namespace ChaCha20Poly1305

def NONCE_SIZE : Nat := 12

def TAG_SIZE : Nat := 16

/-- The first 32 bytes of a block, as the one-time key or a session key. -/
def lowKey (block : Bytes) : Key := Vector.ofFn fun i => block.getD i 0

def highKey (block : Bytes) : Key := Vector.ofFn fun i => block.getD (32 + i) 0

/-- `seal`: the ciphertext and its tag, if `out` has room for them. -/
def sealed (key : Key) (nonce : Nonce) (aad plaintext : Bytes) (outLen : Nat) : Option Bytes :=
  if outLen < plaintext.length + TAG_SIZE then none
  else
    let polyKey := lowKey (chacha20Block key 0 nonce)
    let out := chacha20Crypt key nonce 1 plaintext
    some (out ++ aeadComputeTag polyKey aad out)

/-- `open`: the plaintext, if the tag is right and `out` has room for it. -/
def opened (key : Key) (nonce : Nonce) (aad ciphertext : Bytes) (outLen : Nat) : Option Bytes :=
  if ciphertext.length < TAG_SIZE then none
  else if outLen < ciphertext.length - TAG_SIZE then none
  else
    let encrypted := ciphertext.take (ciphertext.length - TAG_SIZE)
    let tag := ciphertext.drop (ciphertext.length - TAG_SIZE)
    let polyKey := lowKey (chacha20Block key 0 nonce)
    let computedTag := aeadComputeTag polyKey aad encrypted
    let diff := (List.zipWith (· ^^^ ·) computedTag tag).foldl (fun d x => d ||| x.toUInt32)
      (0 : UInt32)
    if diff ≠ 0 then none else some (chacha20Crypt key nonce 1 encrypted)

/-- The client-to-server and the server-to-client key of a master key. -/
def deriveKeys (masterKey : Key) : Key × Key :=
  let block := chacha20Block masterKey 0 (Vector.replicate 12 0)
  (lowKey block, highKey block)

end ChaCha20Poly1305

end CampelloNet.Crypto
