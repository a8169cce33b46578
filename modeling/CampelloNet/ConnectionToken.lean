import CampelloNet.Crypto.HmacSha256

/-!
# Connection tokens

`ConnectionToken`: 32 bytes of issue time, expiry, reserved client id and nonce, and their HMAC. The
functions take the HMAC as an argument; the manager passes `hmacSha256`.
-/

namespace CampelloNet.ConnectionToken

open Lib

def SIZE : ℕ := 64

def load32le : Bytes → UInt32
  | b0 :: b1 :: b2 :: b3 :: _ => ofLe32 b0 b1 b2 b3
  | _ => 0

def load16le : Bytes → UInt16
  | b0 :: b1 :: _ => b0.toUInt16 ||| (b1.toUInt16 <<< 8)
  | _ => 0

def store16le (v : UInt16) : Bytes := [v.toUInt8, (v >>> 8).toUInt8]

/-- One turn of the xorshift of `fill_nonce`. -/
def xorshift (x : UInt32) : UInt32 :=
  let x := x ^^^ (x <<< 13)
  let x := x ^^^ (x >>> 17)
  x ^^^ (x <<< 5)

/-- The sixteen bytes of the nonce. The last four turns of the loop write the same word; its last two
bytes of the eight of `reserved` are overwritten by it. -/
def fillNonce (time : UInt32) (expiry : UInt16) (reserved : UInt64) : Bytes :=
  (le32 time ++ store16le expiry ++ le64 reserved).take 12 ++
    le32 (Nat.repeat xorshift 4 (time ^^^ 0x12345678))

/-- The token, unless the expiry is out of range. -/
def generate (hmac : Bytes → Bytes → Bytes) (secret : Bytes) (expirySeconds : UInt32)
    (reservedClientId : UInt64) (currentTimeUnix : UInt32) : Option Bytes :=
  if expirySeconds = 0 ∨ expirySeconds > 86400 then none
  else
    let expiry := expirySeconds.toUInt16
    let body := le32 currentTimeUnix ++ store16le expiry ++ le64 reservedClientId ++
      fillNonce currentTimeUnix expiry reservedClientId ++ [0, 0]
    some (body ++ hmac secret body)

def validate (hmac : Bytes → Bytes → Bytes) (token secret : Bytes) (currentTimeUnix : UInt32) : Bool :=
  if token.getD 30 0 ≠ 0 ∨ token.getD 31 0 ≠ 0 then false
  else
    let computed := hmac secret (token.take 32)
    let diff := (List.zipWith (· ^^^ ·) computed (token.drop 32)).foldl
      (fun d x => d ||| x.toUInt32) (0 : UInt32)
    if diff ≠ 0 then false
    else
      let issued := load32le token
      let expiry := load16le (token.drop 4)
      ¬(currentTimeUnix < issued ∨ currentTimeUnix > issued + expiry.toUInt32)

def reservedClientId (token : Bytes) : UInt64 :=
  match token.drop 6 with
  | b0 :: b1 :: b2 :: b3 :: b4 :: b5 :: b6 :: b7 :: _ => ofLe64 b0 b1 b2 b3 b4 b5 b6 b7
  | _ => 0

end CampelloNet.ConnectionToken
