import CampelloNet.ConnectionToken
import Mathlib.Tactic.IntervalCases

/-!
# The lifetime of a connection token

A token is valid from its issue until its expiry (`validate_signed`), whatever the HMAC is. The expiry
is asked for in 32 bits and kept in 16, so a token for 65536 seconds or more expires too early
(`lifetime_iff`).
-/

namespace CampelloNet.ConnectionToken

open Lib Crypto

@[simp] theorem load32le_le32 (x : UInt32) (rest : Bytes) : load32le (le32 x ++ rest) = x :=
  ofLe32_le32 x

@[simp] theorem load16le_store16le (x : UInt16) (rest : Bytes) :
    load16le (store16le x ++ rest) = x := by
  apply UInt16.toNat_inj.mp
  have hx := x.toNat_lt
  have hhigh : ((x >>> 8).toUInt8.toUInt16 <<< 8).toNat = x.toNat / 2 ^ 8 * 2 ^ 8 := by
    simp [Nat.shiftRight_eq_div_pow, Nat.shiftLeft_eq]
    omega
  show (x.toUInt8.toUInt16 ||| ((x >>> 8).toUInt8.toUInt16 <<< 8)).toNat = x.toNat
  rw [UInt16.or_comm, UInt16.toNat_or, hhigh, or_eq_add (k := 8) (by omega) (by simp; omega)]
  simp
  omega

theorem foldl_zipWith_xor_self (l : Bytes) :
    (List.zipWith (· ^^^ ·) l l).foldl (fun d x => d ||| x.toUInt32) (0 : UInt32) = 0 := by
  induction l with
  | nil => rfl
  | cons b l ih => simpa using ih

/-- The signed part of a token: its issue time, its expiry, and what `validate` does not read. -/
structure Body (t : UInt32) (expiry : UInt16) (body : Bytes) : Prop where
  parts : ∃ rest, body = le32 t ++ (store16le expiry ++ rest)
  length : body.length = 32
  reserved : body.drop 30 = [0, 0]

theorem generate_eq {hmac : Bytes → Bytes → Bytes} {secret : Bytes} {e t : UInt32} (id : UInt64)
    (hpos : 1 ≤ e.toNat) (hmax : e.toNat ≤ 86400) :
    ∃ body, generate hmac secret e id t = some (body ++ hmac secret body) ∧ Body t e.toUInt16 body := by
  refine ⟨le32 t ++ store16le e.toUInt16 ++ le64 id ++ fillNonce t e.toUInt16 id ++ [0, 0], if_neg ?_,
    ⟨le64 id ++ fillNonce t e.toUInt16 id ++ [0, 0], ?_⟩, rfl, rfl⟩
  · rintro (rfl | h)
    · simp at hpos
    · rw [gt_iff_lt, UInt32.lt_iff_toNat_lt] at h
      exact absurd h (not_lt.mpr hmax)
  · simp only [List.append_assoc]

/-- A token that was signed under the secret is valid from its issue until it expires. -/
theorem validate_signed {hmac : Bytes → Bytes → Bytes} {secret body : Bytes} {t : UInt32}
    {expiry : UInt16} (h : Body t expiry body) (now : UInt32) :
    validate hmac (body ++ hmac secret body) secret now =
      decide (t ≤ now ∧ now ≤ t + expiry.toUInt32) := by
  obtain ⟨rest, hparts⟩ := h.parts
  have hlen := h.length
  have hget : ∀ i < 2, (body ++ hmac secret body).getD (30 + i) 0 = 0 := by
    intro i hi
    rw [List.getD_append _ _ _ _ (by omega), List.getD_eq_getElem?_getD, ← List.getElem?_drop,
      h.reserved]
    interval_cases i <;> rfl
  have htake : (body ++ hmac secret body).take 32 = body := List.take_left' hlen
  have hdrop : (body ++ hmac secret body).drop 32 = hmac secret body := List.drop_left' hlen
  have htime : load32le (body ++ hmac secret body) = t := by
    rw [hparts, List.append_assoc, load32le_le32]
  have hexpiry : load16le ((body ++ hmac secret body).drop 4) = expiry := by
    rw [hparts, List.append_assoc, List.drop_left' (length_le32 t), List.append_assoc,
      load16le_store16le]
  unfold validate
  rw [hget 0 (by omega), hget 1 (by omega), htake, hdrop]
  dsimp only
  rw [foldl_zipWith_xor_self, if_neg (by simp), if_neg (by simp), htime, hexpiry]
  simp [not_or, UInt32.not_lt]

/-- A generated token is valid for exactly the seconds that were asked for if and only if their number
fits the 16 bits of the format. -/
theorem lifetime_iff (hmac : Bytes → Bytes → Bytes) (secret : Bytes) (t : UInt32) (id : UInt64)
    (e : UInt32) (hpos : 1 ≤ e.toNat) (hmax : e.toNat ≤ 86400) (hsum : t.toNat + e.toNat < 2 ^ 32) :
    ∃ token, generate hmac secret e id t = some token ∧
      ((∀ now : UInt32, validate hmac token secret now = true ↔
          t.toNat ≤ now.toNat ∧ now.toNat ≤ t.toNat + e.toNat) ↔
        e.toNat < 65536) := by
  obtain ⟨body, hgen, hbody⟩ := @generate_eq hmac secret e t id hpos hmax
  refine ⟨_, hgen, ?_⟩
  have hexpiry : (t + e.toUInt16.toUInt32).toNat = t.toNat + e.toNat % 65536 := by
    rw [UInt32.toNat_add]
    simp
    omega
  have hvalid : ∀ now : UInt32, validate hmac (body ++ hmac secret body) secret now = true ↔
      t.toNat ≤ now.toNat ∧ now.toNat ≤ t.toNat + e.toNat % 65536 := by
    intro now
    rw [validate_signed hbody, decide_eq_true_iff, UInt32.le_iff_toNat_le, UInt32.le_iff_toNat_le,
      hexpiry]
  constructor
  · intro hall
    -- the last second
    have hlast : (t + e).toNat = t.toNat + e.toNat := by
      rw [UInt32.toNat_add, Nat.mod_eq_of_lt hsum]
    have := (hvalid (t + e)).mp ((hall (t + e)).mpr (by omega))
    omega
  · intro hfits now
    rw [hvalid, Nat.mod_eq_of_lt hfits]

theorem lifetime_iff_minute :
    ∃ token, generate hmacSha256 (List.replicate 32 0) 60 0 1000 = some token ∧
      ((∀ now : UInt32, validate hmacSha256 token (List.replicate 32 0) now = true ↔
          1000 ≤ now.toNat ∧ now.toNat ≤ 1000 + 60) ↔ 60 < 65536) :=
  lifetime_iff hmacSha256 (List.replicate 32 0) 1000 0 60 (by decide) (by decide) (by decide)

/-- A token for 65536 seconds has expired after one. -/
theorem expired_at_once :
    ∃ token, generate hmacSha256 (List.replicate 32 0) 65536 0 1000 = some token ∧
      ¬(validate hmacSha256 token (List.replicate 32 0) 1001 = true ↔
        1000 ≤ 1001 ∧ 1001 ≤ 1000 + 65536) := by
  obtain ⟨body, hgen, hbody⟩ := @generate_eq hmacSha256 (List.replicate 32 0) 65536 1000 0 (by decide)
    (by decide)
  refine ⟨_, hgen, ?_⟩
  rw [validate_signed hbody]
  decide

end CampelloNet.ConnectionToken
