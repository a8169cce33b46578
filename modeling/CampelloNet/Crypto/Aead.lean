import CampelloNet.Crypto.ChaCha20Poly1305

/-!
# Opening and sealing

`open` accepts exactly what `seal` makes: the stream cipher is its own inverse, the tag has sixteen
bytes, and the accumulated difference of two tags is zero only for equal ones
(`opened_eq_some_iff`).
-/

namespace CampelloNet.Crypto

open Lib

/-! ### The stream -/

theorem xor_xor_cancel (data stream : Bytes) (h : data.length ≤ stream.length) :
    List.zipWith (· ^^^ ·) (List.zipWith (· ^^^ ·) data stream) stream = data := by
  induction data generalizing stream with
  | nil => simp
  | cons x data ih =>
    cases stream with
    | nil => simp at h
    | cons y stream =>
      have hrest : data.length ≤ stream.length := by simpa using h
      simp [ih stream hrest, UInt8.xor_assoc]

theorem length_flatMap_le32 (words : List UInt32) : (words.flatMap le32).length = 4 * words.length := by
  induction words with
  | nil => rfl
  | cons w words ih =>
    rw [List.flatMap_cons, List.length_append, length_le32, ih, List.length_cons]
    omega

@[simp] theorem length_chacha20Block (key : Key) (counter : UInt32) (nonce : Nonce) :
    (chacha20Block key counter nonce).length = 64 := by
  unfold chacha20Block
  rw [length_flatMap_le32, Vector.length_toList]

section
variable (key : Key) (nonce : Nonce)

theorem length_cryptBlocks (n : Nat) (counter : UInt32) (data : Bytes) :
    (cryptBlocks key nonce n counter data).length = data.length := by
  induction n generalizing counter data with
  | zero => rfl
  | succ n ih =>
    rw [cryptBlocks, List.length_append, ih, List.length_zipWith, length_chacha20Block,
      List.length_take, List.length_drop]
    omega

@[simp] theorem length_chacha20Crypt (counter : UInt32) (data : Bytes) :
    (chacha20Crypt key nonce counter data).length = data.length :=
  length_cryptBlocks key nonce _ counter data

theorem cryptBlocks_cryptBlocks (n : Nat) (counter : UInt32) (data : Bytes) :
    cryptBlocks key nonce n counter (cryptBlocks key nonce n counter data) = data := by
  induction n generalizing counter data with
  | zero => rfl
  | succ n ih =>
    have hstream : (data.take 64).length ≤ (chacha20Block key counter nonce).length := by
      rw [length_chacha20Block]
      exact List.length_take_le 64 data
    have hfirst : (List.zipWith (· ^^^ ·) (data.take 64) (chacha20Block key counter nonce)).length =
        min 64 data.length := by
      rw [List.length_zipWith, length_chacha20Block, List.length_take]
      omega
    by_cases hlong : 64 ≤ data.length
    · rw [cryptBlocks, cryptBlocks, List.take_left' (by omega), List.drop_left' (by omega),
        xor_xor_cancel _ _ hstream, ih, List.take_append_drop]
    · -- the last block takes all that is left
      have hdrop : data.drop 64 = [] := List.drop_eq_nil_of_le (by omega)
      have hnil : ∀ m c, cryptBlocks key nonce m c [] = [] := fun m c =>
        List.length_eq_zero_iff.mp (length_cryptBlocks key nonce m c [])
      rw [cryptBlocks, cryptBlocks, hdrop, hnil, List.append_nil,
        List.take_of_length_le (by omega), List.drop_eq_nil_of_le (by omega), hnil,
        List.append_nil, xor_xor_cancel _ _ hstream, List.take_of_length_le (by omega)]

/-- Decrypting is encrypting. -/
@[simp] theorem chacha20Crypt_chacha20Crypt (counter : UInt32) (data : Bytes) :
    chacha20Crypt key nonce counter (chacha20Crypt key nonce counter data) = data := by
  have h : chacha20Crypt key nonce counter (chacha20Crypt key nonce counter data) =
      cryptBlocks key nonce (((chacha20Crypt key nonce counter data).length + 63) / 64) counter
        (chacha20Crypt key nonce counter data) := rfl
  rw [h, length_chacha20Crypt]
  exact cryptBlocks_cryptBlocks key nonce _ counter data

end

/-! ### The tag -/

theorem length_addPad (u : UInt64) (words : List (UInt32 × UInt32)) :
    (addPad u words).length = 4 * words.length := by
  induction words generalizing u with
  | nil => rfl
  | cons w words ih =>
    rw [addPad, List.length_append, length_le32, ih, List.length_cons]
    omega

@[simp] theorem length_aeadComputeTag (polyKey : Key) (aad ciphertext : Bytes) :
    (aeadComputeTag polyKey aad ciphertext).length = 16 := by
  unfold aeadComputeTag poly1305Finish
  rw [length_addPad, List.length_zip, Vector.length_toList, Vector.length_toList]
  rfl

theorem or_eq_zero {x y : UInt32} : x ||| y = 0 ↔ x = 0 ∧ y = 0 := by
  rw [← UInt32.toNat_inj, UInt32.toNat_or, ← UInt32.toNat_inj, ← UInt32.toNat_inj]
  exact Nat.or_eq_zero_iff

theorem foldl_or_eq_zero (l : Bytes) (d : UInt32) :
    l.foldl (fun d x => d ||| x.toUInt32) d = 0 ↔ d = 0 ∧ ∀ x ∈ l, x = 0 := by
  induction l generalizing d with
  | nil => simp
  | cons x l ih =>
    have hx : x.toUInt32 = 0 ↔ x = 0 := by
      rw [← UInt32.toNat_inj, ← UInt8.toNat_inj]
      simp
    rw [List.foldl_cons, ih, or_eq_zero, hx, List.forall_mem_cons, and_assoc]

/-- The constant-time comparison: no byte differs. -/
theorem diff_eq_zero (a b : Bytes) (h : a.length = b.length) :
    (List.zipWith (· ^^^ ·) a b).foldl (fun d x => d ||| x.toUInt32) (0 : UInt32) = 0 ↔ a = b := by
  rw [foldl_or_eq_zero]
  simp only [true_and]
  induction a generalizing b with
  | nil =>
    cases b with
    | nil => simp
    | cons y b => simp at h
  | cons x a ih =>
    cases b with
    | nil => simp at h
    | cons y b =>
      rw [List.zipWith_cons_cons, List.forall_mem_cons, ih b (by simpa using h), List.cons.injEq,
        UInt8.xor_eq_zero_iff]

/-! ### Open and seal -/

namespace ChaCha20Poly1305

/-- What `seal` writes into a large enough buffer. -/
def sealing (key : Key) (nonce : Nonce) (aad plaintext : Bytes) : Bytes :=
  chacha20Crypt key nonce 1 plaintext ++
    aeadComputeTag (lowKey (chacha20Block key 0 nonce)) aad (chacha20Crypt key nonce 1 plaintext)

@[simp] theorem length_sealing (key : Key) (nonce : Nonce) (aad plaintext : Bytes) :
    (sealing key nonce aad plaintext).length = plaintext.length + TAG_SIZE := by
  simp [sealing, TAG_SIZE]

theorem sealed_eq (key : Key) (nonce : Nonce) (aad plaintext : Bytes) :
    sealed key nonce aad plaintext (plaintext.length + TAG_SIZE) =
      some (sealing key nonce aad plaintext) := by
  unfold sealed
  rw [if_neg (lt_irrefl _)]
  rfl

/-- `open` gives back a plaintext that fits if and only if it was given the plaintext's sealing. -/
theorem opened_eq_some_iff {key : Key} {nonce : Nonce} {aad ciphertext plaintext : Bytes}
    {outLen : Nat} : opened key nonce aad ciphertext outLen = some plaintext ↔
      ciphertext = sealing key nonce aad plaintext ∧ plaintext.length ≤ outLen := by
  unfold opened
  constructor
  · intro h
    split_ifs at h with hshort hout
    dsimp only at h
    split_ifs at h with hdiff
    have htag : (ciphertext.drop (ciphertext.length - TAG_SIZE)).length = 16 := by
      rw [List.length_drop]
      unfold TAG_SIZE at hshort ⊢
      omega
    rw [not_not, diff_eq_zero _ _ (by rw [length_aeadComputeTag, htag])] at hdiff
    obtain rfl := Option.some.inj h
    constructor
    · rw [sealing, chacha20Crypt_chacha20Crypt, hdiff, List.take_append_drop]
    · rw [length_chacha20Crypt, List.length_take]
      omega
  · rintro ⟨rfl, hfits⟩
    have hlen := length_sealing key nonce aad plaintext
    have hcut : (sealing key nonce aad plaintext).length - TAG_SIZE =
        (chacha20Crypt key nonce 1 plaintext).length := by
      rw [hlen, length_chacha20Crypt, Nat.add_sub_cancel]
    rw [if_neg (by omega), if_neg (by rw [hcut, length_chacha20Crypt]; omega)]
    dsimp only
    rw [hcut, sealing, List.take_left, List.drop_left, if_neg (not_not.mpr ?_),
      chacha20Crypt_chacha20Crypt]
    rw [diff_eq_zero _ _ rfl]

end ChaCha20Poly1305

/-! ### Buffers -/

/-- `memcpy` into a buffer, from byte `i` on. -/
def writeAt (i : Nat) (data out : Bytes) : Bytes := out.take i ++ data ++ out.drop (i + data.length)

theorem take_writeAt_zero (data out : Bytes) (n : Nat) (h : n = data.length) :
    (writeAt 0 data out).take n = data := by
  subst h
  simp [writeAt]

theorem writeAt_writeAt_zero (data data' out : Bytes) (h : data'.length = data.length) :
    writeAt 0 data' (writeAt 0 data out) = writeAt 0 data' out := by
  unfold writeAt
  simp [h]

theorem length_writeAt_zero {data out : Bytes} (h : data.length ≤ out.length) :
    (writeAt 0 data out).length = out.length := by
  unfold writeAt
  rw [List.length_append, List.length_append, List.length_drop, List.length_take]
  omega

theorem writeAt_append (data data' out : Bytes) :
    writeAt data.length data' (writeAt 0 data out) = writeAt 0 (data ++ data') out := by
  unfold writeAt
  simp [List.drop_append]

namespace ChaCha20Poly1305

section
variable (key : Key) (nonce : Nonce) (aad : Bytes)

/-- `seal` with its output buffer: what it returns, and the buffer as it leaves it. -/
def sealInto (plaintext out : Bytes) : Bool × Bytes :=
  if out.length < plaintext.length + TAG_SIZE then (false, out)
  else
    let polyKey := lowKey (chacha20Block key 0 nonce)
    let out := writeAt 0 plaintext out
    let out := writeAt 0 (chacha20Crypt key nonce 1 (out.take plaintext.length)) out
    let out := writeAt plaintext.length
      (aeadComputeTag polyKey aad (out.take plaintext.length)) out
    (true, out)

/-- `open` with its output buffer. The tag is looked at before anything is written. -/
def openInto (ciphertext out : Bytes) : Bool × Bytes :=
  if ciphertext.length < TAG_SIZE then (false, out)
  else if out.length < ciphertext.length - TAG_SIZE then (false, out)
  else
    let encryptedLen := ciphertext.length - TAG_SIZE
    let tag := ciphertext.drop encryptedLen
    let polyKey := lowKey (chacha20Block key 0 nonce)
    let computedTag := aeadComputeTag polyKey aad (ciphertext.take encryptedLen)
    let diff := (List.zipWith (· ^^^ ·) computedTag tag).foldl (fun d x => d ||| x.toUInt32)
      (0 : UInt32)
    if diff ≠ 0 then (false, out)
    else
      let out := writeAt 0 (ciphertext.take encryptedLen) out
      (true, writeAt 0 (chacha20Crypt key nonce 1 (out.take encryptedLen)) out)

theorem sealInto_eq {plaintext out : Bytes} (h : plaintext.length + TAG_SIZE ≤ out.length) :
    sealInto key nonce aad plaintext out = (true, writeAt 0 (sealing key nonce aad plaintext) out) := by
  unfold sealInto
  rw [if_neg (by omega)]
  dsimp only
  have hlen := length_chacha20Crypt key nonce 1 plaintext
  rw [take_writeAt_zero _ _ _ rfl, writeAt_writeAt_zero _ _ _ hlen,
    take_writeAt_zero _ _ _ hlen.symm]
  nth_rewrite 1 [← hlen]
  rw [writeAt_append]
  rfl

/-- A buffer is written to only by an `open` that accepts. -/
theorem openInto_eq (ciphertext out : Bytes) : openInto key nonce aad ciphertext out =
    match opened key nonce aad ciphertext out.length with
    | none => (false, out)
    | some plaintext => (true, writeAt 0 plaintext out) := by
  unfold openInto opened
  split_ifs with hshort hroom
  · rfl
  · rfl
  · dsimp only
    split_ifs with hdiff
    · rfl
    · have htake : (ciphertext.take (ciphertext.length - TAG_SIZE)).length =
          ciphertext.length - TAG_SIZE := by
        rw [List.length_take]
        omega
      rw [take_writeAt_zero _ _ _ htake.symm, writeAt_writeAt_zero _ _ _ (length_chacha20Crypt _ _ _ _)]

/-- With room for the output, `open` returns true and a plaintext exactly when it is given what `seal`
makes of that plaintext, and an `open` that returns false has left the buffer alone. -/
theorem aead_correct (plaintext ciphertext out sealOut : Bytes)
    (hopen : ciphertext.length - TAG_SIZE ≤ out.length)
    (hseal : plaintext.length + TAG_SIZE ≤ sealOut.length) :
    ((openInto key nonce aad ciphertext out).1 = true ∧
        (openInto key nonce aad ciphertext out).2.take (ciphertext.length - TAG_SIZE) = plaintext ↔
      (sealInto key nonce aad plaintext sealOut).1 = true ∧
        (sealInto key nonce aad plaintext sealOut).2.take (plaintext.length + TAG_SIZE) =
          ciphertext) ∧
      ((openInto key nonce aad ciphertext out).1 = false →
        (openInto key nonce aad ciphertext out).2 = out) := by
  rw [openInto_eq, sealInto_eq key nonce aad hseal]
  have hsealed : (writeAt 0 (sealing key nonce aad plaintext) sealOut).take
      (plaintext.length + TAG_SIZE) = sealing key nonce aad plaintext :=
    take_writeAt_zero _ _ _ (length_sealing key nonce aad plaintext).symm
  dsimp only
  rw [hsealed]
  rcases hopened : opened key nonce aad ciphertext out.length with _ | data
  · refine ⟨⟨fun h => by simp at h, ?_⟩, fun _ => rfl⟩
    rintro ⟨-, rfl⟩
    rw [length_sealing, Nat.add_sub_cancel] at hopen
    rw [opened_eq_some_iff.mpr ⟨rfl, hopen⟩] at hopened
    cases hopened
  · obtain ⟨rfl, hfits⟩ := opened_eq_some_iff.mp hopened
    rw [length_sealing, Nat.add_sub_cancel]
    dsimp only
    rw [take_writeAt_zero _ _ _ rfl]
    refine ⟨⟨?_, ?_⟩, fun h => by simp at h⟩
    · rintro ⟨-, rfl⟩
      exact ⟨rfl, rfl⟩
    · rintro ⟨-, heq⟩
      have hlength := congrArg List.length heq
      rw [length_sealing, length_sealing] at hlength
      have hfits' : plaintext.length ≤ out.length := by omega
      have hsame := opened_eq_some_iff.mpr ⟨heq.symm, hfits'⟩
      rw [hopened] at hsame
      exact ⟨rfl, Option.some.inj hsame⟩

end

/-- A byte is sealed into a buffer of its size, and opened into another. -/
theorem aead_correct_byte :
    (openInto (.replicate 32 7) (.replicate 12 0) []
        (sealInto (.replicate 32 7) (.replicate 12 0) [] [1] (List.replicate 17 0)).2 [0]).1 = true ∧
      (openInto (.replicate 32 7) (.replicate 12 0) []
        (sealInto (.replicate 32 7) (.replicate 12 0) [] [1] (List.replicate 17 0)).2 [0]).2.take 1 =
        [1] := by
  have hroom : ([1] : Bytes).length + TAG_SIZE ≤ (List.replicate 17 (0 : UInt8)).length := by decide
  have hsealed := sealInto_eq (.replicate 32 7) (.replicate 12 0) [] hroom
  obtain ⟨c, hc⟩ : ∃ c, c = (sealInto (.replicate 32 7) (.replicate 12 0) [] [1]
    (List.replicate 17 0)).2 := ⟨_, rfl⟩
  have hlength : c.length = 17 := by
    rw [hc, hsealed]
    dsimp only
    rw [length_writeAt_zero, List.length_replicate]
    rw [length_sealing]
    exact hroom
  have htrue : (sealInto (.replicate 32 7) (.replicate 12 0) [] [1] (List.replicate 17 0)).1 =
      true := by rw [hsealed]
  have htake : (sealInto (.replicate 32 7) (.replicate 12 0) [] [1]
      (List.replicate 17 0)).2.take (([1] : Bytes).length + TAG_SIZE) = c := by
    rw [← hc, List.take_of_length_le]
    rw [hlength]
    decide
  have hfits : c.length - TAG_SIZE ≤ ([0] : Bytes).length := by
    rw [hlength]
    decide
  have h := (aead_correct (.replicate 32 7) (.replicate 12 0) [] [1] c [0] (List.replicate 17 0)
    hfits hroom).1.mpr ⟨htrue, htake⟩
  have hone : 17 - TAG_SIZE = 1 := rfl
  rw [hlength, hone] at h
  rw [← hc]
  exact h

end ChaCha20Poly1305

end CampelloNet.Crypto
