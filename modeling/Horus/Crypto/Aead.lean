import Mathlib.Data.List.Basic

/-
  The authenticated encryption of the storage layer
  (`rust/src/aead.rs`): ChaCha20, then a truncated HMAC-SHA256
  over nonce, associated data and ciphertext.

  The SHA-256 digest and the ChaCha20 block function are
  parameters. The MAC is computed over the plain concatenation
  of its three parts, so it fixes the parts only up to where the
  associated data ends.

  Main results: `aead_binds_iff`.
-/

namespace Horus.Crypto

/- `Sha256Hmac`: what was fed to the inner hash so far, and the outer pad. -/
structure Sha256Hmac where
  inner : List UInt8
  opad : List UInt8

/- ChaCha20 for one key and nonce: the 64 bytes of each counter. -/
abbrev KeyStream := UInt32 → Vector UInt8 64

section

variable (sha256 : List UInt8 → Vector UInt8 32)
variable (chacha20Block : Vector UInt8 32 → Vector UInt8 12 → KeyStream)

namespace Sha256Hmac

/- `Sha256Hmac::new`. -/
def new (key : List UInt8) : Sha256Hmac :=
  let k := if 64 < key.length then (sha256 key).toList else key
  let k0 := k ++ List.replicate (64 - k.length) 0
  ⟨k0.map (0x36 ^^^ ·), k0.map (0x5c ^^^ ·)⟩

def update (h : Sha256Hmac) (data : List UInt8) : Sha256Hmac := { h with inner := h.inner ++ data }

def finalize (h : Sha256Hmac) : Vector UInt8 32 := sha256 (h.opad ++ (sha256 h.inner).toList)

end Sha256Hmac

/- `chacha20_xor` from a counter on, 64 bytes a round. -/
def chacha20Xor (ks : KeyStream) (counter : UInt32) (buf : List UInt8) : List UInt8 :=
  if buf = [] then []
  else
    List.zipWith (· ^^^ ·) (buf.take 64) (ks counter).toList ++
      chacha20Xor ks (counter + 1) (buf.drop 64)
termination_by buf.length
decreasing_by
  have hLong := List.length_pos_iff.mpr ‹buf ≠ []›
  rw [List.length_drop]
  omega

/- The first 16 bytes of the HMAC of one message. -/
def truncatedHmac (macKey : Vector UInt8 32) (message : List UInt8) : Vector UInt8 16 :=
  (((Sha256Hmac.new sha256 macKey.toList).update message).finalize sha256).take 16

def computeTag (macKey : Vector UInt8 32) (nonce : Vector UInt8 12) (aad ct : List UInt8) :
    Vector UInt8 16 :=
  let mac := Sha256Hmac.new sha256 macKey.toList
  let mac := ((mac.update nonce.toList).update aad).update ct
  (mac.finalize sha256).take 16

def tagsEqual (a b : Vector UInt8 16) : Bool :=
  (List.zipWith (· ^^^ ·) a.toList b.toList).foldl (· ||| ·) 0 == 0

/- `rust_aead_seal` on valid pointers: the buffer and the tag. -/
def rustAeadSeal (encKey macKey : Vector UInt8 32) (nonce : Vector UInt8 12)
    (aad buf : List UInt8) : List UInt8 × Vector UInt8 16 :=
  let ct := chacha20Xor (chacha20Block encKey nonce) 0 buf
  (ct, computeTag sha256 macKey nonce aad ct)

/- `rust_aead_open` on valid pointers: the result and the buffer. -/
def rustAeadOpen (encKey macKey : Vector UInt8 32) (nonce : Vector UInt8 12)
    (aad buf : List UInt8) (tag : Vector UInt8 16) : Int × List UInt8 :=
  if tagsEqual (computeTag sha256 macKey nonce aad buf) tag then
    (0, chacha20Xor (chacha20Block encKey nonce) 0 buf)
  else (-1, buf.map fun _ => 0)

theorem chacha20Xor_length (ks : KeyStream) (counter : UInt32) (buf : List UInt8) :
    (chacha20Xor ks counter buf).length = buf.length := by
  fun_induction chacha20Xor ks counter buf with
  | case1 => rfl
  | case2 counter buf hNe ih =>
    simp only [List.length_append, List.length_zipWith, List.length_take, ih, List.length_drop,
      Vector.length_toList]
    omega

theorem zipWith_xor_cancel (xs ks : List UInt8) (hLe : xs.length ≤ ks.length) :
    List.zipWith (· ^^^ ·) (List.zipWith (· ^^^ ·) xs ks) ks = xs := by
  induction xs generalizing ks with
  | nil => rfl
  | cons x xs ih =>
    cases ks with
    | nil => simp at hLe
    | cons k ks =>
      simp only [List.zipWith_cons_cons, ih ks (Nat.le_of_succ_le_succ hLe),
        UInt8.xor_assoc, UInt8.xor_self, UInt8.xor_zero]

/- A round of fewer than 64 bytes is the last one. -/
theorem take_drop_round {xs ys : List UInt8} (hLe : xs.length ≤ 64)
    (hLast : xs.length < 64 → ys = []) : (xs ++ ys).take 64 = xs ∧ (xs ++ ys).drop 64 = ys := by
  rcases Nat.eq_or_lt_of_le hLe with hFull | hShort
  · exact ⟨List.take_left' hFull, List.drop_left' hFull⟩
  · simp [hLast hShort, List.take_of_length_le hLe, hLe]

/- Decryption is encryption again. -/
theorem chacha20Xor_chacha20Xor (ks : KeyStream) (counter : UInt32) (buf : List UInt8) :
    chacha20Xor ks counter (chacha20Xor ks counter buf) = buf := by
  fun_induction chacha20Xor ks counter buf with
  | case1 => rw [chacha20Xor, if_pos rfl]
  | case2 counter buf hNe ih =>
    have hFirst : (List.zipWith (· ^^^ ·) (buf.take 64) (ks counter).toList).length =
        min 64 buf.length := by
      simp [Nat.min_comm]
    have hKept := chacha20Xor_length ks (counter + 1) (buf.drop 64)
    have hPos := List.length_pos_iff.mpr hNe
    rw [List.length_drop] at hKept
    have hLast : (List.zipWith (· ^^^ ·) (buf.take 64) (ks counter).toList).length < 64 →
        chacha20Xor ks (counter + 1) (buf.drop 64) = [] := by
      rw [← List.length_eq_zero_iff]
      omega
    obtain ⟨hTake, hDrop⟩ := take_drop_round (by omega) hLast
    rw [chacha20Xor, if_neg, hTake, hDrop, ih, zipWith_xor_cancel _ _ (by simp [Nat.min_le_left]),
      List.take_append_drop]
    rw [← List.length_eq_zero_iff, List.length_append, hFirst]
    omega

theorem foldl_or_eq_zero (xs : List UInt8) (acc : UInt8) :
    xs.foldl (· ||| ·) acc = 0 ↔ acc = 0 ∧ ∀ x ∈ xs, x = 0 := by
  induction xs generalizing acc with
  | nil => simp
  | cons x xs ih => simp [ih, UInt8.or_eq_zero_iff, and_assoc]

theorem zipWith_xor_eq_zero_iff (xs ys : List UInt8) (hLen : xs.length = ys.length) :
    (∀ z ∈ List.zipWith (· ^^^ ·) xs ys, z = 0) ↔ xs = ys := by
  induction xs generalizing ys with
  | nil => simp [List.length_eq_zero_iff.mp hLen.symm]
  | cons x xs ih =>
    cases ys with
    | nil => simp at hLen
    | cons y ys => simp [ih ys (Nat.succ.inj hLen), UInt8.xor_eq_zero_iff]

theorem tagsEqual_iff (a b : Vector UInt8 16) : tagsEqual a b = true ↔ a = b := by
  rw [tagsEqual, beq_iff_eq, foldl_or_eq_zero, zipWith_xor_eq_zero_iff _ _ (by simp),
    Vector.toList_inj]
  exact and_iff_right rfl

theorem computeTag_eq (macKey : Vector UInt8 32) (nonce : Vector UInt8 12) (aad ct : List UInt8) :
    computeTag sha256 macKey nonce aad ct =
      truncatedHmac sha256 macKey (nonce.toList ++ aad ++ ct) := by
  simp only [computeTag, truncatedHmac, Sha256Hmac.update, List.append_assoc]

theorem rustAeadOpen_eq_zero_iff (encKey macKey : Vector UInt8 32) (nonce : Vector UInt8 12)
    (aad buf : List UInt8) (tag : Vector UInt8 16) :
    (rustAeadOpen sha256 chacha20Block encKey macKey nonce aad buf tag).1 = 0 ↔
      computeTag sha256 macKey nonce aad buf = tag := by
  rw [← tagsEqual_iff, rustAeadOpen]
  split <;> simp_all

/-
  Opening what was sealed restores the buffer, and a refused
  open leaves it zero. When the truncated HMAC does not collide
  on the two messages, a tag of a seal is accepted only for the
  same nonce, and for the same associated data and ciphertext
  exactly when the associated data is given at its length.
-/
theorem aead_binds_iff (encKey macKey : Vector UInt8 32) (nonce : Vector UInt8 12)
    (aad buf : List UInt8) :
    (rustAeadOpen sha256 chacha20Block encKey macKey nonce aad
      (rustAeadSeal sha256 chacha20Block encKey macKey nonce aad buf).1
      (rustAeadSeal sha256 chacha20Block encKey macKey nonce aad buf).2 = (0, buf)) ∧
    ∀ (nonce' : Vector UInt8 12) (aad' ct' : List UInt8) (tag : Vector UInt8 16),
      let sealed := rustAeadSeal sha256 chacha20Block encKey macKey nonce aad buf
      let opened := rustAeadOpen sha256 chacha20Block encKey macKey nonce' aad' ct' tag
      (opened.1 ≠ 0 → opened = (-1, List.replicate ct'.length 0)) ∧
      (opened.1 = 0 → tag = sealed.2 → (truncatedHmac sha256 macKey (nonce'.toList ++ aad' ++ ct') =
            truncatedHmac sha256 macKey (nonce.toList ++ aad ++ sealed.1) →
          nonce'.toList ++ aad' ++ ct' = nonce.toList ++ aad ++ sealed.1) →
        ((nonce' = nonce ∧ aad' = aad ∧ ct' = sealed.1) ↔ aad'.length = aad.length)) := by
  refine ⟨?_, ?_⟩
  · simp only [rustAeadSeal, rustAeadOpen, (tagsEqual_iff _ _).mpr, if_true,
      chacha20Xor_chacha20Xor]
  · intro nonce' aad' ct' tag
    refine ⟨?_, ?_⟩
    · intro hRefused
      simp only [rustAeadOpen] at hRefused ⊢
      split at hRefused
      · exact absurd rfl hRefused
      next hTag => rw [if_neg hTag, List.map_const']
    · intro hOpen hSeal hFree
      rw [rustAeadOpen_eq_zero_iff, hSeal, rustAeadSeal, computeTag_eq, computeTag_eq] at hOpen
      have hMessage := hFree hOpen
      refine ⟨fun hSame => by rw [hSame.2.1], fun hLength => ?_⟩
      rw [List.append_assoc, List.append_assoc] at hMessage
      obtain ⟨hNonce, hRest⟩ := List.append_inj hMessage (by simp)
      obtain ⟨hAad, hCt⟩ := List.append_inj hRest hLength
      exact ⟨Vector.toList_inj.mp hNonce, hAad, hCt⟩

end

/- Stand-ins for the digest and the key stream. -/
def flatDigest (_ : List UInt8) : Vector UInt8 32 := Vector.replicate 32 0

def flatStream (_ : Vector UInt8 32) (_ : Vector UInt8 12) : KeyStream :=
  fun _ => Vector.replicate 64 7

def flatSeal (aad buf : List UInt8) : List UInt8 × Vector UInt8 16 :=
  rustAeadSeal flatDigest flatStream (Vector.replicate 32 1) (Vector.replicate 32 2)
    (Vector.replicate 12 3) aad buf

def flatOpen (aad buf : List UInt8) (tag : Vector UInt8 16) : Int × List UInt8 :=
  rustAeadOpen flatDigest flatStream (Vector.replicate 32 1) (Vector.replicate 32 2)
    (Vector.replicate 12 3) aad buf tag

theorem flatSeal_cipher : (flatSeal [9] [0, 0]).1 = [7, 7] := by
  simp [flatSeal, rustAeadSeal, chacha20Xor, flatStream]

theorem aead_binds_iff_flat :
    flatOpen [9] (flatSeal [9] [0, 0]).1 (flatSeal [9] [0, 0]).2 = (0, [0, 0]) :=
  (aead_binds_iff flatDigest flatStream _ _ _ [9] [0, 0]).1

/- The first byte of the ciphertext is taken for associated data. -/
theorem aead_moves_boundary : (flatSeal [9] [0, 0]).1 = [7, 7] ∧
    (flatOpen [9, 7] [7] (flatSeal [9] [0, 0]).2).1 = 0 := by
  refine ⟨flatSeal_cipher, ?_⟩
  rw [flatOpen, rustAeadOpen_eq_zero_iff, computeTag_eq]
  change _ = computeTag _ _ _ [9] (flatSeal [9] [0, 0]).1
  rfl

end Horus.Crypto
