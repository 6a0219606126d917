import P2Party.Base.Bytes

/-!
# The cryptographic module and the errors the library throws

`LibCrypto` is the compiled WASM module every function of `src/src/cryptography`
takes as its last argument. Its primitives are outside the sources (libsodium
and mlkem-native), so they are the fields of a structure: the wrappers copy each
result out of a buffer of a fixed size, and the structure carries those sizes.
What the protocols rely on beyond the sizes is stated as separate laws:

- `DhLaws`: X25519 agreement on honestly generated keys;
- `AeadLaws`: ChaCha20-Poly1305 opens what it sealed;
- `KemLaws`: ML-KEM decapsulates what was encapsulated.

`LibCrypto.transparent` is an instance in which nothing is hidden; it satisfies
every law and lets a concrete run be computed.
-/

namespace P2Party

open Base

/-! ## Thrown values -/

/-- `PqHealingErrorCode` (pqHealing.ts:72-83). -/
inductive PqHealingErrorCode
  | bindingMismatch
  | counterGap
  | destroyed
  | epochGap
  | fork
  | invalidRecord
  | invalidState
  | overflow
  | replay
  | suiteMismatch
  | wrongTurn
deriving DecidableEq, Repr

/-- `PqControlFrameErrorCode` (pqHealingFrame.ts:66-73). -/
inductive PqControlFrameErrorCode
  | authenticationFailed
  | bindingMismatch
  | epochMismatch
  | invalidDirection
  | invalidFrame
  | invalidPadding
  | recordMismatch
deriving DecidableEq, Repr

/-- The values the library throws: plain errors with their text, and the two
error classes that also carry a code. -/
inductive JsError
  | error (message : String)
  | rangeError (message : String)
  | typeError (message : String)
  | pqHealingError (code : PqHealingErrorCode) (message : String)
  | pqControlFrameError (code : PqControlFrameErrorCode) (message : String)
deriving DecidableEq, Repr

/-- `Number.MAX_SAFE_INTEGER`. -/
abbrev MAX_SAFE_INTEGER : Nat := 2 ^ 53 - 1

/-! ## ML-KEM parameter sets and root suites -/

/-- `MlKemParameterSet` (mlkem.ts:7). -/
inductive MlKemParameterSet
  | mlkem512
  | mlkem768
  | mlkem1024
deriving DecidableEq, Repr

namespace MlKemParameterSet

/-- The number the source writes for a parameter set. -/
def toNat : MlKemParameterSet → Nat
  | mlkem512 => 512
  | mlkem768 => 768
  | mlkem1024 => 1024

/-- `publicKeyBytes` of the suite (mlkem.ts:9-19). -/
def publicKeyBytes : MlKemParameterSet → Nat
  | mlkem512 => 800
  | mlkem768 => 1184
  | mlkem1024 => 1568

/-- `secretKeyBytes` of the suite. -/
def secretKeyBytes : MlKemParameterSet → Nat
  | mlkem512 => 1632
  | mlkem768 => 2400
  | mlkem1024 => 3168

/-- `ciphertextBytes` of the suite. -/
def ciphertextBytes : MlKemParameterSet → Nat
  | mlkem512 => 768
  | mlkem768 => 1088
  | mlkem1024 => 1568

/-- `standardName` of the suite. -/
def standardName (p : MlKemParameterSet) : String := "ML-KEM-" ++ toString p.toNat

/-- `ML_KEM_SHARED_SECRET_BYTES` (mlkem.ts:21). -/
def sharedSecretBytes : Nat := 32

end MlKemParameterSet

/-- `RatchetRootSuite` (constants.ts:132-143). -/
inductive RatchetRootSuite
  | hybridMlkem512
  | hybridMlkem768
  | hybridMlkem1024
deriving DecidableEq, Repr

/-! ## The module -/

/-- The primitives the wrappers call, with the buffer sizes they read back. -/
structure LibCrypto where
  /-- Public key of an X25519 secret key. -/
  x25519Base : Bytes → Bytes
  /-- X25519 agreement; nothing when the result is the identity point. -/
  x25519Scalarmult : Bytes → Bytes → Option Bytes
  /-- HKDF-Extract over SHA-512, salt first. -/
  hkdfExtract : Bytes → Bytes → Bytes
  /-- HKDF-Expand: pseudorandom key, info, output length. -/
  hkdfExpand : Bytes → Bytes → Nat → Bytes
  /-- ChaCha20-Poly1305 seal: key, nonce, associated data, plaintext. -/
  aeadSeal : Bytes → Bytes → Bytes → Bytes → Bytes
  /-- ChaCha20-Poly1305 open: key, nonce, associated data, ciphertext. -/
  aeadOpen : Bytes → Bytes → Bytes → Bytes → Option Bytes
  /-- SHA-512. -/
  sha512 : Bytes → Bytes
  /-- ML-KEM key generation from coins, or the return code. -/
  mlkemKeypair : MlKemParameterSet → Bytes → Except Int (Bytes × Bytes)
  /-- ML-KEM encapsulation to a public key from coins: ciphertext and shared secret. -/
  mlkemEncaps : MlKemParameterSet → Bytes → Bytes → Except Int (Bytes × Bytes)
  /-- ML-KEM decapsulation of a ciphertext with a secret key. -/
  mlkemDecaps : MlKemParameterSet → Bytes → Bytes → Except Int Bytes
  length_x25519Base : ∀ sk, (x25519Base sk).length = 32
  length_hkdfExtract : ∀ salt ikm, (hkdfExtract salt ikm).length = 64
  length_hkdfExpand : ∀ prk info n, (hkdfExpand prk info n).length = n
  length_aeadSeal : ∀ key nonce aad pt, (aeadSeal key nonce aad pt).length = pt.length + 16
  length_aeadOpen : ∀ key nonce aad ct pt, aeadOpen key nonce aad ct = some pt →
    pt.length + 16 = ct.length
  length_sha512 : ∀ bs, (sha512 bs).length = 64
  length_mlkemKeypair : ∀ p coins pk sk, mlkemKeypair p coins = .ok (pk, sk) →
    pk.length = p.publicKeyBytes ∧ sk.length = p.secretKeyBytes
  length_mlkemEncaps : ∀ p pk coins ct ss, mlkemEncaps p pk coins = .ok (ct, ss) →
    ct.length = p.ciphertextBytes ∧ ss.length = MlKemParameterSet.sharedSecretBytes
  length_mlkemDecaps : ∀ p ct sk ss, mlkemDecaps p ct sk = .ok ss →
    ss.length = MlKemParameterSet.sharedSecretBytes

namespace LibCrypto

attribute [simp] length_x25519Base length_hkdfExtract length_hkdfExpand length_aeadSeal
  length_sha512

/-- `x25519Dh` (x25519.ts:81-136). -/
def x25519Dh (L : LibCrypto) (secretKey publicKey : Bytes) : Except JsError Bytes :=
  match L.x25519Scalarmult secretKey publicKey with
  | some shared => .ok shared
  | none => .error (.error "x25519_dh failed (identity point)")

/-- X25519 on honestly generated keys: both sides compute one shared point, and
it is never the identity. -/
structure DhLaws (L : LibCrypto) : Prop where
  commutes : ∀ a b, L.x25519Scalarmult a (L.x25519Base b) = L.x25519Scalarmult b (L.x25519Base a)
  defined : ∀ a b, (L.x25519Scalarmult a (L.x25519Base b)).isSome = true

/-- The AEAD opens what it sealed under the same key, nonce and associated data. -/
structure AeadLaws (L : LibCrypto) : Prop where
  open_seal : ∀ key nonce aad pt, L.aeadOpen key nonce aad (L.aeadSeal key nonce aad pt) = some pt

/-- ML-KEM correctness: encapsulating to a generated public key succeeds and its
ciphertext decapsulates to the same shared secret. -/
structure KemLaws (L : LibCrypto) : Prop where
  correct : ∀ p coins pk sk r, L.mlkemKeypair p coins = .ok (pk, sk) →
    ∃ ct ss, L.mlkemEncaps p pk r = .ok (ct, ss) ∧ L.mlkemDecaps p ct sk = .ok ss

/-! ## A transparent instance -/

/-- The first `n` bytes, zero-padded. -/
def pad (n : Nat) (bs : Bytes) : Bytes := (bs ++ List.replicate n 0).take n

@[simp] theorem length_pad (n : Nat) (bs : Bytes) : (pad n bs).length = n := by
  simp [pad]

theorem pad_of_length {n : Nat} {bs : Bytes} (h : bs.length = n) : pad n bs = bs := by
  simp [pad, ← h]

/-- Padding to a wider field first changes nothing. -/
theorem pad_pad {m n : Nat} (h : m ≤ n) (bs : Bytes) : pad m (pad n bs) = pad m bs := by
  have hzeros : List.replicate n (0 : UInt8) = List.replicate m 0 ++ List.replicate (n - m) 0 := by
    rw [List.replicate_append_replicate, Nat.add_sub_cancel' h]
  calc pad m (pad n bs)
      = (pad n bs).take m := List.take_append_of_le_length (by rw [length_pad]; exact h)
    _ = (bs ++ List.replicate n 0).take m := by rw [pad, List.take_take, Nat.min_eq_left h]
    _ = ((bs ++ List.replicate m 0) ++ List.replicate (n - m) 0).take m := by
        rw [hzeros, List.append_assoc]
    _ = pad m bs := List.take_append_of_le_length (by simp)

/-- A tag that depends on the first bytes of the key, and on the length and every byte of the
nonce and the associated data. -/
def tag (key nonce aad : Bytes) : Bytes :=
  pad 8 key ++ beBytes 8 ((nonce ++ aad).foldl (fun code b => code * 257 + b.toNat + 1) 0)

@[simp] theorem length_tag (key nonce aad : Bytes) : (tag key nonce aad).length = 16 := by
  simp [tag]

/-- Every primitive in the clear: keys are their own public keys, sealing appends a tag to
the plaintext, encapsulation writes the coins out. -/
def transparent : LibCrypto where
  x25519Base := pad 32
  x25519Scalarmult a p := some (List.zipWith (· + ·) (pad 32 a) (pad 32 p))
  hkdfExtract salt ikm := pad 64 (salt ++ ikm)
  hkdfExpand prk info n := pad n (prk.reverse ++ info)
  aeadSeal key nonce aad pt := pt ++ tag key nonce aad
  aeadOpen key nonce aad ct :=
    if 16 ≤ ct.length ∧ ct.drop (ct.length - 16) = tag key nonce aad then
      some (ct.take (ct.length - 16))
    else none
  sha512 := pad 64
  mlkemKeypair p coins := .ok (pad p.publicKeyBytes coins, pad p.secretKeyBytes coins)
  mlkemEncaps p _ coins := .ok (pad p.ciphertextBytes coins, pad 32 coins)
  mlkemDecaps _ ct _ := .ok (pad 32 ct)
  length_x25519Base _ := length_pad _ _
  length_hkdfExtract _ _ := length_pad _ _
  length_hkdfExpand _ _ _ := length_pad _ _
  length_aeadSeal _ _ _ _ := by simp
  length_aeadOpen key nonce aad ct pt h := by
    split at h
    case isTrue hc =>
      rw [← Option.some.inj h, List.length_take]
      omega
    case isFalse => cases h
  length_sha512 _ := length_pad _ _
  length_mlkemKeypair p coins pk sk h := by
    obtain ⟨rfl, rfl⟩ := Prod.mk.inj (Except.ok.inj h)
    exact ⟨length_pad _ _, length_pad _ _⟩
  length_mlkemEncaps p pk coins ct ss h := by
    obtain ⟨rfl, rfl⟩ := Prod.mk.inj (Except.ok.inj h)
    exact ⟨length_pad _ _, length_pad _ _⟩
  length_mlkemDecaps _ ct _ ss h := by
    rw [← Except.ok.inj h]
    exact length_pad _ _

theorem transparent_dhLaws : DhLaws transparent where
  commutes a b := by
    show some _ = some _
    rw [show transparent.x25519Base = pad 32 from rfl, pad_pad (Nat.le_refl _),
      pad_pad (Nat.le_refl _), List.zipWith_comm]
    simp only [UInt8.add_comm]
  defined _ _ := rfl

theorem transparent_aeadLaws : AeadLaws transparent where
  open_seal key nonce aad pt := by
    show (if _ then some _ else none) = some pt
    rw [if_pos]
    · simp [transparent]
    · simp [transparent]

/-- The transparent AEAD does not open what was sealed with another tag. -/
theorem transparent_open_other {key nonce aad key' nonce' aad' : Bytes}
    (h : tag key nonce aad ≠ tag key' nonce' aad') (pt : Bytes) :
    transparent.aeadOpen key' nonce' aad' (transparent.aeadSeal key nonce aad pt) = none := by
  show (if _ then some _ else none) = none
  refine if_neg fun htag => h ?_
  have hdrop : (pt ++ tag key nonce aad).drop ((pt ++ tag key nonce aad).length - 16) =
      tag key nonce aad := by
    simp
  exact hdrop.symm.trans htag.2

/-- It seals alike under two keys if one opens what the other has sealed. -/
theorem transparent_seal_eq {key key' nonce aad pt : Bytes}
    (h : transparent.aeadOpen key' nonce aad (transparent.aeadSeal key nonce aad pt) ≠ none) :
    transparent.aeadSeal key' = transparent.aeadSeal key := by
  have htag : tag key nonce aad = tag key' nonce aad :=
    Decidable.not_not.mp fun hne => h (transparent_open_other hne pt)
  have hkey : pad 8 key = pad 8 key' :=
    List.append_inj_left htag ((length_pad ..).trans (length_pad ..).symm)
  funext nonce aad pt
  show pt ++ tag key' nonce aad = pt ++ tag key nonce aad
  rw [tag, tag, hkey]

theorem transparent_kemLaws : KemLaws transparent where
  correct p coins pk sk r _ := by
    refine ⟨pad p.ciphertextBytes r, pad 32 r, rfl, ?_⟩
    show Except.ok (pad 32 (pad p.ciphertextBytes r)) = _
    rw [pad_pad]
    cases p <;> decide

end LibCrypto

end P2Party
