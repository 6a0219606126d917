import P2Party.Base.Bytes

/-!
# The browser's cryptography

What the storage layer calls of `crypto.subtle`: AES-GCM with a 128-bit tag under a key that
never leaves the browser, and SHA-256. As with `LibCrypto` the sizes are part of the
structure and the law the callers rely on is stated beside it.

`WebCrypto.transparent` leaves the plaintext readable and appends a tag that depends on the
associated data alone; it satisfies the law and lets a run be computed.
-/

namespace P2Party

open Base

/-- `crypto.subtle`: key, IV and associated data first. -/
structure WebCrypto where
  /-- AES-GCM encryption: ciphertext and 16-byte tag. -/
  encrypt : Bytes → Bytes → Bytes → Bytes → Bytes
  /-- AES-GCM decryption, rejected when the tag does not match. -/
  decrypt : Bytes → Bytes → Bytes → Bytes → Option Bytes
  /-- SHA-256. -/
  sha256 : Bytes → Bytes
  length_encrypt : ∀ key iv aad pt, (encrypt key iv aad pt).length = pt.length + 16

namespace WebCrypto

attribute [simp] length_encrypt

/-- AES-GCM decrypts what it encrypted under the same key, IV and associated data. -/
structure GcmLaws (W : WebCrypto) : Prop where
  decrypt_encrypt : ∀ key iv aad pt, W.decrypt key iv aad (W.encrypt key iv aad pt) = some pt

/-- What AES-GCM is asked to decrypt. -/
structure Query where
  key : Bytes
  iv : Bytes
  aad : Bytes
  ciphertext : Bytes
deriving DecidableEq

/-- The query is answered with a plaintext. -/
def Query.Succeeds (W : WebCrypto) (q : Query) : Prop :=
  (W.decrypt q.key q.iv q.aad q.ciphertext).isSome = true

/-- Two inputs of SHA-256 that collide. -/
def Collide (W : WebCrypto) (a b : Bytes) : Prop := a ≠ b ∧ W.sha256 a = W.sha256 b

/-- Sixteen bytes that depend on the length and on every byte of the associated data. -/
def transparentTag (aad : Bytes) : Bytes :=
  beBytes 16 (aad.foldl (fun code b => code * 257 + b.toNat + 1) 0)

/-- Everything in the clear; the tag is computed from the associated data alone. -/
def transparent : WebCrypto where
  encrypt _ _ aad pt := pt ++ transparentTag aad
  decrypt _ _ aad ct :=
    if ct.drop (ct.length - 16) = transparentTag aad then some (ct.take (ct.length - 16)) else none
  sha256 bs := bs
  length_encrypt _ _ aad pt := by simp [transparentTag]

theorem transparent_gcmLaws : GcmLaws transparent where
  decrypt_encrypt _ _ aad pt := by
    show (if _ then some _ else none) = some pt
    rw [if_pos]
    · simp [transparent, transparentTag]
    · simp [transparent, transparentTag]

end WebCrypto

end P2Party
