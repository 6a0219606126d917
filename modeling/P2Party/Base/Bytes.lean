import Mathlib.Algebra.Ring.Int.Defs
import Mathlib.Algebra.Ring.Nat
import Mathlib.Data.FinEnum
import Mathlib.Data.List.Induction
import Mathlib.Tactic.Common

/-!
# Byte strings

Wire formats and key material are byte strings. This module fixes the one
representation the development uses (`Bytes`, a list of `UInt8`) and proves the
codecs every format below is built from:

- `beBytes w n` / `beNat`: the big-endian `w`-byte encoding of a natural
  number and its inverse (`beNat_beBytes`, `beBytes_beNat`);
- `textEncode` / `textDecode`: UTF-8 text (`textDecode_textEncode`);
- `hexChars` / `hexDecode`: lower-case hexadecimal text and its inverse
  (`hexDecode_hexChars`), with the facts that make `hex ‖ ':' ‖ decimal` an
  unambiguous map key (`hexChars_colon_inj`).
-/

namespace Base

/-- A byte string. -/
abbrev Bytes := List UInt8

/-- Twelve zero bytes. -/
theorem length_zeros_twelve : (List.replicate 12 (0 : UInt8)).length = 12 := rfl

/-! ## Big-endian integers -/

/-- The `w` low-order bytes of `n`, most significant first. -/
def beBytes : Nat → Nat → Bytes
  | 0, _ => []
  | w + 1, n => beBytes w (n / 256) ++ [UInt8.ofNat n]

/-- The big-endian value of a byte string. -/
def beNat (bs : Bytes) : Nat :=
  bs.foldl (fun acc b => acc * 256 + b.toNat) 0

@[simp] theorem length_beBytes (w n : Nat) : (beBytes w n).length = w := by
  induction w generalizing n with
  | zero => rfl
  | succ w ih => simp [beBytes, ih]

theorem beNat_append_singleton (bs : Bytes) (b : UInt8) :
    beNat (bs ++ [b]) = beNat bs * 256 + b.toNat := by
  simp [beNat, List.foldl_append]

theorem beNat_beBytes_mod (w n : Nat) : beNat (beBytes w n) = n % 256 ^ w := by
  induction w generalizing n with
  | zero => simp [beBytes, beNat, Nat.mod_one]
  | succ w ih =>
    have hsplit : n % 256 ^ (w + 1) = n % 256 + 256 * (n / 256 % 256 ^ w) := by
      rw [Nat.pow_succ', Nat.mod_mul]
    rw [beBytes, beNat_append_singleton, ih, hsplit, UInt8.toNat_ofNat']
    omega

/-- Decoding inverts encoding for every value that fits the field. -/
@[simp] theorem beNat_beBytes {w n : Nat} (h : n < 256 ^ w) :
    beNat (beBytes w n) = n := by
  rw [beNat_beBytes_mod, Nat.mod_eq_of_lt h]

theorem beNat_lt (bs : Bytes) : beNat bs < 256 ^ bs.length := by
  induction bs using List.reverseRecOn with
  | nil => simp [beNat]
  | append_singleton bs b ih =>
    rw [beNat_append_singleton, List.length_append, List.length_singleton, Nat.pow_succ]
    have hb : b.toNat < 256 := b.toNat_lt
    omega

/-- Encoding inverts decoding: a field has exactly one spelling. -/
theorem beBytes_beNat (bs : Bytes) : beBytes bs.length (beNat bs) = bs := by
  induction bs using List.reverseRecOn with
  | nil => rfl
  | append_singleton bs b ih =>
    have hb : b.toNat < 256 := b.toNat_lt
    rw [List.length_append, List.length_singleton, beBytes, beNat_append_singleton]
    have hdiv : (beNat bs * 256 + b.toNat) / 256 = beNat bs := by omega
    have hbyte : UInt8.ofNat (beNat bs * 256 + b.toNat) = b := by
      apply UInt8.toNat_inj.mp
      rw [UInt8.toNat_ofNat']
      omega
    rw [hdiv, ih, hbyte]

/-- Two values that fit a field and encode alike are equal. -/
theorem beBytes_inj {w m n : Nat} (hm : m < 256 ^ w) (hn : n < 256 ^ w)
    (h : beBytes w m = beBytes w n) : m = n := by
  rw [← beNat_beBytes hm, h, beNat_beBytes hn]

/-! ## UTF-8 text -/

/-- The UTF-8 bytes of a text. -/
def textEncode (s : String) : Bytes := s.toUTF8.data.toList

/-- The text a byte string spells in UTF-8, if it is well formed. -/
def textDecode (bs : Bytes) : Option String := String.fromUTF8? ⟨bs.toArray⟩

@[simp] theorem textDecode_textEncode (s : String) : textDecode (textEncode s) = some s := by
  have hbytes : (⟨(textEncode s).toArray⟩ : ByteArray) = s.toUTF8 := rfl
  rw [textDecode, hbytes, String.fromUTF8?]
  exact dif_pos s.isValidUTF8

theorem textEncode_of_textDecode {bs : Bytes} {s : String} (h : textDecode bs = some s) :
    textEncode s = bs := by
  unfold textDecode String.fromUTF8? at h
  split at h
  · cases h
    simp [textEncode, String.fromUTF8]
  · cases h

/-- A text is encoded character by character. -/
theorem textEncode_eq_flatMap (s : String) :
    textEncode s = s.toList.flatMap String.utf8EncodeChar := by
  rw [textEncode, String.toUTF8_eq_toByteArray, ← String.utf8Encode_toList, List.utf8Encode]
  simp

/-- Seven-bit characters are encoded as themselves. -/
theorem textEncode_of_ascii {s : String} (h : ∀ c ∈ s.toList, c.toNat < 128) :
    textEncode s = s.toList.map fun c => c.val.toUInt8 := by
  rw [textEncode_eq_flatMap]
  revert h
  induction s.toList with
  | nil => exact fun _ => rfl
  | cons c cs ih =>
    intro h
    have hc : c.utf8Size = 1 := by
      rw [Char.utf8Size_eq_one_iff, UInt32.le_iff_toNat_le]
      exact Nat.le_of_lt_succ (h c List.mem_cons_self)
    rw [List.flatMap_cons, String.utf8EncodeChar_eq_singleton hc,
      ih fun d hd => h d (List.mem_cons_of_mem c hd)]
    rfl

/-! ## Hexadecimal text -/

/-- The two lower-case hexadecimal digits of a byte. -/
def hexByte (b : UInt8) : List Char :=
  [Nat.digitChar (b.toNat / 16), Nat.digitChar (b.toNat % 16)]

/-- Lower-case hexadecimal spelling of a byte string, two digits a byte. -/
def hexChars (bs : Bytes) : List Char :=
  bs.flatMap hexByte

/-- Value of a lower-case hexadecimal digit (zero for any other character). -/
def hexValue (c : Char) : Nat :=
  if '0' ≤ c ∧ c ≤ '9' then c.toNat - 48
  else if 'a' ≤ c ∧ c ≤ 'f' then c.toNat - 87
  else 0

/-- Whether a character is a lower-case hexadecimal digit. -/
def isHexDigit (c : Char) : Bool :=
  ('0' ≤ c && c ≤ '9') || ('a' ≤ c && c ≤ 'f')

/-- Read hexadecimal text two digits at a time. -/
def hexDecode : List Char → Bytes
  | hi :: lo :: rest => UInt8.ofNat (hexValue hi * 16 + hexValue lo) :: hexDecode rest
  | _ => []

theorem hexValue_digitChar {n : Nat} (h : n < 16) : hexValue (Nat.digitChar n) = n := by
  revert n
  decide

theorem isHexDigit_digitChar {n : Nat} (h : n < 16) : isHexDigit (Nat.digitChar n) = true := by
  revert n
  decide

@[simp] theorem hexChars_nil : hexChars [] = [] := rfl

@[simp] theorem hexChars_cons (b : UInt8) (bs : Bytes) :
    hexChars (b :: bs) = hexByte b ++ hexChars bs := rfl

@[simp] theorem length_hexChars (bs : Bytes) : (hexChars bs).length = 2 * bs.length := by
  induction bs with
  | nil => rfl
  | cons b bs ih =>
    rw [hexChars_cons, List.length_append, ih]
    simp [hexByte]
    omega

theorem byte_of_digits (b : UInt8) : UInt8.ofNat (b.toNat / 16 * 16 + b.toNat % 16) = b := by
  have hb : b.toNat < 256 := b.toNat_lt
  apply UInt8.toNat_inj.mp
  rw [UInt8.toNat_ofNat']
  omega

/-- Hexadecimal text reads back to the bytes it spells. -/
@[simp] theorem hexDecode_hexChars (bs : Bytes) : hexDecode (hexChars bs) = bs := by
  induction bs with
  | nil => rfl
  | cons b bs ih =>
    have hb : b.toNat < 256 := b.toNat_lt
    show UInt8.ofNat (hexValue _ * 16 + hexValue _) :: hexDecode (hexChars bs) = b :: bs
    rw [ih, hexValue_digitChar (by omega), hexValue_digitChar (by omega), byte_of_digits]

theorem hexChars_injective : Function.Injective hexChars := fun a b h => by
  rw [← hexDecode_hexChars a, h, hexDecode_hexChars]

theorem isHexDigit_of_mem_hexChars {bs : Bytes} {c : Char} (h : c ∈ hexChars bs) :
    isHexDigit c = true := by
  obtain ⟨b, -, hc⟩ := List.mem_flatMap.mp h
  have hb : b.toNat < 256 := b.toNat_lt
  rcases List.mem_cons.mp hc with rfl | hc
  · exact isHexDigit_digitChar (by omega)
  · rw [List.mem_singleton] at hc
    subst hc
    exact isHexDigit_digitChar (by omega)

theorem colon_notMem_hexChars (bs : Bytes) : ':' ∉ hexChars bs := fun h => by
  have := isHexDigit_of_mem_hexChars h
  revert this
  decide

theorem colon_notMem_toDigits (n : Nat) : ':' ∉ Nat.toDigits 10 n := fun h => by
  have := Nat.isDigit_of_mem_toDigits (by decide) (by decide) h
  revert this
  decide

theorem toDigits_injective : Function.Injective (Nat.toDigits 10) := fun a b h => by
  rw [← Nat.ofDigitChars_ten_toDigits (n := a), h, Nat.ofDigitChars_ten_toDigits]

/-- Splitting two texts at the first separator is unambiguous. -/
theorem append_sep_inj {α : Type} {sep : α} {a b x y : List α} (ha : sep ∉ a) (hb : sep ∉ b)
    (h : a ++ sep :: x = b ++ sep :: y) : a = b ∧ x = y := by
  induction a generalizing b with
  | nil =>
    cases b with
    | nil => exact ⟨rfl, (List.cons.inj h).2⟩
    | cons c b =>
      have := (List.cons.inj h).1
      exact absurd (this ▸ List.mem_cons_self) hb
  | cons c a ih =>
    cases b with
    | nil =>
      have := (List.cons.inj h).1
      exact absurd (this ▸ List.mem_cons_self) ha
    | cons d b =>
      obtain ⟨rfl, htail⟩ := List.cons.inj h
      obtain ⟨rfl, rfl⟩ := ih (fun hm => ha (List.mem_cons_of_mem _ hm))
        (fun hm => hb (List.mem_cons_of_mem _ hm)) htail
      exact ⟨rfl, rfl⟩

/-- `hex(bytes) ‖ ':' ‖ rest` determines both the bytes and the rest. -/
theorem hexChars_colon_inj {a b : Bytes} {x y : List Char}
    (h : hexChars a ++ ':' :: x = hexChars b ++ ':' :: y) : a = b ∧ x = y := by
  obtain ⟨hhex, hrest⟩ :=
    append_sep_inj (colon_notMem_hexChars a) (colon_notMem_hexChars b) h
  exact ⟨hexChars_injective hhex, hrest⟩

end Base
