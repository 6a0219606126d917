import P2Party.Base.Utf8

/-!
# Strings of UTF-16 code units

A JavaScript string is any list of 16-bit code units; a surrogate without its partner is
allowed. Text is encoded as UTF-8 after such a unit has been replaced by U+FFFD, so the
encoder alone is not injective; on strings that decode to themselves it is.

- `JsString.encode`, `JsString.decode`: `TextEncoder` and `TextDecoder`;
- `encode_inj_of_decode`: the encoder is injective on what survives the round trip;
- `ofString`: the units of a text;
- `decimal`: a number in decimal, and `decimal_injective`, `colon_notMem_decimal`.
-/

namespace Base

/-- A list of UTF-16 code units. -/
abbrev JsString := List UInt16

namespace JsString

/-- The first half of a pair. -/
def isHigh (unit : UInt16) : Bool := decide (0xd800 ≤ unit.toNat ∧ unit.toNat ≤ 0xdbff)

/-- The second half of a pair. -/
def isLow (unit : UInt16) : Bool := decide (0xdc00 ≤ unit.toNat ∧ unit.toNat ≤ 0xdfff)

/-- One unit that is not part of a pair. -/
def single (unit : UInt16) : Char :=
  if isHigh unit || isLow unit then replacement else Char.ofNat unit.toNat

/-- The characters of a string; a surrogate without its partner is replaced. -/
def scalarValues : JsString → List Char
  | [] => []
  | [unit] => [single unit]
  | high :: low :: rest =>
    if isHigh high && isLow low then
      Char.ofNat (0x10000 + (high.toNat - 0xd800) * 0x400 + (low.toNat - 0xdc00)) ::
        scalarValues rest
    else single high :: scalarValues (low :: rest)

/-- The units of one character. -/
def units (c : Char) : JsString :=
  if c.toNat < 0x10000 then [UInt16.ofNat c.toNat]
  else [UInt16.ofNat (0xd800 + (c.toNat - 0x10000) / 0x400),
    UInt16.ofNat (0xdc00 + (c.toNat - 0x10000) % 0x400)]

/-- The units of a text. -/
def ofString (s : String) : JsString := s.toList.flatMap units

/-- `TextEncoder.encode`. -/
def encode (s : JsString) : Bytes := (scalarValues s).flatMap String.utf8EncodeChar

/-- `TextDecoder.decode`, which drops a leading byte-order mark. -/
def decode (bs : Bytes) : JsString := (utf8Decode bs).flatMap units

/-- Strings that decode to themselves are told apart by their bytes. -/
theorem encode_inj_of_decode {a b : JsString} (ha : decode (encode a) = a)
    (hb : decode (encode b) = b) (h : encode a = encode b) : a = b := by
  rw [← ha, h, hb]

/-- `String(n)`. -/
def decimal (n : Nat) : JsString := (Nat.toDigits 10 n).map fun c => UInt16.ofNat c.toNat

theorem toDigits_of_decimal (n : Nat) :
    (decimal n).map (fun unit => Char.ofNat unit.toNat) = Nat.toDigits 10 n := by
  have hdigit : ∀ c ∈ Nat.toDigits 10 n, Char.ofNat (UInt16.ofNat c.toNat).toNat = c := by
    intro c hc
    have hascii : c.toNat < 2 ^ 16 := by
      have hdigit := Nat.isDigit_of_mem_toDigits (by decide) (by decide) hc
      simp only [Char.isDigit, Bool.and_eq_true, decide_eq_true_eq] at hdigit
      have hle : c.toNat ≤ 57 := hdigit.2
      omega
    rw [UInt16.toNat_ofNat_of_lt' hascii, Char.ofNat_toNat]
  rw [decimal, List.map_map]
  exact (List.map_congr_left hdigit).trans (List.map_id _)

theorem decimal_injective : Function.Injective decimal := by
  intro m n h
  apply toDigits_injective
  rw [← toDigits_of_decimal, ← toDigits_of_decimal, h]

theorem colon_notMem_decimal (n : Nat) : (0x3a : UInt16) ∉ decimal n := by
  intro h
  have hcolon : ':' ∈ (decimal n).map (fun unit => Char.ofNat unit.toNat) :=
    List.mem_map.mpr ⟨0x3a, h, by decide⟩
  rw [toDigits_of_decimal] at hcolon
  exact colon_notMem_toDigits n hcolon

/-- A lone surrogate does not survive, and neither does a leading byte-order mark. -/
example : decode (encode [0xd800, 0x61]) = [0xfffd, 0x61] ∧ decode (encode [0xfeff, 0x61]) = [0x61] ∧
    decode (encode [0xd83d, 0xde00]) = [0xd83d, 0xde00] := by decide +kernel

end JsString

end Base
