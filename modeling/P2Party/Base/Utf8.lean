import P2Party.Base.Bytes

/-!
# Decoding UTF-8 with replacement

A decoder that never fails: a byte that cannot continue the current character
ends it with a replacement character and is then read as the start of the next
one. The state between two bytes is `Utf8State`; `utf8Step` reads one byte.

- `utf8Decode`: the decoder, without a leading byte-order mark;
- `utf8DecodeFrom_cons_ascii`: a seven-bit byte is its own character.
-/

namespace Base

/-- What the decoder remembers between two bytes of one character: the bits so
far, how many bytes are missing and the range of the next one. -/
structure Utf8State where
  codePoint : Nat
  needed : Nat
  lower : Nat
  upper : Nat
deriving DecidableEq, Repr

/-- Between two characters. -/
def Utf8State.idle : Utf8State := ⟨0, 0, 0x80, 0xbf⟩

/-- The replacement character. -/
def replacement : Char := Char.ofNat 0xfffd

/-- Read the first byte of a character. -/
def utf8Start (byte : Nat) : List Char × Utf8State :=
  if byte ≤ 0x7f then ([Char.ofNat byte], .idle)
  else if 0xc2 ≤ byte ∧ byte ≤ 0xdf then ([], ⟨byte % 0x20, 1, 0x80, 0xbf⟩)
  else if 0xe0 ≤ byte ∧ byte ≤ 0xef then
    ([], ⟨byte % 0x10, 2, if byte = 0xe0 then 0xa0 else 0x80, if byte = 0xed then 0x9f else 0xbf⟩)
  else if 0xf0 ≤ byte ∧ byte ≤ 0xf4 then
    ([], ⟨byte % 0x08, 3, if byte = 0xf0 then 0x90 else 0x80, if byte = 0xf4 then 0x8f else 0xbf⟩)
  else ([replacement], .idle)

/-- Read one byte: the characters it completes, and the state after it. -/
def utf8Step (state : Utf8State) (byte : Nat) : List Char × Utf8State :=
  if state.needed = 0 then utf8Start byte
  else if state.lower ≤ byte ∧ byte ≤ state.upper then
    let codePoint := state.codePoint * 0x40 + byte % 0x40
    if state.needed = 1 then ([Char.ofNat codePoint], .idle)
    else ([], ⟨codePoint, state.needed - 1, 0x80, 0xbf⟩)
  else (replacement :: (utf8Start byte).1, (utf8Start byte).2)

/-- Decode from a state on; an unfinished character at the end is replaced. -/
def utf8DecodeFrom : Utf8State → Bytes → List Char
  | state, [] => if state.needed = 0 then [] else [replacement]
  | state, byte :: rest =>
    (utf8Step state byte.toNat).1 ++ utf8DecodeFrom (utf8Step state byte.toNat).2 rest

/-- Decode a byte string, dropping a leading byte-order mark. -/
def utf8Decode (bs : Bytes) : List Char :=
  utf8DecodeFrom .idle (if bs.take 3 = [0xef, 0xbb, 0xbf] then bs.drop 3 else bs)

theorem utf8DecodeFrom_cons_ascii {byte : UInt8} (h : byte.toNat < 128) (rest : Bytes) :
    utf8DecodeFrom .idle (byte :: rest) =
      Char.ofNat byte.toNat :: utf8DecodeFrom .idle rest := by
  have hstep : utf8Step .idle byte.toNat = ([Char.ofNat byte.toNat], .idle) := by
    rw [utf8Step, if_pos (show Utf8State.idle.needed = 0 from rfl), utf8Start, if_pos (Nat.le_of_lt_succ h)]
  rw [utf8DecodeFrom, hstep, List.singleton_append]

end Base
