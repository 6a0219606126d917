import P2Party.Base.JsString

/-!
# Hexadecimal digits as code units

Digits of either case are read, digits of lower case are written.

- `digitValue`, `digitUnit`: one digit, and `foldCase_eq_of_digitValue`: a value is that of one
  digit, up to case;
- `hexUnits`, `hexPairs`: bytes and their digits, and `hexPairs_hexUnits`.
-/

namespace Base

/-- The value of a digit of either case. -/
def digitValue (unit : UInt16) : Option Nat :=
  if 0x30 ≤ unit.toNat ∧ unit.toNat ≤ 0x39 then some (unit.toNat - 0x30)
  else if 0x61 ≤ unit.toNat ∧ unit.toNat ≤ 0x66 then some (unit.toNat - 0x57)
  else if 0x41 ≤ unit.toNat ∧ unit.toNat ≤ 0x46 then some (unit.toNat - 0x37)
  else none

/-- `[0-9A-Fa-f]`. -/
def isHexUnit (unit : UInt16) : Bool := (digitValue unit).isSome

/-- `[0-9a-f]`. -/
def isLowerHexUnit (unit : UInt16) : Bool :=
  decide ((0x30 ≤ unit.toNat ∧ unit.toNat ≤ 0x39) ∨ (0x61 ≤ unit.toNat ∧ unit.toNat ≤ 0x66))

/-- A digit in lower case. -/
def foldCase (unit : UInt16) : UInt16 :=
  if 0x41 ≤ unit.toNat ∧ unit.toNat ≤ 0x46 then UInt16.ofNat (unit.toNat + 0x20) else unit

/-- The digit of a value. -/
def digitUnit (n : Nat) : UInt16 := UInt16.ofNat (if n < 10 then 0x30 + n else 0x57 + n)

/-- The digits of a byte string. -/
def hexUnits (bs : Bytes) : JsString :=
  bs.flatMap fun b => [digitUnit (b.toNat / 16), digitUnit (b.toNat % 16)]

/-- The bytes of digits, two at a time. -/
def hexPairs : JsString → Bytes
  | high :: low :: rest =>
    UInt8.ofNat ((digitValue high).getD 0 * 16 + (digitValue low).getD 0) :: hexPairs rest
  | _ => []

/-! ## One digit -/

theorem digitValue_digitUnit {n : Nat} (h : n < 16) : digitValue (digitUnit n) = some n := by
  revert n
  decide

theorem isLowerHexUnit_digitUnit {n : Nat} (h : n < 16) : isLowerHexUnit (digitUnit n) = true := by
  revert n
  decide

theorem digitValue_lt {unit : UInt16} {n : Nat} (h : digitValue unit = some n) : n < 16 := by
  unfold digitValue at h
  split at h
  · obtain rfl := Option.some.inj h
    omega
  · split at h
    · obtain rfl := Option.some.inj h
      omega
    · split at h
      · obtain rfl := Option.some.inj h
        omega
      · cases h

theorem isHexUnit_of_lower {unit : UInt16} (h : isLowerHexUnit unit = true) :
    isHexUnit unit = true := by
  unfold isHexUnit digitValue
  rcases of_decide_eq_true h with hdigit | hletter
  · rw [if_pos hdigit]
    rfl
  · rw [if_neg (by omega), if_pos hletter]
    rfl

/-- The digits of one value differ in case only. -/
theorem foldCase_eq_of_digitValue {unit : UInt16} {n : Nat} (h : digitValue unit = some n) :
    foldCase unit = digitUnit n := by
  have hn := digitValue_lt h
  unfold digitValue at h
  apply UInt16.toNat_inj.mp
  unfold foldCase digitUnit
  split at h
  · obtain rfl := Option.some.inj h
    rw [if_neg (by omega), if_pos (by omega), UInt16.toNat_ofNat_of_lt' (by change _ < 65536; omega)]
    omega
  · split at h
    · obtain rfl := Option.some.inj h
      rw [if_neg (by omega), if_neg (by omega), UInt16.toNat_ofNat_of_lt' (by change _ < 65536; omega)]
      omega
    · split at h
      · obtain rfl := Option.some.inj h
        rw [if_pos (by omega), if_neg (by omega), UInt16.toNat_ofNat_of_lt' (by change _ < 65536; omega),
          UInt16.toNat_ofNat_of_lt' (by change _ < 65536; omega)]
        omega
      · cases h

/-! ## Many digits -/

@[simp] theorem length_hexUnits (bs : Bytes) : (hexUnits bs).length = 2 * bs.length := by
  induction bs with
  | nil => rfl
  | cons b bs ih =>
    show (hexUnits bs).length + 2 = 2 * (bs.length + 1)
    omega

theorem hexPairs_two (high low : UInt16) : hexPairs [high, low] =
    [UInt8.ofNat ((digitValue high).getD 0 * 16 + (digitValue low).getD 0)] := rfl

@[simp] theorem hexPairs_hexUnits (bs : Bytes) : hexPairs (hexUnits bs) = bs := by
  induction bs with
  | nil => rfl
  | cons b bs ih =>
    have hb : b.toNat < 256 := b.toNat_lt
    show UInt8.ofNat ((digitValue (digitUnit _)).getD 0 * 16 + (digitValue (digitUnit _)).getD 0) ::
      hexPairs (hexUnits bs) = b :: bs
    rw [ih, digitValue_digitUnit (by omega), digitValue_digitUnit (by omega)]
    exact congrArg (· :: bs) (byte_of_digits b)

theorem hexUnits_injective : Function.Injective hexUnits := fun a b h => by
  rw [← hexPairs_hexUnits a, h, hexPairs_hexUnits]

theorem isLowerHexUnit_of_mem_hexUnits {bs : Bytes} {unit : UInt16} (h : unit ∈ hexUnits bs) :
    isLowerHexUnit unit = true := by
  obtain ⟨b, -, hunit⟩ := List.mem_flatMap.mp h
  have hb : b.toNat < 256 := b.toNat_lt
  rcases List.mem_cons.mp hunit with rfl | hunit
  · exact isLowerHexUnit_digitUnit (by omega)
  · obtain rfl := List.mem_singleton.mp hunit
    exact isLowerHexUnit_digitUnit (by omega)

theorem notMem_hexUnits {bs : Bytes} {unit : UInt16} (h : isLowerHexUnit unit = false) :
    unit ∉ hexUnits bs := fun hmem => by
  rw [isLowerHexUnit_of_mem_hexUnits hmem] at h
  cases h

end Base
