import P2Party.Base.Exec
import P2Party.Base.HexUnits
import P2Party.Cryptography.LibCrypto
import Mathlib.Data.List.Basic
import Mathlib.Data.List.TakeWhile

/-!
# The fingerprint in a session description (`handlers/handleHandshake.ts`)

Both parties read the fingerprint of a certificate out of SDP text and bind it into the transcript
of the handshake. The text is matched with a regular expression, what it captures is split at the
colons, each group is read by `parseInt` and stored in a byte array.

The expression ends where a character is no digit and no colon, `parseInt` reads as many digits as
there are, and the byte array takes a number modulo 256. So a group need not have two digits, and
the value of the attribute need not end where the groups end.

- `FINGERPRINT_RE`, `parseFingerprintFromSdp`: as in the source;
- `firstAttribute`, `IsFingerprint`, `bytesOf`: what the attribute of an SDP text says;
- `fingerprint_agrees`: exactly where the two agree, and what two texts with the same bytes have in
  common.
-/

namespace P2Party

open Base

/-! ## Groups -/

section Groups

variable {α β : Type} [BEq α] [LawfulBEq α]

/-- What is in a group is in the text, and is no separator. -/
theorem mem_of_mem_splitOn {sep : α} {text group : List α} (hgroup : group ∈ text.splitOn sep)
    {x : α} (hx : x ∈ group) : x ∈ text ∧ x ≠ sep := by
  induction text generalizing group with
  | nil =>
    rw [List.splitOn_nil, List.mem_singleton] at hgroup
    rw [hgroup] at hx
    exact absurd hx List.not_mem_nil
  | cons first rest ih =>
    rw [List.splitOn_cons_eq_if_modifyHead] at hgroup
    by_cases hsep : (first == sep) = true
    · rw [if_pos hsep, List.mem_cons] at hgroup
      rcases hgroup with rfl | hgroup
      · exact absurd hx List.not_mem_nil
      · obtain ⟨hmem, hne⟩ := ih hgroup hx
        exact ⟨List.mem_cons_of_mem _ hmem, hne⟩
    · rw [if_neg hsep] at hgroup
      have hfirst : first ≠ sep := fun h => hsep (beq_iff_eq.mpr h)
      cases hsplit : rest.splitOn sep with
      | nil => exact absurd hsplit (List.splitOn_ne_nil _ _)
      | cons head tail =>
        rw [hsplit] at hgroup ih
        rw [List.modifyHead_cons, List.mem_cons] at hgroup
        rcases hgroup with rfl | hgroup
        · rcases List.mem_cons.mp hx with rfl | hx
          · exact ⟨List.mem_cons_self, hfirst⟩
          · obtain ⟨hmem, hne⟩ := ih List.mem_cons_self hx
            exact ⟨List.mem_cons_of_mem _ hmem, hne⟩
        · obtain ⟨hmem, hne⟩ := ih (List.mem_cons_of_mem _ hgroup) hx
          exact ⟨List.mem_cons_of_mem _ hmem, hne⟩

omit [BEq α] [LawfulBEq α] in
theorem map_intercalate (f : α → β) (sep : List α) (groups : List (List α)) :
    (sep.intercalate groups).map f = (sep.map f).intercalate (groups.map (·.map f)) := by
  induction groups with
  | nil => rfl
  | cons first rest ih =>
    cases rest with
    | nil => simp
    | cons second rest =>
      rw [List.intercalate_cons_cons, List.map_append, List.map_append, ih]
      simp only [List.map_cons, List.intercalate_cons_cons]

end Groups

namespace Fingerprint

/-! ## The parser -/

/-- `a=fingerprint:sha-256`. -/
def ATTRIBUTE : JsString :=
  [0x61, 0x3d, 0x66, 0x69, 0x6e, 0x67, 0x65, 0x72, 0x70, 0x72, 0x69, 0x6e, 0x74, 0x3a,
    0x73, 0x68, 0x61, 0x2d, 0x32, 0x35, 0x36]

/-- `\s`: blanks and line terminators. -/
def isSpaceUnit (unit : UInt16) : Bool :=
  decide ((9 ≤ unit.toNat ∧ unit.toNat ≤ 13) ∨ (0x2000 ≤ unit.toNat ∧ unit.toNat ≤ 0x200a) ∨
    unit.toNat ∈ [0x20, 0xa0, 0x1680, 0x2028, 0x2029, 0x202f, 0x205f, 0x3000, 0xfeff])

/-- `:`. -/
abbrev COLON : UInt16 := 0x3a

/-- `[0-9A-Fa-f:]`. -/
def isValueUnit (unit : UInt16) : Bool := isHexUnit unit || unit == COLON

/-- The text begins with `a=fingerprint:sha-256\s`. -/
def startsAttribute (text : JsString) : Bool :=
  ATTRIBUTE.isPrefixOf text && ((text.drop ATTRIBUTE.length).head?.map isSpaceUnit).getD false

/-- `FINGERPRINT_RE` at the beginning of a text, with what it captures. No blank is a digit or a
colon, so what follows the longest run of blanks decides. -/
def matchHere (text : JsString) : Option JsString :=
  let captured := ((text.drop ATTRIBUTE.length).dropWhile isSpaceUnit).takeWhile isValueUnit
  if startsAttribute text = true ∧ captured ≠ [] then some captured else none

/-- `FINGERPRINT_RE.exec(sdp)?.[1]`: the first match. -/
def FINGERPRINT_RE : JsString → Option JsString
  | [] => none
  | unit :: rest =>
    match matchHere (unit :: rest) with
    | some captured => some captured
    | none => FINGERPRINT_RE rest

/-- The number nearest to a natural number, ties to even; beyond the largest one it is infinite. -/
def toDouble (n : Nat) : Option Nat :=
  let unit := 2 ^ (n.log2 + 1 - 53)
  let rounded :=
    if 2 * (n % unit) > unit ∨ (2 * (n % unit) = unit ∧ n / unit % 2 = 1) then n / unit + 1 else n / unit
  if rounded * unit < 2 ^ 1024 then some (rounded * unit) else none

/-- The number of the digits a group begins with, as `parseInt(group, 16)` reads it. `none` is `NaN`.
A group that the expression captures has no blank, sign or `0x`. -/
def parseInt16 (group : JsString) : Option Nat :=
  let digits := group.takeWhile isHexUnit
  if digits = [] then none else some (digits.foldl (fun n unit => n * 16 + (digitValue unit).getD 0) 0)

/-- What `Uint8Array.from` makes of a number. -/
def toUint8 (number : Option Nat) : UInt8 := UInt8.ofNat ((number.bind toDouble).getD 0)

/-- `parseFingerprintFromSdp` (handleHandshake.ts:44-53). -/
def parseFingerprintFromSdp (sdp : JsString) : Except JsError Bytes :=
  match FINGERPRINT_RE sdp with
  | none => .error (.error "No sha-256 DTLS fingerprint found in SDP")
  | some captured => do
    let bytes := (captured.splitOn COLON).map parseInt16
    demand (¬ (bytes.length ≠ 32 ∨ bytes.any Option.isNone = true))
      (.error "Malformed sha-256 DTLS fingerprint in SDP")
    return bytes.map toUint8

/-! ## What the attribute says -/

/-- A carriage return or a line feed. -/
def isLineEnd (unit : UInt16) : Bool := unit == 0x0d || unit == 0x0a

/-- The value of the attribute a text begins with: the rest of the line, after the blanks. -/
def valueOf (text : JsString) : JsString :=
  ((text.drop ATTRIBUTE.length).takeWhile fun unit => !isLineEnd unit).dropWhile isSpaceUnit

/-- The value of the first attribute. -/
def firstAttribute : JsString → Option JsString
  | [] => none
  | unit :: rest => if startsAttribute (unit :: rest) then some (valueOf (unit :: rest)) else firstAttribute rest

/-- 32 groups of two digits, with colons between them. -/
structure IsFingerprint (value : JsString) : Prop where
  count : (value.splitOn COLON).length = 32
  digits : ∀ group ∈ value.splitOn COLON, group.length = 2 ∧ ∀ unit ∈ group, isHexUnit unit = true

/-- The bytes of the groups. -/
def bytesOf (value : JsString) : Bytes := (value.splitOn COLON).flatMap hexPairs

/-- The parser gives the bytes of the first attribute when its value is a fingerprint, and nothing
otherwise. -/
def Meets (sdp : JsString) : Prop :=
  ∀ bytes, parseFingerprintFromSdp sdp = .ok bytes ↔
    ∃ value, firstAttribute sdp = some value ∧ IsFingerprint value ∧ bytes = bytesOf value

/-- 32 groups with a digit each. -/
structure Grouped (captured : JsString) : Prop where
  count : (captured.splitOn COLON).length = 32
  nonempty : ∀ group ∈ captured.splitOn COLON, group ≠ []

/-- If what the expression captures has 32 groups that are not empty, then it is the value of the
first attribute, and each group has two digits. -/
def Exact (sdp : JsString) : Prop :=
  ∀ captured, FINGERPRINT_RE sdp = some captured → Grouped captured →
    firstAttribute sdp = some captured ∧ ∀ group ∈ captured.splitOn COLON, group.length = 2

/-! ## What is captured -/

variable {sdp text value captured : JsString}

theorem not_space_of_value {unit : UInt16} (h : isValueUnit unit = true) : isSpaceUnit unit = false := by
  unfold isValueUnit isHexUnit digitValue at h
  rw [isSpaceUnit, decide_eq_false_iff_not]
  simp only [List.mem_cons, List.not_mem_nil, or_false]
  split at h
  · omega
  · split at h
    · omega
    · split at h
      · omega
      · simp only [Option.isSome_none, Bool.false_or, beq_iff_eq] at h
        rw [h]
        decide

theorem not_value_of_lineEnd {unit : UInt16} (h : isLineEnd unit = true) : isValueUnit unit = false := by
  rw [isLineEnd, Bool.or_eq_true, beq_iff_eq, beq_iff_eq] at h
  rcases h with rfl | rfl <;> decide

theorem isValueUnit_of_captured (h : FINGERPRINT_RE sdp = some captured) :
    ∀ unit ∈ captured, isValueUnit unit = true := by
  induction sdp with
  | nil => cases h
  | cons first rest ih =>
    rw [FINGERPRINT_RE] at h
    cases hhere : matchHere (first :: rest) with
    | none =>
      rw [hhere] at h
      exact ih h
    | some found =>
      rw [hhere] at h
      obtain rfl := Option.some.inj h
      unfold matchHere at hhere
      dsimp only at hhere
      split at hhere
      · obtain rfl := Option.some.inj hhere
        exact fun unit hunit => List.all_eq_true.mp List.all_takeWhile unit hunit
      · cases hhere

theorem isValueUnit_of_fingerprint (h : IsFingerprint value) : ∀ unit ∈ value, isValueUnit unit = true := by
  intro unit hunit
  have hjoin : [COLON].intercalate (value.splitOn COLON) = value := List.intercalate_splitOn COLON
  rw [← hjoin] at hunit
  rw [isValueUnit, Bool.or_eq_true, beq_iff_eq]
  have hall : ∀ groups : List JsString, (∀ group ∈ groups, ∀ u ∈ group, isHexUnit u = true) →
      unit ∈ [COLON].intercalate groups → isHexUnit unit = true ∨ unit = COLON := by
    intro groups hgroups hmem
    induction groups with
    | nil => exact absurd hmem List.not_mem_nil
    | cons first rest ih =>
      have hfirst := hgroups first List.mem_cons_self
      have hrest := fun group hg => hgroups group (List.mem_cons_of_mem _ hg)
      cases rest with
      | nil =>
        rw [List.intercalate_singleton] at hmem
        exact Or.inl (hfirst unit hmem)
      | cons second rest =>
        rw [List.intercalate_cons_cons, List.append_assoc, List.mem_append, List.mem_append,
          List.mem_singleton] at hmem
        rcases hmem with hmem | hmem | hmem
        · exact Or.inl (hfirst unit hmem)
        · exact Or.inr hmem
        · exact ih hrest hmem
  exact hall _ (fun group hg => (h.digits group hg).2) hunit

theorem IsFingerprint.ne_nil (h : IsFingerprint value) : value ≠ [] := by
  rintro rfl
  have hcount := h.count
  rw [List.splitOn_nil] at hcount
  cases hcount

/-- A fingerprint that stands in the line is what is captured there. -/
theorem matchHere_of_value (hstart : startsAttribute text = true) (h : IsFingerprint (valueOf text)) :
    matchHere text = some (valueOf text) := by
  obtain ⟨first, rest, hvalue⟩ := List.exists_cons_of_ne_nil h.ne_nil
  have hunits := isValueUnit_of_fingerprint h
  have hfirst : isSpaceUnit first = false :=
    not_space_of_value (hunits first (hvalue ▸ List.mem_cons_self))
  -- the line is blanks and the value; what follows it is the end of the line
  have hline := List.takeWhile_append_dropWhile (p := fun unit => !isLineEnd unit)
    (l := text.drop ATTRIBUTE.length)
  have hsplit := List.takeWhile_append_dropWhile (p := isSpaceUnit)
    (l := (text.drop ATTRIBUTE.length).takeWhile fun unit => !isLineEnd unit)
  have hblank : ∀ unit ∈ ((text.drop ATTRIBUTE.length).takeWhile fun unit => !isLineEnd unit).takeWhile
      isSpaceUnit, isSpaceUnit unit = true :=
    fun unit hunit => List.all_eq_true.mp List.all_takeWhile unit hunit
  have hafter : ((text.drop ATTRIBUTE.length).dropWhile fun unit => !isLineEnd unit).takeWhile isValueUnit = [] := by
    cases hd : (text.drop ATTRIBUTE.length).dropWhile fun unit => !isLineEnd unit with
    | nil => rfl
    | cons ending tail =>
      have hend := List.head?_dropWhile_not (fun unit => !isLineEnd unit) (text.drop ATTRIBUTE.length)
      rw [hd] at hend
      have hend' : isLineEnd ending = true := by simpa using hend
      rw [List.takeWhile_cons_of_neg (by rw [not_value_of_lineEnd hend']; exact Bool.false_ne_true)]
  have hcaptured : ((text.drop ATTRIBUTE.length).dropWhile isSpaceUnit).takeWhile isValueUnit = valueOf text := by
    rw [← hline, ← hsplit, List.append_assoc, List.dropWhile_append_of_pos hblank]
    show ((valueOf text ++ _).dropWhile isSpaceUnit).takeWhile isValueUnit = valueOf text
    rw [hvalue, List.cons_append, List.dropWhile_cons_of_neg (by rw [hfirst]; exact Bool.false_ne_true),
      ← List.cons_append, ← hvalue, List.takeWhile_append_of_pos hunits, hafter, List.append_nil]
  unfold matchHere
  dsimp only
  rw [hcaptured, if_pos ⟨hstart, h.ne_nil⟩]

/-- A first attribute that is a fingerprint is what is captured. -/
theorem captured_of_firstAttribute (hattr : firstAttribute sdp = some value) (h : IsFingerprint value) :
    FINGERPRINT_RE sdp = some value := by
  induction sdp with
  | nil => cases hattr
  | cons first rest ih =>
    rw [firstAttribute] at hattr
    rw [FINGERPRINT_RE]
    by_cases hstart : startsAttribute (first :: rest) = true
    · rw [if_pos hstart] at hattr
      obtain rfl := Option.some.inj hattr
      rw [matchHere_of_value hstart h]
    · rw [if_neg hstart] at hattr
      have hnone : matchHere (first :: rest) = none := if_neg fun hc => hstart hc.1
      rw [hnone]
      exact ih hattr

/-! ## What is stored -/

theorem parseInt16_eq_none_iff {group : JsString} (h : ∀ unit ∈ group, isHexUnit unit = true) :
    parseInt16 group = none ↔ group = [] := by
  have htake : group.takeWhile isHexUnit = group := List.takeWhile_eq_self_iff.mpr h
  unfold parseInt16
  dsimp only
  rw [htake]
  split
  · rename_i hnil
    exact ⟨fun _ => hnil, fun _ => rfl⟩
  · rename_i hne
    exact ⟨nofun, fun hnil => absurd hnil hne⟩

theorem toDouble_of_lt {n : Nat} (h : n < 256) : toDouble n = some n := by
  have hlog : n.log2 + 1 - 53 = 0 := by
    have : n.log2 < 53 := by
      by_cases h0 : n = 0
      · rw [h0]
        decide
      · exact (Nat.log2_lt h0).mpr (Nat.lt_trans h (by decide))
    omega
  have hbound : n < 2 ^ 1024 := by
    refine Nat.lt_of_lt_of_le (m := 2 ^ 8) h ?_
    apply Nat.pow_le_pow_right
    · decide
    · decide
  have hexact : ¬ (2 * 0 > 1 ∨ (2 * 0 = 1 ∧ n % 2 = 1)) := by omega
  unfold toDouble
  dsimp only
  rw [hlog, Nat.pow_zero, Nat.mod_one, Nat.div_one, if_neg hexact, Nat.mul_one, if_pos hbound]

/-- Two digits are stored as their byte. -/
theorem toUint8_two {group : JsString} (hlength : group.length = 2)
    (h : ∀ unit ∈ group, isHexUnit unit = true) : hexPairs group = [toUint8 (parseInt16 group)] := by
  obtain ⟨high, low, rfl⟩ := List.length_eq_two.mp hlength
  obtain ⟨m, hm⟩ := Option.isSome_iff_exists.mp (h high List.mem_cons_self)
  obtain ⟨n, hn⟩ := Option.isSome_iff_exists.mp (h low (List.mem_cons_of_mem _ List.mem_cons_self))
  have htake : [high, low].takeWhile isHexUnit = [high, low] := List.takeWhile_eq_self_iff.mpr h
  have hnumber : parseInt16 [high, low] = some (m * 16 + n) := by
    unfold parseInt16
    dsimp only
    rw [htake, if_neg (List.cons_ne_nil _ _), List.foldl_cons, List.foldl_cons, List.foldl_nil, hm, hn]
    simp
  have hlt : m * 16 + n < 256 := by
    have := digitValue_lt hm
    have := digitValue_lt hn
    omega
  rw [hnumber, toUint8, Option.bind_some, toDouble_of_lt hlt, hexPairs_two, hm, hn]
  rfl

/-- When the parser gives bytes, and which. -/
theorem parse_eq_ok_iff {bytes : Bytes} : parseFingerprintFromSdp sdp = .ok bytes ↔
    ∃ captured, FINGERPRINT_RE sdp = some captured ∧ Grouped captured ∧
      bytes = (captured.splitOn COLON).map fun group => toUint8 (parseInt16 group) := by
  unfold parseFingerprintFromSdp
  cases hre : FINGERPRINT_RE sdp with
  | none => exact ⟨nofun, fun ⟨_, h, _⟩ => nomatch h⟩
  | some captured =>
    have hhex : ∀ group ∈ captured.splitOn COLON, ∀ unit ∈ group, isHexUnit unit = true := by
      intro group hgroup unit hunit
      obtain ⟨hmem, hne⟩ := mem_of_mem_splitOn hgroup hunit
      have hvalue := isValueUnit_of_captured hre unit hmem
      rw [isValueUnit, Bool.or_eq_true, beq_iff_eq] at hvalue
      exact hvalue.resolve_right hne
    have hgrouped : ¬ (((captured.splitOn COLON).map parseInt16).length ≠ 32 ∨
        ((captured.splitOn COLON).map parseInt16).any Option.isNone = true) ↔ Grouped captured := by
      rw [not_or, not_not, List.length_map, List.any_map, Bool.not_eq_true, List.any_eq_false]
      constructor
      · rintro ⟨hcount, hnone⟩
        refine ⟨hcount, fun group hgroup hnil => hnone group hgroup ?_⟩
        show (parseInt16 group).isNone = true
        rw [(parseInt16_eq_none_iff (hhex group hgroup)).mpr hnil]
        rfl
      · rintro ⟨hcount, hnonempty⟩
        refine ⟨hcount, fun group hgroup hnone => hnonempty group hgroup ?_⟩
        exact (parseInt16_eq_none_iff (hhex group hgroup)).mp (Option.isNone_iff_eq_none.mp hnone)
    dsimp only
    rw [demand_bind, List.map_map]
    constructor
    · intro h
      split at h
      · rename_i hshape
        exact ⟨captured, rfl, hgrouped.mp hshape, (Except.ok.inj h).symm⟩
      · cases h
    · rintro ⟨found, hfound, hg, rfl⟩
      obtain rfl := Option.some.inj hfound
      rw [if_pos (hgrouped.mpr hg)]
      rfl

theorem IsFingerprint.grouped (h : IsFingerprint value) : Grouped value := by
  refine ⟨h.count, fun group hgroup hnil => ?_⟩
  have hlength := (h.digits group hgroup).1
  rw [hnil] at hlength
  cases hlength

/-- What is stored for a fingerprint. -/
theorem IsFingerprint.bytesOf_eq (h : IsFingerprint value) :
    bytesOf value = (value.splitOn COLON).map fun group => toUint8 (parseInt16 group) := by
  have hgroups : ∀ groups : List JsString,
      (∀ group ∈ groups, group.length = 2 ∧ ∀ unit ∈ group, isHexUnit unit = true) →
      groups.flatMap hexPairs = groups.map fun group => toUint8 (parseInt16 group) := by
    intro groups hall
    induction groups with
    | nil => rfl
    | cons first rest ih =>
      obtain ⟨hlength, hdigits⟩ := hall first List.mem_cons_self
      rw [List.flatMap_cons, toUint8_two hlength hdigits, List.map_cons,
        ih fun group hg => hall group (List.mem_cons_of_mem _ hg)]
      rfl
  exact hgroups _ h.digits

/-! ## Where the two agree -/

/-- **The parser gives what the first attribute says exactly when it does not take 32 groups that
are not the whole value, or one of which has more or less than two digits.** -/
theorem meets_iff (sdp : JsString) : Meets sdp ↔ Exact sdp := by
  constructor
  · intro hmeets captured hre hgrouped
    obtain ⟨value, hattr, hvalue, -⟩ := (hmeets _).mp (parse_eq_ok_iff.mpr ⟨captured, hre, hgrouped, rfl⟩)
    obtain rfl : captured = value :=
      Option.some.inj (hre.symm.trans (captured_of_firstAttribute hattr hvalue))
    exact ⟨hattr, fun group hgroup => (hvalue.digits group hgroup).1⟩
  · intro hexact bytes
    constructor
    · intro hparse
      obtain ⟨captured, hre, hgrouped, rfl⟩ := parse_eq_ok_iff.mp hparse
      obtain ⟨hattr, htwo⟩ := hexact captured hre hgrouped
      have hvalue : IsFingerprint captured := by
        refine ⟨hgrouped.count, fun group hgroup => ⟨htwo group hgroup, fun unit hunit => ?_⟩⟩
        obtain ⟨hmem, hne⟩ := mem_of_mem_splitOn hgroup hunit
        have hclass := isValueUnit_of_captured hre unit hmem
        rw [isValueUnit, Bool.or_eq_true, beq_iff_eq] at hclass
        exact hclass.resolve_right hne
      exact ⟨captured, hattr, hvalue, hvalue.bytesOf_eq.symm⟩
    · rintro ⟨value, hattr, hvalue, rfl⟩
      exact parse_eq_ok_iff.mpr
        ⟨value, captured_of_firstAttribute hattr hvalue, hvalue.grouped, hvalue.bytesOf_eq⟩

/-- A fingerprint is spelled by its bytes, up to case. -/
theorem IsFingerprint.map_foldCase (h : IsFingerprint value) :
    value.map foldCase = [COLON].intercalate ((bytesOf value).map fun byte => hexUnits [byte]) := by
  have hgroups : ∀ groups : List JsString,
      (∀ group ∈ groups, group.length = 2 ∧ ∀ unit ∈ group, isHexUnit unit = true) →
      groups.map (·.map foldCase) = (groups.flatMap hexPairs).map fun byte => hexUnits [byte] := by
    intro groups hall
    induction groups with
    | nil => rfl
    | cons first rest ih =>
      obtain ⟨hlength, hdigits⟩ := hall first List.mem_cons_self
      obtain ⟨high, low, rfl⟩ := List.length_eq_two.mp hlength
      obtain ⟨m, hm⟩ := Option.isSome_iff_exists.mp (hdigits high List.mem_cons_self)
      obtain ⟨n, hn⟩ := Option.isSome_iff_exists.mp
        (hdigits low (List.mem_cons_of_mem _ List.mem_cons_self))
      have hm16 := digitValue_lt hm
      have hn16 := digitValue_lt hn
      have hbyte : (UInt8.ofNat (m * 16 + n)).toNat = m * 16 + n := by
        rw [UInt8.toNat_ofNat', Nat.mod_eq_of_lt (by omega)]
      have hpair : hexUnits [UInt8.ofNat (m * 16 + n)] = [high, low].map foldCase := by
        show [digitUnit ((UInt8.ofNat (m * 16 + n)).toNat / 16),
          digitUnit ((UInt8.ofNat (m * 16 + n)).toNat % 16)] = [foldCase high, foldCase low]
        rw [hbyte, foldCase_eq_of_digitValue hm, foldCase_eq_of_digitValue hn,
          show (m * 16 + n) / 16 = m by omega, show (m * 16 + n) % 16 = n by omega]
      rw [List.map_cons, List.flatMap_cons, List.map_append,
        ih fun group hg => hall group (List.mem_cons_of_mem _ hg), hexPairs_two, hm, hn,
        List.map_singleton]
      exact congrArg (· :: _) hpair.symm
  have hjoin : [COLON].intercalate (value.splitOn COLON) = value := List.intercalate_splitOn COLON
  conv_lhs => rw [← hjoin]
  rw [map_intercalate, hgroups _ h.digits]
  rfl

/-- **The parser gives what the first attribute says exactly when `Exact` holds; two texts of which
it holds and that give the same bytes have values that differ in case only.** -/
theorem fingerprint_agrees (sdp sdp' : JsString) (bytes : Bytes) :
    (Meets sdp ↔ Exact sdp) ∧
    (Exact sdp → Exact sdp' → parseFingerprintFromSdp sdp = .ok bytes →
      parseFingerprintFromSdp sdp' = .ok bytes →
      ∃ value value', firstAttribute sdp = some value ∧ firstAttribute sdp' = some value' ∧
        value.map foldCase = value'.map foldCase) := by
  refine ⟨meets_iff sdp, fun hexact hexact' hparse hparse' => ?_⟩
  obtain ⟨value, hattr, hvalue, hbytes⟩ := ((meets_iff sdp).mpr hexact bytes).mp hparse
  obtain ⟨value', hattr', hvalue', hbytes'⟩ := ((meets_iff sdp').mpr hexact' bytes).mp hparse'
  refine ⟨value, value', hattr, hattr', ?_⟩
  rw [hvalue.map_foldCase, hvalue'.map_foldCase, ← hbytes, ← hbytes']

/-- A value whose first group is `group` and whose others are `00`. -/
def valueWith (group : JsString) : JsString :=
  [COLON].intercalate (group :: List.replicate 31 [0x30, 0x30])

/-- A text with that value. -/
def sdpWith (group : JsString) : JsString := ATTRIBUTE ++ 0x20 :: valueWith group

/-- `A` and `1FA` are taken like `0A` and `FA`, though no fingerprint has such a group. -/
theorem fingerprint_of_odd_groups :
    parseFingerprintFromSdp (sdpWith [0x41]) = .ok (0x0a :: List.replicate 31 0) ∧
    parseFingerprintFromSdp (sdpWith [0x30, 0x41]) = .ok (0x0a :: List.replicate 31 0) ∧
    parseFingerprintFromSdp (sdpWith [0x31, 0x46, 0x41]) = .ok (0xfa :: List.replicate 31 0) ∧
    firstAttribute (sdpWith [0x41]) = some (valueWith [0x41]) ∧
    (valueWith [0x41]).map foldCase ≠ (valueWith [0x30, 0x41]).map foldCase ∧
    ¬ IsFingerprint (valueWith [0x41]) ∧ ¬ Meets (sdpWith [0x41]) := by
  have hparse : parseFingerprintFromSdp (sdpWith [0x41]) = .ok (0x0a :: List.replicate 31 0) := by
    decide +kernel
  have hattr : firstAttribute (sdpWith [0x41]) = some (valueWith [0x41]) := by decide +kernel
  have hvalue : ¬ IsFingerprint (valueWith [0x41]) := fun h => by
    have hmem : [0x41] ∈ (valueWith [0x41]).splitOn COLON := by decide +kernel
    exact absurd (h.digits _ hmem).1 (by decide)
  refine ⟨hparse, by decide +kernel, by decide +kernel, hattr, by decide +kernel, hvalue, fun hmeets => ?_⟩
  obtain ⟨value, hfirst, h, -⟩ := (hmeets _).mp hparse
  obtain rfl := Option.some.inj (hattr.symm.trans hfirst)
  exact hvalue h

end Fingerprint

end P2Party
