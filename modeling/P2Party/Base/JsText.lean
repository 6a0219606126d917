import P2Party.Base.JsString
import P2Party.Base.Utf8Cut

/-!
# Strings that are text

A string of code units is text when every surrogate has its partner. What encoding and decoding
leave of any string is its text, with each lone surrogate replaced, less a leading byte-order
mark.

- `isWellFormed`, `toWellFormed`: text, and the text nearest to a string;
- `flatMap_units_scalarValues`: the characters of a string spell that text;
- `decode_encode_zeros`: encoding, padding with zeros and decoding;
- `toWellFormed_of_encode`, `encode_toWellFormed`: the bytes of a string are those of that text;
- `dropTrailing`: a string without its last zeros.
-/

namespace Base

/-- A text decodes to itself, less a leading byte-order mark. -/
theorem utf8Decode_encodeChars (cs : List Char) : utf8Decode (encodeChars cs) = withoutMark cs := by
  have hfit : fitting (encodeChars cs).length cs = cs := fitting_eq_self (Nat.le_refl _)
  have hcut : ¬ CutInside (encodeChars cs).length cs := by
    rw [CutInside, hfit, Nat.min_self]
    exact not_not.mpr rfl
  have h := utf8Decode_take (encodeChars cs).length cs
  rwa [List.take_length, hfit, if_neg hcut, List.append_nil] at h

namespace JsString

/-- Half of a pair. -/
def isSurrogate (unit : UInt16) : Bool := isHigh unit || isLow unit

/-- `String.prototype.isWellFormed`. -/
def isWellFormed : JsString → Bool
  | [] => true
  | [unit] => !isSurrogate unit
  | high :: low :: rest =>
    if isHigh high && isLow low then isWellFormed rest
    else !isSurrogate high && isWellFormed (low :: rest)

/-- A unit, or what stands for it. -/
def replaced (unit : UInt16) : UInt16 := if isSurrogate unit then 0xfffd else unit

/-- `String.prototype.toWellFormed`. -/
def toWellFormed : JsString → JsString
  | [] => []
  | [unit] => [replaced unit]
  | high :: low :: rest =>
    if isHigh high && isLow low then high :: low :: toWellFormed rest
    else replaced high :: toWellFormed (low :: rest)

/-! ## The characters of a string -/

theorem toNat_ofNat_of_valid {n : Nat} (h : n.isValidChar) : (Char.ofNat n).toNat = n := by
  rw [Char.ofNat, dif_pos h]
  rfl

theorem units_single (unit : UInt16) : units (single unit) = [replaced unit] := by
  have hlt : unit.toNat < 65536 := unit.toNat_lt
  unfold single replaced isSurrogate
  by_cases h : (isHigh unit || isLow unit) = true
  · rw [if_pos h, if_pos h]
    rfl
  · rw [if_neg h, if_neg h]
    have hvalid : unit.toNat.isValidChar := by
      simp only [Bool.or_eq_true, isHigh, isLow, decide_eq_true_eq] at h
      unfold Nat.isValidChar
      omega
    rw [units, toNat_ofNat_of_valid hvalid, if_pos hlt]
    exact congrArg (fun u => [u]) (UInt16.ofNat_toNat)

theorem units_pair {high low : UInt16} (h : (isHigh high && isLow low) = true) :
    units (Char.ofNat (0x10000 + (high.toNat - 0xd800) * 0x400 + (low.toNat - 0xdc00))) =
      [high, low] := by
  simp only [Bool.and_eq_true, isHigh, isLow, decide_eq_true_eq] at h
  obtain ⟨⟨hhigh, hhigh'⟩, hlow, hlow'⟩ := h
  have hvalid : (0x10000 + (high.toNat - 0xd800) * 0x400 + (low.toNat - 0xdc00)).isValidChar := by
    unfold Nat.isValidChar
    omega
  rw [units, toNat_ofNat_of_valid hvalid, if_neg (by omega)]
  have hfirst : 0xd800 + (0x10000 + (high.toNat - 0xd800) * 0x400 + (low.toNat - 0xdc00) - 0x10000) / 0x400 =
      high.toNat := by omega
  have hsecond : 0xdc00 + (0x10000 + (high.toNat - 0xd800) * 0x400 + (low.toNat - 0xdc00) - 0x10000) % 0x400 =
      low.toNat := by omega
  rw [hfirst, hsecond, UInt16.ofNat_toNat, UInt16.ofNat_toNat]

/-- The characters of a string spell the text nearest to it. -/
theorem flatMap_units_scalarValues (s : JsString) :
    (scalarValues s).flatMap units = toWellFormed s := by
  induction s using scalarValues.induct with
  | case1 => rfl
  | case2 unit =>
    rw [scalarValues, List.flatMap_cons, units_single]
    rfl
  | case3 high low rest h ih =>
    rw [scalarValues, if_pos h, List.flatMap_cons, units_pair h, ih, toWellFormed, if_pos h]
    rfl
  | case4 high low rest h ih =>
    rw [scalarValues, if_neg h, List.flatMap_cons, units_single, ih, toWellFormed, if_neg h]
    rfl

theorem flatMap_units_zeros (n : Nat) :
    (List.replicate n (Char.ofNat 0)).flatMap units = List.replicate n 0 := by
  induction n with
  | zero => rfl
  | succ n ih =>
    rw [List.replicate_succ, List.flatMap_cons, ih, List.replicate_succ]
    rfl

/-- Strings whose padded bytes are the same are near to the same padded text. -/
theorem toWellFormed_of_encode {s t : JsString} {m n : Nat}
    (h : encode s ++ List.replicate m 0 = encode t ++ List.replicate n 0) :
    toWellFormed s ++ List.replicate m 0 = toWellFormed t ++ List.replicate n 0 := by
  have hdecode : ∀ (u : JsString) (k : Nat),
      (utf8DecodeFrom .idle (encode u ++ List.replicate k 0)).flatMap units =
        toWellFormed u ++ List.replicate k 0 := by
    intro u k
    have hzeros := utf8DecodeFrom_encode (List.replicate k (Char.ofNat 0)) []
    rw [List.append_nil, encodeChars_zeros] at hzeros
    have hbytes := utf8DecodeFrom_encode (scalarValues u) (List.replicate k 0)
    rw [hzeros] at hbytes
    have hencode : encode u = encodeChars (scalarValues u) := rfl
    rw [hencode, hbytes, List.flatMap_append, List.flatMap_append, flatMap_units_scalarValues,
      flatMap_units_zeros]
    exact congrArg (toWellFormed u ++ ·) (List.append_nil _)
  rw [← hdecode, h, hdecode]

/-! ## Text -/

theorem isSurrogate_fffd : isSurrogate 0xfffd = false := by decide

theorem replaced_eq_self_iff {unit : UInt16} : replaced unit = unit ↔ isSurrogate unit = false := by
  unfold replaced
  constructor
  · intro h
    by_cases hs : isSurrogate unit = true
    · rw [if_pos hs] at h
      rw [← h, isSurrogate_fffd] at hs
      cases hs
    · exact Bool.not_eq_true _ ▸ hs
  · intro h
    rw [h]
    rfl

/-- A string is its nearest text exactly when it is text. -/
theorem toWellFormed_eq_self_iff {s : JsString} : toWellFormed s = s ↔ isWellFormed s = true := by
  induction s using toWellFormed.induct with
  | case1 => exact ⟨fun _ => rfl, fun _ => rfl⟩
  | case2 unit =>
    rw [toWellFormed, isWellFormed, List.cons.injEq, replaced_eq_self_iff]
    simp
  | case3 high low rest h ih =>
    rw [toWellFormed, if_pos h, isWellFormed, if_pos h, ← ih]
    simp
  | case4 high low rest h ih =>
    rw [toWellFormed, if_neg h, isWellFormed, if_neg h, List.cons.injEq, replaced_eq_self_iff, ih]
    simp

theorem isHigh_replaced (unit : UInt16) : isHigh (replaced unit) = false := by
  unfold replaced isSurrogate
  by_cases h : (isHigh unit || isLow unit) = true
  · rw [if_pos h]
    decide
  · rw [if_neg h]
    exact (Bool.or_eq_false_iff.mp (Bool.not_eq_true _ ▸ h)).1

theorem single_replaced (unit : UInt16) : single (replaced unit) = single unit := by
  unfold replaced isSurrogate
  by_cases h : (isHigh unit || isLow unit) = true
  · rw [if_pos h, single, if_neg (by decide), single, if_pos h]
    rfl
  · rw [if_neg h]

theorem scalarValues_cons_of_not_high {unit : UInt16} (h : isHigh unit = false) (s : JsString) :
    scalarValues (unit :: s) = single unit :: scalarValues s := by
  cases s with
  | nil => rfl
  | cons low rest =>
    rw [scalarValues, h, Bool.false_and, if_neg Bool.false_ne_true]

/-- A string and its nearest text have the same bytes. -/
theorem encode_toWellFormed (s : JsString) : encode (toWellFormed s) = encode s := by
  have hchars : scalarValues (toWellFormed s) = scalarValues s := by
    induction s using toWellFormed.induct with
    | case1 => rfl
    | case2 unit =>
      rw [toWellFormed, scalarValues, scalarValues, single_replaced]
    | case3 high low rest h ih =>
      rw [toWellFormed, if_pos h, scalarValues, if_pos h, ih, scalarValues, if_pos h]
    | case4 high low rest h ih =>
      rw [toWellFormed, if_neg h, scalarValues_cons_of_not_high (isHigh_replaced high), ih,
        single_replaced, scalarValues, if_neg h]
  rw [encode, hchars, encode]

@[simp] theorem length_toWellFormed (s : JsString) : (toWellFormed s).length = s.length := by
  induction s using toWellFormed.induct with
  | case1 => rfl
  | case2 unit => rfl
  | case3 high low rest h ih =>
    rw [toWellFormed, if_pos h, List.length_cons, List.length_cons, ih]
    rfl
  | case4 high low rest h ih =>
    rw [toWellFormed, if_neg h, List.length_cons, ih]
    rfl

theorem replaced_eq_zero_iff {unit : UInt16} : replaced unit = 0 ↔ unit = 0 := by
  unfold replaced
  split
  · rename_i h
    constructor
    · intro h0
      exact absurd h0 (by decide)
    · rintro rfl
      exact absurd h (by decide)
  · exact Iff.rfl

/-- The last unit is zero in both or in neither. -/
theorem getLast?_toWellFormed (s : JsString) :
    (toWellFormed s).getLast? = some 0 ↔ s.getLast? = some 0 := by
  induction s using toWellFormed.induct with
  | case1 => exact Iff.rfl
  | case2 unit =>
    rw [toWellFormed, List.getLast?_singleton, List.getLast?_singleton, Option.some.injEq,
      Option.some.injEq, replaced_eq_zero_iff]
  | case3 high low rest h ih =>
    rw [toWellFormed, if_pos h]
    cases rest with
    | nil => exact Iff.rfl
    | cons unit rest =>
      have hne : toWellFormed (unit :: rest) ≠ [] := fun h0 => by
        have := length_toWellFormed (unit :: rest)
        rw [h0] at this
        cases this
      obtain ⟨first, others, hcons⟩ := List.exists_cons_of_ne_nil hne
      rw [hcons] at ih ⊢
      rw [List.getLast?_cons_cons, List.getLast?_cons_cons, ih, List.getLast?_cons_cons,
        List.getLast?_cons_cons]
  | case4 high low rest h ih =>
    rw [toWellFormed, if_neg h]
    have hne : toWellFormed (low :: rest) ≠ [] := fun h0 => by
      have := length_toWellFormed (low :: rest)
      rw [h0] at this
      cases this
    obtain ⟨first, others, hcons⟩ := List.exists_cons_of_ne_nil hne
    rw [hcons] at ih ⊢
    rw [List.getLast?_cons_cons, ih, List.getLast?_cons_cons]

/-! ## A leading byte-order mark -/

/-- The mark as a unit. -/
abbrev markUnit : UInt16 := 0xfeff

theorem units_byteOrderMark : units byteOrderMark = [markUnit] := by decide

theorem single_eq_mark_iff {unit : UInt16} : single unit = byteOrderMark ↔ unit = markUnit := by
  constructor
  · intro h
    have hunits := units_single unit
    rw [h, units_byteOrderMark] at hunits
    have hmark : replaced unit = markUnit := (List.cons.inj hunits).1.symm
    unfold replaced at hmark
    split at hmark
    · exact absurd hmark (by decide)
    · exact hmark
  · rintro rfl
    decide

/-- The characters of a string begin with the mark when the string does. -/
theorem head_scalarValues_iff (s : JsString) :
    (scalarValues s).head? = some byteOrderMark ↔ s.head? = some markUnit := by
  cases s using scalarValues.fun_cases with
  | case1 => exact ⟨nofun, nofun⟩
  | case2 unit =>
    rw [scalarValues, List.head?_cons, List.head?_cons, Option.some.injEq, Option.some.injEq,
      single_eq_mark_iff]
  | case3 high low rest h =>
    rw [scalarValues, if_pos h, List.head?_cons, List.head?_cons, Option.some.injEq, Option.some.injEq]
    constructor
    · intro hmark
      have hunits := units_pair h
      rw [hmark, units_byteOrderMark] at hunits
      cases (List.cons.inj hunits).2
    · rintro rfl
      exact absurd (Bool.and_eq_true _ _ ▸ h : _ ∧ _).1 (by decide)
  | case4 high low rest h =>
    rw [scalarValues, if_neg h, List.head?_cons, List.head?_cons, Option.some.injEq, Option.some.injEq,
      single_eq_mark_iff]

/-- A text without a leading mark. -/
theorem withoutMark_scalarValues (s : JsString) (zeros : List Char) (hs : s ≠ []) :
    (withoutMark (scalarValues s ++ zeros)).flatMap units =
      (if s.head? = some markUnit then (toWellFormed s).tail else toWellFormed s) ++
        zeros.flatMap units := by
  have hne : scalarValues s ≠ [] := fun h0 => by
    have h := flatMap_units_scalarValues s
    rw [h0] at h
    exact hs (List.eq_nil_of_length_eq_zero (by rw [← length_toWellFormed, ← h]; rfl))
  obtain ⟨c, cs, hcs⟩ := List.exists_cons_of_ne_nil hne
  have htext := flatMap_units_scalarValues s
  have hhead := head_scalarValues_iff s
  rw [hcs] at htext hhead ⊢
  by_cases hmark : s.head? = some markUnit
  · obtain rfl : c = byteOrderMark := Option.some.inj (hhead.mpr hmark)
    rw [if_pos hmark, List.cons_append, withoutMark_cons, List.flatMap_append, ← htext,
      List.flatMap_cons, units_byteOrderMark]
    rfl
  · have hkeep : (c :: cs ++ zeros).head? ≠ some byteOrderMark := fun h => hmark (hhead.mp h)
    rw [if_neg hmark, withoutMark_of_ne hkeep, List.flatMap_append, htext]

/-- What is left of a string that is encoded, padded with zeros and decoded. -/
theorem decode_encode_zeros {s : JsString} (hs : s ≠ []) (n : Nat) :
    decode (encode s ++ List.replicate n 0) =
      (if s.head? = some markUnit then (toWellFormed s).tail else toWellFormed s) ++
        List.replicate n 0 := by
  have hbytes : encode s ++ List.replicate n 0 =
      encodeChars (scalarValues s ++ List.replicate n (Char.ofNat 0)) := by
    rw [encodeChars_append, encodeChars_zeros]
    rfl
  rw [decode, hbytes, utf8Decode_encodeChars, withoutMark_scalarValues s _ hs, flatMap_units_zeros]

/-! ## Trailing zeros -/

/-- `replace(/\0+$/, "")`. -/
def dropTrailing (s : JsString) : JsString := (s.reverse.dropWhile (· == 0)).reverse

theorem dropTrailing_zeros (s : JsString) (n : Nat) :
    dropTrailing (s ++ List.replicate n 0) = dropTrailing s := by
  rw [dropTrailing, List.reverse_append, List.reverse_replicate, List.dropWhile_append_of_pos]
  · rfl
  · intro unit hunit
    rw [List.eq_of_mem_replicate hunit]
    rfl

theorem dropTrailing_of_getLast? {s : JsString} (h : s.getLast? ≠ some 0) : dropTrailing s = s := by
  rw [← List.head?_reverse] at h
  rw [dropTrailing]
  cases hr : s.reverse with
  | nil => rw [List.dropWhile_nil, ← hr, List.reverse_reverse]
  | cons last rest =>
    rw [hr, List.head?_cons] at h
    have hlast : (last == 0) = false := beq_eq_false_iff_ne.mpr fun h0 => h (congrArg some h0)
    rw [List.dropWhile_cons_of_neg (by rw [hlast]; exact Bool.false_ne_true), ← hr, List.reverse_reverse]

theorem length_dropTrailing_le (s : JsString) : (dropTrailing s).length ≤ s.length := by
  rw [dropTrailing, List.length_reverse]
  exact Nat.le_trans (List.dropWhile_sublist _).length_le (Nat.le_of_eq List.length_reverse)

end JsString

end Base
