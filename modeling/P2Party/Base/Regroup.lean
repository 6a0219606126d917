import Mathlib.Data.List.Induction
import Mathlib.Data.Nat.Bitwise
import Mathlib.Data.Nat.Digits.Defs
import Mathlib.Tactic.Ring

/-!
# Regrouping bits

A stream of digits of one width is read into an accumulator, most significant first, and taken
from it in digits of another width as soon as there are enough bits; what remains at the end is a
part of a digit. The number that the digits spell is the same on both sides, and digits of a known
count are told apart by their number: this says what the loop computes without looking at bits.

- `digitsValue`: the number that digits spell, `digitsValue_inj`;
- `regroup`: the loop;
- `regroup_spec`: nothing is lost;
- `regroup_eq`: the digits with the same number are the ones that come out.
-/

namespace Base

/-! ## Digits -/

/-- The number that digits of a width spell, most significant first. -/
def digitsValue (width : Nat) (digits : List Nat) : Nat := Nat.ofDigits (2 ^ width) digits.reverse

/-- All digits fit their width. -/
def DigitsFit (width : Nat) (digits : List Nat) : Prop := ∀ d ∈ digits, d < 2 ^ width

variable {width : Nat} {a b : List Nat}

@[simp] theorem digitsValue_nil : digitsValue width [] = 0 := rfl

theorem digitsValue_concat (a : List Nat) (d : Nat) :
    digitsValue width (a ++ [d]) = digitsValue width a * 2 ^ width + d := by
  simp only [digitsValue, List.reverse_append, List.reverse_singleton, List.singleton_append,
    Nat.ofDigits_cons]
  ring

theorem digitsValue_append (a b : List Nat) :
    digitsValue width (a ++ b) = digitsValue width a * 2 ^ (width * b.length) + digitsValue width b := by
  simp only [digitsValue, List.reverse_append, Nat.ofDigits_append, List.length_reverse, ← Nat.pow_mul]
  ring

/-- Digits of a known count are told apart by their number. -/
theorem digitsValue_inj (hwidth : 0 < width) (ha : DigitsFit width a) (hb : DigitsFit width b)
    (hlength : a.length = b.length) (h : digitsValue width a = digitsValue width b) : a = b := by
  have hbase : 1 < 2 ^ width := Nat.one_lt_two_pow hwidth.ne'
  have hreverse : a.reverse = b.reverse :=
    Nat.ofDigits_inj_of_len_eq hbase (by simpa using hlength) (by simpa [DigitsFit] using ha)
      (by simpa [DigitsFit] using hb) h
  exact List.reverse_inj.mp hreverse

theorem DigitsFit.append (ha : DigitsFit width a) (hb : DigitsFit width b) :
    DigitsFit width (a ++ b) := by
  intro d hd
  rcases List.mem_append.mp hd with hd | hd
  · exact ha d hd
  · exact hb d hd

/-! ## The loop -/

/-- What is accumulated, how many bits of it count, and the digits taken so far. -/
structure Regrouping where
  accumulator : Nat
  availableBits : Nat
  output : List Nat
deriving DecidableEq, Repr

namespace Regrouping

/-- One round of the inner loop: a digit is taken from the top. -/
def take (group : Nat) (s : Regrouping) : Regrouping where
  accumulator := s.accumulator &&& (1 <<< (s.availableBits - group) - 1)
  availableBits := s.availableBits - group
  output := s.output ++ [(s.accumulator >>> (s.availableBits - group)) &&& (2 ^ group - 1)]

/-- The inner loop, with a bound on its rounds. -/
def drain (group : Nat) : Nat → Regrouping → Regrouping
  | 0, s => s
  | fuel + 1, s => if group ≤ s.availableBits then drain group fuel (s.take group) else s

/-- One round of the outer loop: a digit is added at the bottom. -/
def feed (width group : Nat) (s : Regrouping) (digit : Nat) : Regrouping :=
  drain group (s.availableBits + width)
    { s with
      accumulator := s.accumulator <<< width ||| digit
      availableBits := s.availableBits + width }

/-- The accumulator has no more bits than count, and the digits taken fit. -/
structure Fits (group : Nat) (s : Regrouping) : Prop where
  accumulator : s.accumulator < 2 ^ s.availableBits
  output : DigitsFit group s.output

/-- The number spelt so far, with what is in the accumulator. -/
def total (group : Nat) (s : Regrouping) : Nat :=
  digitsValue group s.output * 2 ^ s.availableBits + s.accumulator

/-- The bits so far. -/
def bits (group : Nat) (s : Regrouping) : Nat := group * s.output.length + s.availableBits

variable {group : Nat} {s : Regrouping}

theorem take_eq (h : s.Fits group) (hto : group ≤ s.availableBits) :
    s.take group = ⟨s.accumulator % 2 ^ (s.availableBits - group), s.availableBits - group,
      s.output ++ [s.accumulator / 2 ^ (s.availableBits - group)]⟩ := by
  have hdigit : s.accumulator / 2 ^ (s.availableBits - group) < 2 ^ group := by
    apply Nat.div_lt_of_lt_mul
    rw [← Nat.pow_add, Nat.sub_add_cancel hto]
    exact h.accumulator
  simp only [take, Nat.one_shiftLeft, Nat.and_two_pow_sub_one_eq_mod, Nat.shiftRight_eq_div_pow,
    Nat.mod_eq_of_lt hdigit]

/-- Taking a digit keeps the number and the count of bits. -/
theorem take_spec (h : s.Fits group) (hto : group ≤ s.availableBits) :
    (s.take group).Fits group ∧ (s.take group).total group = s.total group ∧ (s.take group).bits group = s.bits group := by
  have hdigit : s.accumulator / 2 ^ (s.availableBits - group) < 2 ^ group := by
    apply Nat.div_lt_of_lt_mul
    rw [← Nat.pow_add, Nat.sub_add_cancel hto]
    exact h.accumulator
  rw [take_eq h hto]
  refine ⟨⟨Nat.mod_lt _ (Nat.two_pow_pos _), ?_⟩, ?_, ?_⟩
  · refine h.output.append ?_
    intro d hd
    rwa [List.mem_singleton.mp hd]
  · have hsplit : 2 ^ s.availableBits = 2 ^ group * 2 ^ (s.availableBits - group) := by
      rw [← Nat.pow_add, Nat.add_sub_cancel' hto]
    have hdiv := Nat.div_add_mod s.accumulator (2 ^ (s.availableBits - group))
    simp only [total, digitsValue_concat, hsplit]
    rw [Nat.add_mul, Nat.mul_assoc, Nat.add_assoc, Nat.mul_comm (s.accumulator / _), hdiv]
  · simp only [bits, List.length_append, List.length_singleton, Nat.mul_add]
    omega

/-- The inner loop keeps them too, and ends when no digit is left to take. -/
theorem drain_spec (hto : 0 < group) (fuel : Nat) (h : s.Fits group) (hfuel : s.availableBits ≤ fuel) :
    (drain group fuel s).Fits group ∧ (drain group fuel s).total group = s.total group ∧
      (drain group fuel s).bits group = s.bits group ∧ (drain group fuel s).availableBits < group := by
  induction fuel generalizing s with
  | zero => exact ⟨h, rfl, rfl, by simpa [drain] using Nat.lt_of_le_of_lt hfuel hto⟩
  | succ fuel ih =>
    rw [drain]
    by_cases henough : group ≤ s.availableBits
    · rw [if_pos henough]
      obtain ⟨hfits, htotal, hbits⟩ := take_spec h henough
      have hless : (s.take group).availableBits ≤ fuel := by
        simp only [take]
        omega
      obtain ⟨hfits', htotal', hbits', hend⟩ := ih hfits hless
      exact ⟨hfits', htotal'.trans htotal, hbits'.trans hbits, hend⟩
    · rw [if_neg henough]
      exact ⟨h, rfl, rfl, by omega⟩

/-- A digit that fits is added to the number. -/
theorem feed_spec (hto : 0 < group) (h : s.Fits group) {digit : Nat} (hdigit : digit < 2 ^ width) :
    (s.feed width group digit).Fits group ∧
      (s.feed width group digit).total group = s.total group * 2 ^ width + digit ∧
      (s.feed width group digit).bits group = s.bits group + width ∧
      (s.feed width group digit).availableBits < group := by
  have hor : s.accumulator <<< width ||| digit = s.accumulator * 2 ^ width + digit := by
    rw [← Nat.shiftLeft_add_eq_or_of_lt hdigit, Nat.shiftLeft_eq]
  have hlt : s.accumulator * 2 ^ width + digit < 2 ^ (s.availableBits + width) := by
    have hacc := Nat.mul_le_mul_right (2 ^ width) (Nat.succ_le_of_lt h.accumulator)
    rw [Nat.succ_mul, ← Nat.pow_add] at hacc
    omega
  rw [feed, hor]
  obtain ⟨hfits, htotal, hbits, hend⟩ := drain_spec hto (s.availableBits + width)
    (s := ⟨s.accumulator * 2 ^ width + digit, s.availableBits + width, s.output⟩)
    ⟨hlt, h.output⟩ (Nat.le_refl _)
  refine ⟨hfits, htotal.trans ?_, hbits.trans ?_, hend⟩
  · simp only [total, Nat.pow_add]
    ring
  · simp only [bits]
    omega

end Regrouping

/-- Digits of one width, regrouped. -/
def regroup (width group : Nat) (digits : List Nat) : Regrouping :=
  digits.foldl (Regrouping.feed width group) ⟨0, 0, []⟩

/-- Regrouping loses nothing: the digits taken and what remains spell the same number. -/
theorem regroup_spec {group : Nat} {digits : List Nat} (hto : 0 < group) (h : DigitsFit width digits) :
    (regroup width group digits).Fits group ∧
      (regroup width group digits).total group = digitsValue width digits ∧
      (regroup width group digits).bits group = width * digits.length ∧
      (regroup width group digits).availableBits < group := by
  induction digits using List.reverseRecOn with
  | nil => exact ⟨⟨Nat.one_pos, nofun⟩, rfl, rfl, hto⟩
  | append_singleton digits digit ih =>
    obtain ⟨hfits, htotal, hbits, -⟩ := ih fun d hd => h d (List.mem_append_left _ hd)
    have hdigit : digit < 2 ^ width := h digit (List.mem_append_right _ (List.mem_singleton.mpr rfl))
    obtain ⟨hfits', htotal', hbits', hend⟩ := Regrouping.feed_spec hto hfits hdigit
    have hconcat : regroup width group (digits ++ [digit]) =
        (regroup width group digits).feed width group digit := List.foldl_append
    rw [hconcat]
    refine ⟨hfits', ?_, ?_, hend⟩
    · rw [htotal', htotal, digitsValue_concat]
    · rw [hbits', hbits, List.length_append, List.length_singleton]
      ring

/-- The digits that spell the same number, up to the bits that remain, are the ones that come out. -/
theorem regroup_eq {group rest pad : Nat} {digits digits' : List Nat} (h : DigitsFit width digits)
    (h' : DigitsFit group digits') (hpad : pad < group) (hrest : rest < 2 ^ pad)
    (hlength : width * digits.length = group * digits'.length + pad)
    (hvalue : digitsValue width digits = digitsValue group digits' * 2 ^ pad + rest) :
    regroup width group digits = ⟨rest, pad, digits'⟩ := by
  obtain ⟨hfits, htotal, hbits, hend⟩ := regroup_spec (Nat.zero_lt_of_lt hpad) h
  generalize regroup width group digits = r at hfits htotal hbits hend ⊢
  obtain ⟨accumulator, availableBits, output⟩ := r
  simp only [Regrouping.total, Regrouping.bits] at htotal hbits hend hfits
  rw [hlength] at hbits
  rw [hvalue] at htotal
  -- The counts agree by division with remainder, then the numbers do.
  have hto : 0 < group := Nat.zero_lt_of_lt hpad
  have havailable : availableBits = pad := by
    have hmod := congrArg (· % group) hbits
    simpa only [Nat.mul_add_mod, Nat.mod_eq_of_lt hend, Nat.mod_eq_of_lt hpad] using hmod
  have hcount : output.length = digits'.length := by
    subst havailable
    exact Nat.eq_of_mul_eq_mul_left hto (Nat.add_right_cancel hbits)
  subst havailable
  have haccumulator : accumulator = rest := by
    have hmod := congrArg (· % 2 ^ availableBits) htotal
    have hlt : accumulator < 2 ^ availableBits := hfits.accumulator
    simpa only [Nat.mul_add_mod', Nat.mod_eq_of_lt hlt, Nat.mod_eq_of_lt hrest] using hmod
  subst haccumulator
  have hsame : digitsValue group output = digitsValue group digits' :=
    Nat.eq_of_mul_eq_mul_right (Nat.two_pow_pos availableBits) (Nat.add_right_cancel htotal)
  have houtput : output = digits' := digitsValue_inj hto hfits.output h' hcount hsame
  rw [houtput]

end Base
