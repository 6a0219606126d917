import Mathlib.Algebra.Ring.Nat
import Mathlib.Data.List.Induction
import Mathlib.Tactic.Common

/-!
# Numbers as texts of bits

A number of bounded size is written as a text of a fixed width, padded with zeros in front; such texts
are put together and cut into pieces of another width. What is said here in texts is said of lists of
bits first.

- `bitsOf`, `bitsValue`: a number and its bits, the highest first;
- `binaryText`, `parseBinary`: the same in characters, `binaryText_eq`, `parseBinary_map`;
- `pieces`: cutting into pieces, `pieces_flatten`, `exists_flatten`.
-/

namespace Base

variable {α β : Type}

/-! ## Bits -/

/-- The last so many bits of a number, the highest first. -/
def bitsOf : ℕ → ℕ → List Bool
  | 0, _ => []
  | width + 1, n => bitsOf width (n / 2) ++ [decide (n % 2 = 1)]

/-- The number that bits spell. -/
def bitsValue (bits : List Bool) : ℕ := bits.foldl (fun n bit => 2 * n + bit.toNat) 0

@[simp] theorem length_bitsOf (width n : ℕ) : (bitsOf width n).length = width := by
  induction width generalizing n with
  | zero => rfl
  | succ width ih => rw [bitsOf, List.length_append, ih, List.length_singleton]

theorem bitsValue_concat (bits : List Bool) (bit : Bool) :
    bitsValue (bits ++ [bit]) = 2 * bitsValue bits + bit.toNat := by
  rw [bitsValue, List.foldl_append]
  rfl

theorem bitsValue_bitsOf {width n : ℕ} (h : n < 2 ^ width) : bitsValue (bitsOf width n) = n := by
  induction width generalizing n with
  | zero => exact (Nat.lt_one_iff.mp h).symm
  | succ width ih =>
    have hhalf : n / 2 < 2 ^ width := by
      rw [Nat.pow_succ] at h
      omega
    rw [bitsOf, bitsValue_concat, ih hhalf]
    rcases Nat.mod_two_eq_zero_or_one n with hmod | hmod
    · rw [hmod, decide_eq_false (by omega), Bool.toNat_false]
      omega
    · rw [hmod, decide_eq_true rfl, Bool.toNat_true]
      omega

theorem bitsValue_lt (bits : List Bool) : bitsValue bits < 2 ^ bits.length := by
  induction bits using List.reverseRecOn with
  | nil => exact Nat.one_pos
  | append_singleton bits bit ih =>
    have hbit : bit.toNat ≤ 1 := Bool.toNat_le bit
    rw [bitsValue_concat, List.length_append, List.length_singleton, Nat.pow_succ]
    omega

theorem bitsOf_bitsValue (bits : List Bool) : bitsOf bits.length (bitsValue bits) = bits := by
  induction bits using List.reverseRecOn with
  | nil => rfl
  | append_singleton bits bit ih =>
    have hhalf : (2 * bitsValue bits + bit.toNat) / 2 = bitsValue bits := by
      cases bit <;> simp only [Bool.toNat_false, Bool.toNat_true] <;> omega
    have hlast : decide ((2 * bitsValue bits + bit.toNat) % 2 = 1) = bit := by
      cases bit
      · exact decide_eq_false (by rw [Bool.toNat_false]; omega)
      · exact decide_eq_true (by rw [Bool.toNat_true]; omega)
    rw [List.length_append, List.length_singleton, bitsOf, bitsValue_concat, hhalf, ih, hlast]

/-- Numbers that fit their width are told apart by their bits. -/
theorem bitsOf_inj {width m n : ℕ} (hm : m < 2 ^ width) (hn : n < 2 ^ width)
    (h : bitsOf width m = bitsOf width n) : m = n := by
  rw [← bitsValue_bitsOf hm, h, bitsValue_bitsOf hn]

/-- What is written in pieces of one width has as many bits. -/
theorem length_flatMap_bitsOf (width : ℕ) (f : α → ℕ) (as : List α) :
    (as.flatMap fun a => bitsOf width (f a)).length = width * as.length := by
  induction as with
  | nil => rfl
  | cons a as ih =>
    rw [List.flatMap_cons, List.length_append, ih, length_bitsOf, List.length_cons, Nat.mul_succ,
      Nat.add_comm]

/-- Lists of numbers that fit are told apart by their bits. -/
theorem flatMap_bitsOf_inj {width : ℕ} {f : α → ℕ} {as bs : List α} (hlength : as.length = bs.length)
    (hf : ∀ a b, f a = f b → a = b) (hfit : ∀ a, f a < 2 ^ width)
    (h : (as.flatMap fun a => bitsOf width (f a)) = bs.flatMap fun a => bitsOf width (f a)) : as = bs := by
  induction as generalizing bs with
  | nil => exact (List.eq_nil_of_length_eq_zero hlength.symm).symm
  | cons a as ih =>
    cases bs with
    | nil => cases hlength
    | cons b bs =>
      rw [List.flatMap_cons, List.flatMap_cons] at h
      obtain ⟨hhead, htail⟩ := List.append_inj h (by rw [length_bitsOf, length_bitsOf])
      rw [hf a b (bitsOf_inj (hfit a) (hfit b) hhead), ih (Nat.succ.inj hlength) htail]

/-! ## Text -/

/-- The character of a bit. -/
def bitChar (bit : Bool) : Char := if bit then '1' else '0'

/-- `n.toString(2).padStart(width, "0")`. -/
def binaryText (width n : ℕ) : List Char := (Nat.toDigits 2 n).leftpad width '0'

/-- `parseInt(text, 2)` of zeros and ones. -/
def parseBinary (text : List Char) : ℕ := Nat.ofDigitChars 2 text 0

theorem bitChar_injective : Function.Injective bitChar := by
  intro a b h
  revert h
  revert a b
  decide

theorem digitChar_mod_two (n : ℕ) : Nat.digitChar (n % 2) = bitChar (decide (n % 2 = 1)) := by
  rcases Nat.mod_two_eq_zero_or_one n with h | h
  · rw [h]
    rfl
  · rw [h]
    rfl

/-- A number that fits is written with the width's bits. -/
theorem binaryText_eq {width n : ℕ} (hwidth : 0 < width) (h : n < 2 ^ width) :
    binaryText width n = (bitsOf width n).map bitChar := by
  induction width generalizing n with
  | zero => exact absurd hwidth (Nat.lt_irrefl 0)
  | succ width ih =>
    have hhalf : n / 2 < 2 ^ width := by
      rw [Nat.pow_succ] at h
      omega
    rw [bitsOf, List.map_append, List.map_singleton, ← digitChar_mod_two]
    rcases Nat.eq_zero_or_pos width with rfl | hpos
    · have hlt : n < 2 := h
      rw [binaryText, Nat.toDigits_of_lt_base hlt, Nat.mod_eq_of_lt hlt]
      rfl
    · rw [← ih hpos hhalf, binaryText, binaryText]
      by_cases hlt : n < 2
      · -- one digit, and zeros before it either way
        rw [Nat.toDigits_of_lt_base hlt, Nat.div_eq_of_lt hlt, Nat.toDigits_zero, Nat.mod_eq_of_lt hlt]
        obtain ⟨w, rfl⟩ := Nat.exists_eq_succ_of_ne_zero (Nat.ne_of_gt hpos)
        simp [List.leftpad, List.replicate_succ']
      · rw [Nat.toDigits_of_base_le (by decide) (Nat.le_of_not_lt hlt), List.leftpad, List.leftpad,
          List.length_append, List.length_singleton, Nat.add_sub_add_right, List.append_assoc]

theorem parseBinary_map (bits : List Bool) : parseBinary (bits.map bitChar) = bitsValue bits := by
  induction bits using List.reverseRecOn with
  | nil => rfl
  | append_singleton bits bit ih =>
    rw [parseBinary] at ih ⊢
    rw [List.map_append, Nat.ofDigitChars_append, ih, bitsValue_concat]
    cases bit <;> rfl

/-! ## Pieces -/

/-- Cut into pieces of a width, as long as there is something left; the last may be shorter. -/
def piecesLoop (width : ℕ) : ℕ → List α → List (List α)
  | 0, _ => []
  | _, [] => []
  | fuel + 1, a :: as => (a :: as).take width :: piecesLoop width fuel ((a :: as).drop width)

/-- `text.match(/(.{1,width})/g)`. -/
def pieces (width : ℕ) (as : List α) : List (List α) := piecesLoop width as.length as

theorem piecesLoop_map (width fuel : ℕ) (f : α → β) (as : List α) :
    piecesLoop width fuel (as.map f) = (piecesLoop width fuel as).map (List.map f) := by
  induction fuel generalizing as with
  | zero => rfl
  | succ fuel ih =>
    cases as with
    | nil => rfl
    | cons a as =>
      rw [List.map_cons, piecesLoop, piecesLoop, List.map_cons, ← List.map_cons, ← List.map_drop, ih,
        List.map_take]

theorem pieces_map (width : ℕ) (f : α → β) (as : List α) :
    pieces width (as.map f) = (pieces width as).map (List.map f) := by
  rw [pieces, List.length_map, piecesLoop_map, pieces]

/-- What is put together of pieces of the width is cut into them. -/
theorem pieces_flatten {width : ℕ} (hwidth : 0 < width) {parts : List (List α)}
    (h : ∀ part ∈ parts, part.length = width) : pieces width parts.flatten = parts := by
  have hloop : ∀ fuel, parts.length ≤ fuel → piecesLoop width fuel parts.flatten = parts := by
    induction parts with
    | nil =>
      intro fuel _
      cases fuel <;> rfl
    | cons part parts ih =>
      intro fuel hfuel
      obtain ⟨fuel, rfl⟩ := Nat.exists_eq_succ_of_ne_zero (Nat.ne_of_gt (Nat.lt_of_lt_of_le (Nat.succ_pos _) hfuel))
      have hpart : part.length = width := h part List.mem_cons_self
      have hrest := ih (fun p hp => h p (List.mem_cons_of_mem _ hp)) fuel (Nat.le_of_succ_le_succ hfuel)
      cases part with
      | nil => exact absurd hwidth (by rw [← hpart]; exact Nat.lt_irrefl 0)
      | cons a part =>
        rw [List.flatten_cons, List.cons_append, piecesLoop, ← List.cons_append, ← hpart,
          List.take_left, List.drop_left, hpart, hrest]
  refine hloop _ ?_
  -- every piece has something in it
  clear hloop
  induction parts with
  | nil => exact Nat.le_refl 0
  | cons part parts ih =>
    have hpart : part.length = width := h part List.mem_cons_self
    have hrest := ih fun p hp => h p (List.mem_cons_of_mem _ hp)
    rw [List.flatten_cons, List.length_append, List.length_cons]
    omega

/-- A list whose length is a multiple of the width is put together of pieces of the width. -/
theorem exists_flatten {width : ℕ} (count : ℕ) {as : List α} (h : as.length = width * count) :
    ∃ parts : List (List α), parts.length = count ∧ (∀ part ∈ parts, part.length = width) ∧
      parts.flatten = as := by
  induction count generalizing as with
  | zero => exact ⟨[], rfl, nofun, (List.eq_nil_of_length_eq_zero h).symm⟩
  | succ count ih =>
    rw [Nat.mul_succ] at h
    have hrest : (as.drop width).length = width * count := by
      rw [List.length_drop, h, Nat.add_sub_cancel]
    obtain ⟨parts, hcount, hparts, hflatten⟩ := ih hrest
    refine ⟨as.take width :: parts, congrArg (· + 1) hcount, ?_, ?_⟩
    · intro part hpart
      rcases List.mem_cons.mp hpart with rfl | hpart
      · rw [List.length_take]
        omega
      · exact hparts part hpart
    · rw [List.flatten_cons, hflatten, List.take_append_drop]

end Base
