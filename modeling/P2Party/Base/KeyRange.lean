import Mathlib.Data.List.Lex
import Mathlib.Data.String.Basic
import Mathlib.Data.Sum.Order
import P2Party.Base.Table

/-!
# Key ranges of a table

A key of an object store is a list of numbers and texts; a number comes before every text, and
lists are in lexicographic order. A request may name a range of keys, of the primary key or of
an index.

- `StoreKey`: keys of several parts;
- `KeyRange`: the keys between two bounds, and the range of one key;
- `Table.deleteRange`: remove the rows whose key lies in a range;
- `Table.getRange`: the rows whose key in an index lies in a range (`mem_getRange`).
-/

namespace Base

/-- A key of several parts, over the numbers `ν`. -/
abbrev StoreKey (ν : Type) := List (ν ⊕ₗ String)

/-- A part that is a number. -/
def keyNumber {ν : Type} (n : ν) : ν ⊕ₗ String := toLex (.inl n)

/-- A part that is a text. -/
def keyText {ν : Type} (text : String) : ν ⊕ₗ String := toLex (.inr text)

theorem keyNumber_inj {ν : Type} {m n : ν} : keyNumber m = keyNumber n ↔ m = n := by
  constructor
  · intro h
    exact Sum.inl.inj (toLex.injective h)
  · rintro rfl
    rfl

theorem keyText_inj {ν : Type} {a b : String} : (keyText a : ν ⊕ₗ String) = keyText b ↔ a = b := by
  constructor
  · intro h
    exact Sum.inr.inj (toLex.injective h)
  · rintro rfl
    rfl

theorem keyNumber_ne_keyText {ν : Type} (n : ν) (text : String) : keyNumber n ≠ keyText text := by
  intro h
  cases toLex.injective h

/-- The keys from one bound to another. -/
structure KeyRange (κ : Type) where
  lower : κ
  upper : κ

/-- The range of one key. -/
def KeyRange.only {κ : Type} (k : κ) : KeyRange κ := ⟨k, k⟩

section Ranges

variable {κ : Type} [LinearOrder κ]

/-- A key lies in a range. -/
def KeyRange.Contains (range : KeyRange κ) (k : κ) : Prop := range.lower ≤ k ∧ k ≤ range.upper

instance (range : KeyRange κ) (k : κ) : Decidable (range.Contains k) :=
  inferInstanceAs (Decidable (_ ∧ _))

theorem KeyRange.contains_only {k k' : κ} : (KeyRange.only k).Contains k' ↔ k' = k := by
  constructor
  · rintro ⟨hle, hge⟩
    exact le_antisymm hge hle
  · rintro rfl
    exact ⟨le_refl _, le_refl _⟩

namespace Table

variable {α ι μ : Type} [LinearOrder μ] {key : α → κ} {index : α → ι}

/-- Remove the rows whose key lies in a range. -/
def deleteRange (t : Table key index) (range : KeyRange κ) : Table key index :=
  ⟨t.rows.filter fun r => ¬ range.Contains (key r), t.ascending.filter _,
    fun a ha b hb => t.unique a (List.mem_filter.mp ha).1 b (List.mem_filter.mp hb).1⟩

/-- A range that holds no key of the table removes nothing. -/
theorem deleteRange_eq_self {t : Table key index} {range : KeyRange κ}
    (h : ∀ r ∈ t.rows, ¬ range.Contains (key r)) : t.deleteRange range = t := by
  refine Table.ext (List.filter_eq_self.mpr fun r hr => ?_)
  simpa using h r hr

/-- The rows whose key in an index lies in a range. -/
def getRange (t : Table key index) (column : α → μ) (range : KeyRange μ) : List α :=
  t.rows.filter fun r => range.Contains (column r)

theorem mem_getRange {t : Table key index} {column : α → μ} {range : KeyRange μ} {r : α} :
    r ∈ t.getRange column range ↔ r ∈ t.rows ∧ range.Contains (column r) := by
  simp [getRange]

end Table

end Ranges

end Base
