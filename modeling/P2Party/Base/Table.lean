import Mathlib.Data.Prod.Lex
import Mathlib.Data.List.Sort
import Mathlib.Data.List.Pairwise
import Mathlib.Tactic.Common

/-!
# Tables

An object store: rows in ascending order of a primary key, with one unique index beside
it. `Table` carries both, so a table with two rows of one key or of one index value cannot
be built, and the order of `rows` is the order of a cursor.

- `put`: insert or replace, unless the index value is taken by another row;
- `delete`: remove the row of a key;
- `eq_of_key`, `eq_of_index`: a key, or an index value, names one row;
- `mem_put`, `perm_put_new`, `mem_delete`, `get_put`: the rows afterwards;
- `countP_put_new`, `countP_put_old`, `countP_delete`: counting rows.
-/

namespace Base

variable {α κ ι : Type} [LinearOrder κ]

/-- Rows with ascending keys and distinct index values. -/
@[ext] structure Table (key : α → κ) (index : α → ι) where
  rows : List α
  ascending : rows.Pairwise fun a b => key a < key b
  unique : ∀ a ∈ rows, ∀ b ∈ rows, index a = index b → key a = key b

namespace Table

variable {key : α → κ} {index : α → ι}

/-- No rows. -/
def empty : Table key index := ⟨[], List.Pairwise.nil, fun _ h => absurd h List.not_mem_nil⟩

/-- The rows below a key. -/
def below (t : Table key index) (k : κ) : List α := t.rows.filter fun r => key r < k

/-- The rows above a key. -/
def above (t : Table key index) (k : κ) : List α := t.rows.filter fun r => k < key r

theorem mem_below {t : Table key index} {k : κ} {r : α} :
    r ∈ t.below k ↔ r ∈ t.rows ∧ key r < k := by
  simp [below]

theorem mem_above {t : Table key index} {k : κ} {r : α} :
    r ∈ t.above k ↔ r ∈ t.rows ∧ k < key r := by
  simp [above]

/-- Whether a row of another key has the index value of `r`. -/
def clashes [DecidableEq ι] (t : Table key index) (r : α) : Bool :=
  t.rows.any fun r' => decide (key r' ≠ key r) && decide (index r' = index r)

theorem clashes_iff [DecidableEq ι] {t : Table key index} {r : α} :
    t.clashes r = true ↔ ∃ r' ∈ t.rows, key r' ≠ key r ∧ index r' = index r := by
  simp [clashes]

/-- The rows once `r` is the row of its key. -/
def placed (t : Table key index) (r : α) : List α := t.below (key r) ++ r :: t.above (key r)

theorem mem_placed {t : Table key index} {r x : α} :
    x ∈ t.placed r ↔ x = r ∨ (x ∈ t.rows ∧ key x ≠ key r) := by
  rw [placed, List.mem_append, List.mem_cons, mem_below, mem_above, ne_iff_lt_or_gt]
  tauto

theorem placed_ascending (t : Table key index) (r : α) :
    (t.placed r).Pairwise fun a b => key a < key b := by
  rw [placed, List.pairwise_append, List.pairwise_cons]
  refine ⟨t.ascending.filter _, ⟨fun b hb => (mem_above.mp hb).2, t.ascending.filter _⟩, ?_⟩
  intro a ha b hb
  have har := (mem_below.mp ha).2
  rcases List.mem_cons.mp hb with rfl | hb
  · exact har
  · exact har.trans (mem_above.mp hb).2

theorem placed_unique [DecidableEq ι] (t : Table key index) {r : α} (h : ¬ t.clashes r = true) :
    ∀ a ∈ t.placed r, ∀ b ∈ t.placed r, index a = index b → key a = key b := by
  have hr : ∀ a ∈ t.rows, index a = index r → key a = key r := by
    intro a ha hi
    by_contra hk
    exact h (clashes_iff.mpr ⟨a, ha, hk, hi⟩)
  intro a ha b hb hi
  rcases mem_placed.mp ha with har | ⟨hat, -⟩
  · rcases mem_placed.mp hb with hbr | ⟨hbt, -⟩
    · rw [har, hbr]
    · rw [har] at hi ⊢
      exact (hr b hbt hi.symm).symm
  · rcases mem_placed.mp hb with hbr | ⟨hbt, -⟩
    · rw [hbr] at hi ⊢
      exact hr a hat hi
    · exact t.unique a hat b hbt hi

/-- Insert a row, or replace the row of its key; `none` where the unique index forbids it. -/
def put [DecidableEq ι] (t : Table key index) (r : α) : Option (Table key index) :=
  if h : t.clashes r = true then none else some ⟨t.placed r, t.placed_ascending r, t.placed_unique h⟩

/-- Remove the row of a key. -/
def delete (t : Table key index) (k : κ) : Table key index :=
  ⟨t.rows.filter fun r => key r ≠ k, t.ascending.filter _,
    fun a ha b hb => t.unique a (List.mem_filter.mp ha).1 b (List.mem_filter.mp hb).1⟩

/-- The row of a key. -/
def get (t : Table key index) (k : κ) : Option α := t.rows.find? fun r => key r = k

/-- The row of an index value. -/
def lookup [DecidableEq ι] (t : Table key index) (i : ι) : Option α := t.rows.find? fun r => index r = i

/-! ## One row -/

/-- A key names one row. -/
theorem eq_of_key (t : Table key index) {a b : α} (ha : a ∈ t.rows) (hb : b ∈ t.rows)
    (h : key a = key b) : a = b := by
  have hasc := t.ascending
  generalize t.rows = rows at ha hb hasc
  induction rows with
  | nil => exact absurd ha List.not_mem_nil
  | cons r rs ih =>
    obtain ⟨hr, hasc⟩ := List.pairwise_cons.mp hasc
    rcases List.mem_cons.mp ha with har | has
    · rcases List.mem_cons.mp hb with hbr | hbs
      · rw [har, hbr]
      · exact absurd h (ne_of_lt (har ▸ hr b hbs))
    · rcases List.mem_cons.mp hb with hbr | hbs
      · exact absurd h (ne_of_gt (hbr ▸ hr a has))
      · exact ih has hbs hasc

/-- An index value names one row. -/
theorem eq_of_index (t : Table key index) {a b : α} (ha : a ∈ t.rows) (hb : b ∈ t.rows)
    (h : index a = index b) : a = b :=
  t.eq_of_key ha hb (t.unique a ha b hb h)

theorem filter_key_eq (t : Table key index) {r : α} (hr : r ∈ t.rows) :
    (t.rows.filter fun x => key x = key r) = [r] := by
  have hnd : t.rows.Nodup := t.ascending.imp fun h => fun e => absurd (e ▸ h) (lt_irrefl _)
  refine List.perm_singleton.mp ((List.perm_ext_iff_of_nodup (hnd.filter _)
    (List.nodup_singleton r)).mpr fun x => ?_)
  rw [List.mem_filter, List.mem_singleton]
  constructor
  · rintro ⟨hx, hk⟩
    exact t.eq_of_key hx hr (by simpa using hk)
  · rintro rfl
    exact ⟨hr, by simp⟩

theorem get_eq_some_iff {t : Table key index} {k : κ} {r : α} :
    t.get k = some r ↔ r ∈ t.rows ∧ key r = k := by
  constructor
  · intro h
    exact ⟨List.mem_of_find?_eq_some h, by simpa using List.find?_some h⟩
  · rintro ⟨hr, rfl⟩
    cases h : t.get (key r) with
    | none => exact absurd (List.find?_eq_none.mp h r hr) (by simp)
    | some r' =>
      rw [t.eq_of_key (List.mem_of_find?_eq_some h) hr (by simpa using List.find?_some h)]

theorem get_eq_none_iff {t : Table key index} {k : κ} : t.get k = none ↔ ∀ r ∈ t.rows, key r ≠ k := by
  simp [get]

theorem lookup_eq_some_iff [DecidableEq ι] {t : Table key index} {i : ι} {r : α} :
    t.lookup i = some r ↔ r ∈ t.rows ∧ index r = i := by
  constructor
  · intro h
    exact ⟨List.mem_of_find?_eq_some h, by simpa using List.find?_some h⟩
  · rintro ⟨hr, rfl⟩
    cases h : t.lookup (index r) with
    | none => exact absurd (List.find?_eq_none.mp h r hr) (by simp)
    | some r' =>
      rw [t.eq_of_index (List.mem_of_find?_eq_some h) hr (by simpa using List.find?_some h)]

theorem lookup_eq_none_iff [DecidableEq ι] {t : Table key index} {i : ι} :
    t.lookup i = none ↔ ∀ r ∈ t.rows, index r ≠ i := by
  simp [lookup]

/-! ## Updates -/

theorem put_eq_some_iff [DecidableEq ι] {t t' : Table key index} {r : α} :
    t.put r = some t' ↔ ¬ t.clashes r = true ∧ t'.rows = t.placed r := by
  unfold put
  split
  case isTrue h => simp [h]
  case isFalse h => simp [h, Table.ext_iff, eq_comm]

theorem mem_put [DecidableEq ι] {t t' : Table key index} {r x : α} (h : t.put r = some t') :
    x ∈ t'.rows ↔ x = r ∨ (x ∈ t.rows ∧ key x ≠ key r) := by
  rw [(put_eq_some_iff.mp h).2, mem_placed]

theorem mem_delete {t : Table key index} {k : κ} {x : α} :
    x ∈ (t.delete k).rows ↔ x ∈ t.rows ∧ key x ≠ k := by
  simp [delete]

/-- A row may be put where no row of another key has its index value. -/
theorem put_isSome [DecidableEq ι] {t : Table key index} {r : α}
    (h : ∀ r' ∈ t.rows, index r' = index r → key r' = key r) : ∃ t', t.put r = some t' := by
  have hc : ¬ t.clashes r = true := by
    rw [clashes_iff]
    rintro ⟨r', hr', hk, hi⟩
    exact hk (h r' hr' hi)
  exact ⟨⟨t.placed r, t.placed_ascending r, t.placed_unique hc⟩, put_eq_some_iff.mpr ⟨hc, rfl⟩⟩

theorem get_put [DecidableEq ι] {t t' : Table key index} {r : α} (h : t.put r = some t') (k : κ) :
    t'.get k = if k = key r then some r else t.get k := by
  refine Option.ext fun x => ?_
  rw [get_eq_some_iff, mem_put h]
  split
  case isTrue hk =>
    subst hk
    constructor
    · rintro ⟨rfl | ⟨-, hne⟩, hx⟩
      · rfl
      · exact absurd hx hne
    · intro hx
      cases hx
      exact ⟨Or.inl rfl, rfl⟩
  case isFalse hk =>
    rw [get_eq_some_iff]
    constructor
    · rintro ⟨rfl | ⟨hx, -⟩, hxk⟩
      · exact absurd hxk.symm hk
      · exact ⟨hx, hxk⟩
    · rintro ⟨hx, hxk⟩
      exact ⟨Or.inr ⟨hx, hxk ▸ hk⟩, hxk⟩

/-- A row with a new key is one more row. -/
theorem perm_put_new [DecidableEq ι] {t t' : Table key index} {r : α} (h : t.put r = some t')
    (hnew : ∀ x ∈ t.rows, key x ≠ key r) : t'.rows.Perm (t.rows ++ [r]) := by
  have hnd : ∀ t : Table key index, t.rows.Nodup :=
    fun t => t.ascending.imp fun h => fun e => absurd (e ▸ h) (lt_irrefl _)
  refine (List.perm_ext_iff_of_nodup (hnd t') (List.nodup_append.mpr
    ⟨hnd t, List.nodup_singleton r, ?_⟩)).mpr fun x => ?_
  · rintro a ha b hb rfl
    exact hnew a ha (by rw [List.mem_singleton.mp hb])
  · rw [mem_put h, List.mem_append, List.mem_singleton, or_comm]
    exact or_congr_left ⟨And.left, fun hx => ⟨hx, hnew x hx⟩⟩

/-- The rows of an index value. -/
theorem filter_index [DecidableEq ι] (t : Table key index) (i : ι) :
    (t.rows.filter fun r => index r = i) = (t.lookup i).toList := by
  cases h : t.lookup i with
  | none =>
    rw [Option.toList_none, List.filter_eq_nil_iff]
    intro r hr
    simpa using lookup_eq_none_iff.mp h r hr
  | some o =>
    obtain ⟨ho, rfl⟩ := lookup_eq_some_iff.mp h
    rw [Option.toList_some, ← t.filter_key_eq ho]
    refine List.filter_congr fun r hr => decide_eq_decide.mpr ⟨t.unique r hr o ho, fun hk => ?_⟩
    rw [t.eq_of_key hr ho hk]

/-! ## Counting rows -/

section Counting

variable (p : α → Bool)

/-- Every row is below, at, or above a key. -/
theorem countP_split (t : Table key index) (k : κ) :
    t.rows.countP p
      = (t.below k).countP p + (t.rows.filter fun r => key r = k).countP p + (t.above k).countP p := by
  unfold below above
  induction t.rows with
  | nil => rfl
  | cons r rs ih =>
    rcases lt_trichotomy (key r) k with h | h | h
    · simp only [List.filter_cons, List.countP_cons, h, ne_of_lt h, not_lt_of_gt h, decide_true,
        decide_false, if_true, Bool.false_eq_true, if_false, ih]
      omega
    · simp only [List.filter_cons, List.countP_cons, h, lt_irrefl, decide_true, decide_false,
        if_true, Bool.false_eq_true, if_false, ih]
      omega
    · simp only [List.filter_cons, List.countP_cons, h, ne_of_gt h, not_lt_of_gt h, decide_true,
        decide_false, if_true, Bool.false_eq_true, if_false, ih]
      omega

theorem countP_placed (t : Table key index) (r : α) :
    (t.placed r).countP p
      = (t.below (key r)).countP p + (if p r then 1 else 0) + (t.above (key r)).countP p := by
  rw [placed, List.countP_append, List.countP_cons]
  omega

/-- A row with a new key is counted. -/
theorem countP_put_new [DecidableEq ι] {t t' : Table key index} {r : α} (h : t.put r = some t')
    (hnew : ∀ x ∈ t.rows, key x ≠ key r) :
    t'.rows.countP p = t.rows.countP p + if p r then 1 else 0 := by
  have hat : (t.rows.filter fun x => key x = key r) = [] := by
    rw [List.filter_eq_nil_iff]
    intro x hx
    simpa using hnew x hx
  rw [(put_eq_some_iff.mp h).2, countP_placed, countP_split p t (key r), hat, List.countP_nil]
  omega

/-- A row that replaces one counted alike changes nothing. -/
theorem countP_put_old [DecidableEq ι] {t t' : Table key index} {r o : α} (h : t.put r = some t')
    (ho : o ∈ t.rows) (hk : key o = key r) (hp : p o = p r) :
    t'.rows.countP p = t.rows.countP p := by
  have hat := t.filter_key_eq ho
  rw [hk] at hat
  rw [(put_eq_some_iff.mp h).2, countP_placed, countP_split p t (key r), hat, ← hp,
    List.countP_singleton]

/-- A deleted row is no longer counted. -/
theorem countP_delete {t : Table key index} {o : α} (ho : o ∈ t.rows) :
    (t.delete (key o)).rows.countP p + (if p o then 1 else 0) = t.rows.countP p := by
  have hsplit := countP_split p t (key o)
  have hdel := countP_split p (t.delete (key o)) (key o)
  have hat : ((t.delete (key o)).rows.filter fun x => key x = key o) = [] := by
    simp [delete]
  have hbelow : (t.delete (key o)).below (key o) = t.below (key o) := by
    simp only [below, delete, List.filter_filter]
    refine List.filter_congr fun x _ => ?_
    by_cases hx : key x < key o
    · simp [hx, ne_of_lt hx]
    · simp [hx]
  have habove : (t.delete (key o)).above (key o) = t.above (key o) := by
    simp only [above, delete, List.filter_filter]
    refine List.filter_congr fun x _ => ?_
    by_cases hx : key o < key x
    · simp [hx, ne_of_gt hx]
    · simp [hx]
  rw [hat, hbelow, habove, List.countP_nil] at hdel
  rw [t.filter_key_eq ho, List.countP_singleton] at hsplit
  omega

end Counting

end Table

end Base
