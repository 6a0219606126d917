import Mathlib.Data.List.Nodup
import Mathlib.Data.List.Perm.Basic
import Mathlib.Tactic.Common

/-!
# Insertion-ordered maps

A finite map that remembers the order in which its keys were first inserted:
overwriting a key keeps its place, deleting and re-inserting moves it to the
end. `OrdMap` carries the distinctness of its keys, so a map with a duplicate
key cannot be built, and the order of `entries` is the iteration order.

- lookups after an update: `get_set_self`, `get_set_ne`, `get_delete_self`,
  `get_delete_ne`;
- sizes: `size_set_of_not_has`, `size_set_le`, `size_delete_le`;
- `evictLoop`: oldest-first eviction down to a bound, a no-op within the bound
  (`evictLoop_of_size_le`, `size_evictLoop_le`), and always a drop (`evictLoop_entries`);
- `Pushed`: keys added at the end and dropped at the front;
- rebuilding a map from its entries (`ofList_entries`);
- lookups see only the set of entries, not their order (`perm_iff_get`);
- `merge`: insert what is absent (`get_merge`, `merge_self`).
-/

namespace Base

/-- A map with distinct keys whose `entries` are in insertion order. -/
@[ext] structure OrdMap (κ ν : Type) where
  /-- Key-value pairs, oldest key first. -/
  entries : List (κ × ν)
  /-- No key occurs twice. -/
  nodup : (entries.map Prod.fst).Nodup

namespace OrdMap

variable {κ ν : Type} [DecidableEq κ]

instance [DecidableEq ν] : DecidableEq (OrdMap κ ν) := fun a b =>
  decidable_of_iff (a.entries = b.entries) OrdMap.ext_iff.symm

/-- The empty map. -/
def empty : OrdMap κ ν := ⟨[], List.nodup_nil⟩

/-- The keys, oldest first. -/
def keys (m : OrdMap κ ν) : List κ := m.entries.map Prod.fst

/-- The number of entries. -/
def size (m : OrdMap κ ν) : Nat := m.entries.length

/-- Look a key up. -/
def get (m : OrdMap κ ν) (k : κ) : Option ν :=
  (m.entries.find? fun e => e.1 = k).map Prod.snd

/-- Whether a key is present. -/
def has (m : OrdMap κ ν) (k : κ) : Bool := decide (k ∈ m.keys)

/-- Insert or overwrite: a present key keeps its place, a new one goes last. -/
def set (m : OrdMap κ ν) (k : κ) (v : ν) : OrdMap κ ν :=
  if h : k ∈ m.keys then
    ⟨m.entries.map fun e => if e.1 = k then (k, v) else e, by
      have hkeys : (m.entries.map fun e => if e.1 = k then (k, v) else e).map Prod.fst
          = m.entries.map Prod.fst := by
        rw [List.map_map]
        refine List.map_congr_left fun e _ => ?_
        by_cases he : e.1 = k
        · simp [he]
        · simp [he]
      rw [hkeys]
      exact m.nodup⟩
  else
    ⟨m.entries ++ [(k, v)], by
      rw [List.map_append, List.nodup_append]
      refine ⟨m.nodup, by simp, fun a ha b hb => ?_⟩
      rw [List.map_singleton, List.mem_singleton] at hb
      subst hb
      exact fun hab => h (hab ▸ ha)⟩

theorem set_entries_of_has {m : OrdMap κ ν} {k : κ} (v : ν) (h : k ∈ m.keys) :
    (m.set k v).entries = m.entries.map fun e => if e.1 = k then (k, v) else e := by
  rw [set, dif_pos h]

theorem set_entries_of_not_has {m : OrdMap κ ν} {k : κ} (v : ν) (h : k ∉ m.keys) :
    (m.set k v).entries = m.entries ++ [(k, v)] := by
  rw [set, dif_neg h]

/-- Remove a key. -/
def delete (m : OrdMap κ ν) (k : κ) : OrdMap κ ν :=
  ⟨m.entries.filter fun e => e.1 ≠ k,
    (List.filter_sublist.map Prod.fst).nodup m.nodup⟩

/-- Delete the listed keys in order until the map holds at most `max` entries. -/
def evictLoop (max : Nat) : List κ → OrdMap κ ν → OrdMap κ ν
  | [], m => m
  | k :: ks, m => if m.size ≤ max then m else evictLoop max ks (m.delete k)

theorem evictLoop_cons (max : Nat) (k : κ) (ks : List κ) (m : OrdMap κ ν) :
    evictLoop max (k :: ks) m = if m.size ≤ max then m else evictLoop max ks (m.delete k) := rfl

/-- Build a map by inserting the pairs one after another. -/
def ofList (es : List (κ × ν)) : OrdMap κ ν :=
  es.foldl (fun m e => m.set e.1 e.2) empty

/-- Insert the pairs whose key is absent. -/
def merge (m : OrdMap κ ν) (es : List (κ × ν)) : OrdMap κ ν :=
  es.foldl (fun m e => if m.has e.1 then m else m.set e.1 e.2) m

/-! ## Membership and lookup -/

omit [DecidableEq κ] in
theorem mem_keys_iff {m : OrdMap κ ν} {k : κ} : k ∈ m.keys ↔ ∃ v, (k, v) ∈ m.entries := by
  simp [keys]

@[simp] theorem has_iff {m : OrdMap κ ν} {k : κ} : m.has k = true ↔ k ∈ m.keys := by
  simp [has]

/-- Distinct keys make the lookup result of a present pair unambiguous. -/
theorem get_eq_some_iff {m : OrdMap κ ν} {k : κ} {v : ν} :
    m.get k = some v ↔ (k, v) ∈ m.entries := by
  obtain ⟨es, hnd⟩ := m
  simp only [get]
  induction es with
  | nil => simp
  | cons e es ih =>
    rw [List.map_cons, List.nodup_cons] at hnd
    by_cases he : e.1 = k
    · rw [List.find?_cons_of_pos (by simpa using he), List.mem_cons]
      constructor
      · intro h
        refine Or.inl ?_
        obtain ⟨a, b⟩ := e
        simp only [Option.map_some, Option.some.injEq] at h he
        rw [he, h]
      · rintro (h | h)
        · rw [← h]
          rfl
        · exact absurd (List.mem_map.mpr ⟨_, h, he.symm⟩) hnd.1
    · rw [List.find?_cons_of_neg (by simpa using he), ih hnd.2, List.mem_cons]
      constructor
      · exact Or.inr
      · rintro (h | h)
        · exact absurd (congrArg Prod.fst h).symm he
        · exact h

theorem get_eq_none_iff {m : OrdMap κ ν} {k : κ} : m.get k = none ↔ k ∉ m.keys := by
  rw [← not_iff_not, not_not, mem_keys_iff, ← ne_eq, Option.ne_none_iff_exists']
  exact exists_congr fun v => get_eq_some_iff

theorem mem_keys_of_get {m : OrdMap κ ν} {k : κ} {v : ν} (h : m.get k = some v) : k ∈ m.keys :=
  mem_keys_iff.mpr ⟨v, get_eq_some_iff.mp h⟩

@[simp] theorem get_empty (k : κ) : (empty : OrdMap κ ν).get k = none := rfl

omit [DecidableEq κ] in
@[simp] theorem size_empty : (empty : OrdMap κ ν).size = 0 := rfl

theorem mem_set_entries {m : OrdMap κ ν} {k : κ} {v : ν} {e : κ × ν} :
    e ∈ (m.set k v).entries ↔ e = (k, v) ∨ (e ∈ m.entries ∧ e.1 ≠ k) := by
  unfold set
  split
  case isTrue hk =>
    simp only [List.mem_map]
    constructor
    · rintro ⟨x, hx, rfl⟩
      by_cases hxk : x.1 = k
      · simp [hxk]
      · exact Or.inr (by simp [hxk, hx])
    · rintro (rfl | ⟨he, hne⟩)
      · obtain ⟨w, hw⟩ := mem_keys_iff.mp hk
        exact ⟨(k, w), hw, by simp⟩
      · exact ⟨e, he, by simp [hne]⟩
  case isFalse hk =>
    rw [List.mem_append, List.mem_singleton, or_comm]
    refine or_congr_right ⟨fun he => ⟨he, fun hek => hk ?_⟩, And.left⟩
    exact List.mem_map.mpr ⟨e, he, hek⟩

theorem get_set_self (m : OrdMap κ ν) (k : κ) (v : ν) : (m.set k v).get k = some v :=
  get_eq_some_iff.mpr (mem_set_entries.mpr (Or.inl rfl))

theorem get_set_ne (m : OrdMap κ ν) {k k' : κ} (v : ν) (h : k' ≠ k) :
    (m.set k v).get k' = m.get k' := by
  refine Option.ext fun w => ?_
  rw [get_eq_some_iff, get_eq_some_iff, mem_set_entries]
  constructor
  · rintro (he | ⟨he, -⟩)
    · exact absurd (congrArg Prod.fst he) h
    · exact he
  · exact fun he => Or.inr ⟨he, h⟩

theorem mem_delete_entries {m : OrdMap κ ν} {k : κ} {e : κ × ν} :
    e ∈ (m.delete k).entries ↔ e ∈ m.entries ∧ e.1 ≠ k := by
  simp [delete]

theorem get_delete_self (m : OrdMap κ ν) (k : κ) : (m.delete k).get k = none := by
  rw [get_eq_none_iff, mem_keys_iff]
  rintro ⟨v, hv⟩
  exact (mem_delete_entries.mp hv).2 rfl

theorem get_delete_ne (m : OrdMap κ ν) {k k' : κ} (h : k' ≠ k) :
    (m.delete k).get k' = m.get k' := by
  refine Option.ext fun w => ?_
  rw [get_eq_some_iff, get_eq_some_iff, mem_delete_entries]
  exact ⟨And.left, fun he => ⟨he, h⟩⟩

/-! ## Sizes and eviction -/

theorem size_set_of_not_has {m : OrdMap κ ν} {k : κ} (v : ν) (h : k ∉ m.keys) :
    (m.set k v).size = m.size + 1 := by
  show (m.set k v).entries.length = m.entries.length + 1
  rw [set_entries_of_not_has v h, List.length_append]
  exact Eq.refl (m.entries.length + 1)

theorem size_set_of_has {m : OrdMap κ ν} {k : κ} (v : ν) (h : k ∈ m.keys) :
    (m.set k v).size = m.size := by
  show (m.set k v).entries.length = m.entries.length
  rw [set_entries_of_has v h, List.length_map]

theorem size_set_le (m : OrdMap κ ν) (k : κ) (v : ν) : (m.set k v).size ≤ m.size + 1 := by
  by_cases h : k ∈ m.keys
  · rw [size_set_of_has v h]
    omega
  · exact Nat.le_of_eq (size_set_of_not_has v h)

theorem size_delete_le (m : OrdMap κ ν) (k : κ) : (m.delete k).size ≤ m.size :=
  List.length_filter_le _ _

/-- Within the bound nothing is evicted. -/
theorem evictLoop_of_size_le {max : Nat} (ks : List κ) {m : OrdMap κ ν} (h : m.size ≤ max) :
    evictLoop max ks m = m := by
  cases ks with
  | nil => rfl
  | cons k ks => rw [evictLoop_cons, if_pos h]

omit [DecidableEq κ] in
theorem length_keys (m : OrdMap κ ν) : m.keys.length = m.size := List.length_map _

/-- Deleting the oldest key drops the first entry. -/
theorem delete_head {m : OrdMap κ ν} {e : κ × ν} {es : List (κ × ν)} (h : m.entries = e :: es) :
    (m.delete e.1).entries = es := by
  have hnodup := m.nodup
  rw [h, List.map_cons, List.nodup_cons] at hnodup
  show m.entries.filter _ = es
  rw [h, List.filter_cons_of_neg (by simp)]
  refine List.filter_eq_self.mpr fun x hx => decide_eq_true fun hxe => hnodup.1 ?_
  exact List.mem_map.mpr ⟨x, hx, hxe⟩

/-- Eviction drops the oldest entries that exceed the bound. -/
theorem evictLoop_entries (max : Nat) (m : OrdMap κ ν) :
    (evictLoop max m.keys m).entries = m.entries.drop (m.size - max) := by
  have hall : ∀ (es : List (κ × ν)) (m : OrdMap κ ν), m.entries = es →
      (evictLoop max (es.map Prod.fst) m).entries = es.drop (es.length - max) := by
    intro es
    induction es with
    | nil =>
      intro m h
      rw [List.map_nil, List.drop_nil]
      exact h
    | cons e es ih =>
      intro m h
      have hsize : m.size = es.length + 1 := by rw [size, h, List.length_cons]
      rw [List.map_cons, evictLoop_cons, hsize, List.length_cons]
      by_cases hle : es.length + 1 ≤ max
      · rw [if_pos hle, h, Nat.sub_eq_zero_of_le hle, List.drop_zero]
      · rw [if_neg hle, ih _ (delete_head h), Nat.succ_sub (by omega), List.drop_succ_cons]
  exact hall m.entries m rfl

theorem keys_set (m : OrdMap κ ν) (k : κ) (v : ν) :
    (m.set k v).keys = if k ∈ m.keys then m.keys else m.keys ++ [k] := by
  by_cases h : k ∈ m.keys
  · rw [if_pos h, keys, set_entries_of_has v h, List.map_map, keys]
    refine List.map_congr_left fun e _ => ?_
    by_cases he : e.1 = k
    · simp [he]
    · simp [he]
  · rw [if_neg h, keys, set_entries_of_not_has v h, List.map_append]
    rfl

omit [DecidableEq κ] in
/-- `new` is `old` with at most `n` keys added at the end and the oldest dropped beyond `bound`. -/
def Pushed (bound n : Nat) (old new : List κ) : Prop :=
  ∃ added : List κ, added.length ≤ n ∧ new = (old ++ added).drop (old.length + added.length - bound)

omit [DecidableEq κ] in
theorem Pushed.refl {bound : Nat} (n : Nat) {old : List κ} (h : old.length ≤ bound) :
    Pushed bound n old old := by
  refine ⟨[], Nat.zero_le n, ?_⟩
  rw [List.append_nil, List.length_nil, Nat.add_zero, Nat.sub_eq_zero_of_le h, List.drop_zero]

omit [DecidableEq κ] in
theorem Pushed.length_le {bound n : Nat} {old new : List κ} (h : Pushed bound n old new) :
    new.length ≤ bound := by
  obtain ⟨added, -, rfl⟩ := h
  rw [List.length_drop, List.length_append]
  omega

omit [DecidableEq κ] in
theorem Pushed.trans {bound m n : Nat} {a b c : List κ} (h : Pushed bound m a b)
    (h' : Pushed bound n b c) : Pushed bound (m + n) a c := by
  obtain ⟨x, hx, rfl⟩ := h
  obtain ⟨y, hy, rfl⟩ := h'
  refine ⟨x ++ y, by rw [List.length_append]; omega, ?_⟩
  have hfirst : a.length + x.length - bound ≤ (a ++ x).length := by
    rw [List.length_append]
    exact Nat.sub_le _ _
  rw [← List.drop_append_of_le_length hfirst, List.drop_drop, List.append_assoc, List.length_drop,
    List.length_append, List.length_append]
  congr 1
  omega

omit [DecidableEq κ] in
theorem Pushed.mono {bound m n : Nat} {a b : List κ} (h : Pushed bound m a b) (hmn : m ≤ n) :
    Pushed bound n a b := by
  obtain ⟨x, hx, heq⟩ := h
  exact ⟨x, Nat.le_trans hx hmn, heq⟩

/-- Eviction only removes entries. -/
theorem mem_of_mem_evictLoop {max : Nat} {ks : List κ} {m : OrdMap κ ν} {e : κ × ν}
    (h : e ∈ (evictLoop max ks m).entries) : e ∈ m.entries := by
  induction ks generalizing m with
  | nil => exact h
  | cons k ks ih =>
    rw [evictLoop_cons] at h
    split at h
    · exact h
    · exact (mem_delete_entries.mp (ih h)).1

/-- Eviction through all the keys ends within the bound. -/
theorem size_evictLoop_le {max : Nat} {ks : List κ} {m : OrdMap κ ν} (h : ∀ k ∈ m.keys, k ∈ ks) :
    (evictLoop max ks m).size ≤ max := by
  induction ks generalizing m with
  | nil =>
    have hnil : m.entries = [] := by
      cases hes : m.entries with
      | nil => rfl
      | cons e es =>
        exact absurd (h e.1 (List.mem_map_of_mem (hes ▸ List.mem_cons_self))) (by simp)
    show m.entries.length ≤ max
    rw [hnil]
    exact Nat.zero_le _
  | cons k ks ih =>
    rw [evictLoop_cons]
    split
    · assumption
    · refine ih fun k' hk' => ?_
      obtain ⟨v, hv⟩ := mem_keys_iff.mp hk'
      obtain ⟨hmem, hne⟩ := mem_delete_entries.mp hv
      exact (List.mem_cons.mp (h k' (mem_keys_iff.mpr ⟨v, hmem⟩))).resolve_left hne

/-! ## Rebuilding from entries -/

/-- Inserting fresh, distinct pairs appends them in order. -/
theorem foldl_set_entries (es : List (κ × ν)) (m : OrdMap κ ν)
    (h : (m.keys ++ es.map Prod.fst).Nodup) :
    (es.foldl (fun m e => m.set e.1 e.2) m).entries = m.entries ++ es := by
  induction es generalizing m with
  | nil => simp
  | cons e es ih =>
    have hfresh : e.1 ∉ m.keys := by
      intro hmem
      exact (List.nodup_append.mp h).2.2 e.1 hmem e.1 (by simp) rfl
    have hentries := set_entries_of_not_has e.2 hfresh
    have hkeys : (m.set e.1 e.2).keys = m.keys ++ [e.1] := by
      simp [keys, hentries]
    rw [List.foldl_cons, ih, hentries, List.append_assoc, List.singleton_append]
    rwa [hkeys, List.append_assoc, List.singleton_append, ← List.map_cons]

/-- Reading a map's entries back in order rebuilds the map. -/
@[simp] theorem ofList_entries (m : OrdMap κ ν) : ofList m.entries = m :=
  OrdMap.ext (foldl_set_entries m.entries empty m.nodup)

/-! ## Order-insensitive lookup -/

/-- Maps with the same entries in any order answer every lookup alike. -/
theorem get_eq_of_perm {m m' : OrdMap κ ν} (h : m.entries.Perm m'.entries) (k : κ) :
    m.get k = m'.get k := by
  refine Option.ext fun v => ?_
  rw [get_eq_some_iff, get_eq_some_iff, h.mem_iff]

/-- Same lookups, same entries up to order. -/
theorem perm_iff_get {m m' : OrdMap κ ν} :
    m.entries.Perm m'.entries ↔ ∀ k, m.get k = m'.get k := by
  constructor
  · exact get_eq_of_perm
  · intro h
    refine (List.perm_ext_iff_of_nodup m.nodup.of_map m'.nodup.of_map).mpr fun e => ?_
    obtain ⟨k, v⟩ := e
    rw [← get_eq_some_iff, ← get_eq_some_iff, h]

theorem get_set (m : OrdMap κ ν) (k k' : κ) (v : ν) :
    (m.set k v).get k' = if k' = k then some v else m.get k' := by
  split
  · rename_i h
    rw [h, get_set_self]
  · rename_i h
    exact get_set_ne m v h

theorem set_perm {m m' : OrdMap κ ν} (h : m.entries.Perm m'.entries) (k : κ) (v : ν) :
    (m.set k v).entries.Perm (m'.set k v).entries :=
  perm_iff_get.mpr fun k' => by rw [get_set, get_set, get_eq_of_perm h]

/-! ## Merging -/

theorem get_mergeList (es : List (κ × ν)) (m : OrdMap κ ν) (k : κ) :
    (m.merge es).get k = (m.get k).or ((es.find? fun e => e.1 = k).map Prod.snd) := by
  induction es generalizing m with
  | nil => exact (Option.or_none).symm
  | cons e es ih =>
    show (merge (if m.has e.1 then m else m.set e.1 e.2) es).get k = _
    rw [ih]
    by_cases hk : e.1 = k
    · rw [List.find?_cons_of_pos (by simpa using hk)]
      subst hk
      by_cases hhas : m.has e.1 = true
      · obtain ⟨v, hv⟩ := mem_keys_iff.mp (has_iff.mp hhas)
        rw [if_pos hhas, get_eq_some_iff.mpr hv]
        rfl
      · rw [if_neg hhas, get_set_self, get_eq_none_iff.mpr fun hmem => hhas (has_iff.mpr hmem)]
        rfl
    · rw [List.find?_cons_of_neg (by simpa using hk)]
      have hget : (if m.has e.1 then m else m.set e.1 e.2).get k = m.get k := by
        split
        · rfl
        · exact get_set_ne m e.2 (Ne.symm hk)
      rw [hget]

/-- A merge answers from the first map, then from the second. -/
theorem get_merge (m m' : OrdMap κ ν) (k : κ) :
    (m.merge m'.entries).get k = (m.get k).or (m'.get k) := get_mergeList m'.entries m k

/-- Merging present keys changes nothing. -/
theorem mergeList_of_mem {es : List (κ × ν)} {m : OrdMap κ ν} (h : ∀ e ∈ es, e.1 ∈ m.keys) :
    m.merge es = m := by
  induction es with
  | nil => rfl
  | cons e es ih =>
    have hpresent : m.has e.1 = true := has_iff.mpr (h e List.mem_cons_self)
    show merge (if m.has e.1 then m else m.set e.1 e.2) es = m
    rw [if_pos hpresent]
    exact ih fun e he => h e (List.mem_cons_of_mem _ he)

/-- Merging a map into itself changes nothing. -/
theorem merge_self (m : OrdMap κ ν) : m.merge m.entries = m :=
  mergeList_of_mem fun _ he => List.mem_map_of_mem he

theorem merge_perm {m₁ m₂ m₁' m₂' : OrdMap κ ν} (h : m₁.entries.Perm m₂.entries)
    (h' : m₁'.entries.Perm m₂'.entries) :
    (m₁.merge m₁'.entries).entries.Perm (m₂.merge m₂'.entries).entries :=
  perm_iff_get.mpr fun k => by
    rw [get_merge, get_merge, get_eq_of_perm h, get_eq_of_perm h']

end OrdMap

end Base
