import Mathlib.Data.List.Nodup
import Mathlib.Tactic.Common

/-!
# Shuffling by exchanges

An array is shuffled from its last place to its second: each place is exchanged with one that was
chosen among itself and those before it. What comes out is told by the choices alone, and every
order of the elements comes from one sequence of choices.

- `shuffleBy`: the exchanges that choices tell, `Choices`: choices that may be made;
- `shuffleBy_perm`, `shuffleBy_range`: elements are moved, whatever they are;
- `shuffleBy_inj`: different choices, different orders;
- `exists_shuffleBy`: every order is reached;
- `existsUnique_shuffleBy`: one-to-one.
-/

namespace Base

open Array

variable {α β : Type}

/-- The choice for a place is the place or one before it. The first is for the last place. -/
def Choices : List ℕ → Prop
  | [] => True
  | j :: js => j ≤ js.length + 1 ∧ Choices js

instance Choices.decidable : (js : List ℕ) → Decidable (Choices js)
  | [] => isTrue trivial
  | _ :: js => @instDecidableAnd _ _ _ (Choices.decidable js)

/-- The exchanges, from the place that as many choices are left for. -/
def shuffleBy : List ℕ → Array α → Array α
  | [], a => a
  | j :: js, a => shuffleBy js (a.swapIfInBounds (js.length + 1) j)

variable {js js' : List ℕ} {a b : Array α}

theorem swapIfInBounds_perm (a : Array α) (i j : ℕ) : (a.swapIfInBounds i j).Perm a := by
  rw [swapIfInBounds_def]
  split
  · split
    · exact swap_perm _ _
    · exact Perm.refl a
  · exact Perm.refl a

/-- Nothing is lost. -/
theorem shuffleBy_perm (js : List ℕ) (a : Array α) : (shuffleBy js a).Perm a := by
  induction js generalizing a with
  | nil => exact Perm.refl a
  | cons j js ih => exact (ih _).trans (swapIfInBounds_perm a _ j)

@[simp] theorem size_shuffleBy (js : List ℕ) (a : Array α) : (shuffleBy js a).size = a.size :=
  (shuffleBy_perm js a).size_eq

theorem swapIfInBounds_map (f : α → β) (a : Array α) (i j : ℕ) :
    (a.map f).swapIfInBounds i j = (a.swapIfInBounds i j).map f := by
  refine Array.ext (by simp) fun k hk hk' => ?_
  rw [getElem_map, getElem_swapIfInBounds, getElem_swapIfInBounds]
  simp only [getElem_map, size_map]
  split_ifs <;> rfl

/-- What the elements are makes no difference. -/
theorem shuffleBy_map (f : α → β) (js : List ℕ) (a : Array α) :
    shuffleBy js (a.map f) = (shuffleBy js a).map f := by
  induction js generalizing a with
  | nil => rfl
  | cons j js ih => rw [shuffleBy, swapIfInBounds_map, ih, shuffleBy]

/-- An array is rearranged as its places are. -/
theorem shuffleBy_range (js : List ℕ) (a : Array α) :
    (shuffleBy js a).map some = (shuffleBy js (range a.size)).map fun k => a[k]? := by
  have hplaces : a.map some = (range a.size).map fun k => a[k]? := by
    refine Array.ext (by simp) fun k hk hk' => ?_
    have hk : k < a.size := by simpa using hk
    simp [hk]
  rw [← shuffleBy_map, hplaces, shuffleBy_map]

/-- Places that no choice is left for keep what they have. -/
theorem getElem?_shuffleBy (h : Choices js) {k : ℕ} (hk : js.length < k) (a : Array α) :
    (shuffleBy js a)[k]? = a[k]? := by
  induction js generalizing a with
  | nil => rfl
  | cons j js ih =>
    obtain ⟨hj, hrest⟩ := h
    rw [List.length_cons] at hk
    rw [shuffleBy, ih hrest (by omega)]
    by_cases hsize : k < a.size
    · rw [getElem?_eq_getElem (by simpa using hsize), getElem?_eq_getElem hsize,
        getElem_swapIfInBounds_of_ne_of_ne (by omega) (by omega)]
    · rw [getElem?_eq_none (by simpa using hsize), getElem?_eq_none (by simpa using hsize)]

/-- The place whose turn it is gets what was chosen, and keeps it. -/
theorem getElem?_shuffleBy_cons {j : ℕ} (h : Choices (j :: js)) (hsize : js.length + 1 < a.size) :
    (shuffleBy (j :: js) a)[js.length + 1]? = a[j]? := by
  have hj : j < a.size := Nat.lt_of_le_of_lt h.1 hsize
  rw [shuffleBy, getElem?_shuffleBy h.2 (Nat.lt_succ_self _), getElem?_eq_getElem (by simpa using hsize),
    getElem?_eq_getElem hj, getElem_swapIfInBounds_left hj]

/-- **Different choices give different orders.** -/
theorem shuffleBy_inj (ha : a.toList.Nodup) (h : Choices js) (h' : Choices js')
    (hlength : js.length = js'.length) (hsize : js.length < a.size) (heq : shuffleBy js a = shuffleBy js' a) :
    js = js' := by
  induction js generalizing js' a with
  | nil => exact (List.eq_nil_of_length_eq_zero hlength.symm).symm
  | cons j js ih =>
    cases js' with
    | nil => exact absurd hlength (by simp)
    | cons j' js' =>
      have hlen : js.length = js'.length := Nat.succ.inj hlength
      rw [List.length_cons] at hsize
      have hj : j < a.size := Nat.lt_of_le_of_lt h.1 hsize
      have hj' : j' < a.size := Nat.lt_of_le_of_lt h'.1 (hlen ▸ hsize)
      -- the last place tells the first choice
      have hlast : a[j]? = a[j']? := by
        rw [← getElem?_shuffleBy_cons h hsize, heq, hlen, getElem?_shuffleBy_cons h' (hlen ▸ hsize)]
      obtain rfl : j = j' := by
        rw [← getElem?_toList, ← getElem?_toList] at hlast
        exact (List.getElem?_inj (by simpa using hj) ha).mp hlast
      rw [shuffleBy, shuffleBy, ← hlen] at heq
      rw [ih ((swapIfInBounds_perm a _ j).toList.nodup_iff.mpr ha) h.2 h'.2 hlen (by simpa using by omega) heq]

/-- Where two orders agree from a place on, what is before it is the same up to order. -/
theorem take_perm (hperm : b.Perm a) {n : ℕ} (hsame : ∀ k, n ≤ k → b[k]? = a[k]?) :
    (b.toList.take n).Perm (a.toList.take n) := by
  have hdrop : b.toList.drop n = a.toList.drop n := by
    refine List.ext_getElem? fun k => ?_
    rw [List.getElem?_drop, List.getElem?_drop, getElem?_toList, getElem?_toList]
    exact hsame (n + k) (Nat.le_add_right n k)
  have htoList : (b.toList.take n ++ a.toList.drop n).Perm (a.toList.take n ++ a.toList.drop n) := by
    rw [List.take_append_drop]
    nth_rewrite 1 [← hdrop]
    rw [List.take_append_drop]
    exact hperm.toList
  exact (List.perm_append_right_iff _).mp htoList

/-- Every order of the places that choices are left for is reached. -/
theorem exists_shuffleBy (n : ℕ) (hsize : n < a.size) (hperm : b.Perm a)
    (hsame : ∀ k, n < k → b[k]? = a[k]?) :
    ∃ js, Choices js ∧ js.length = n ∧ shuffleBy js a = b := by
  induction n generalizing a with
  | zero =>
    refine ⟨[], trivial, rfl, ?_⟩
    have htake := take_perm hperm (n := 1) hsame
    refine Array.ext_getElem? fun k => ?_
    rcases Nat.eq_zero_or_pos k with rfl | hk
    · have hb : 0 < b.size := hperm.size_eq ▸ hsize
      rw [List.take_one, List.take_one, List.head?_eq_getElem?, List.head?_eq_getElem?, getElem?_toList,
        getElem?_toList, getElem?_eq_getElem hsize, getElem?_eq_getElem hb] at htake
      rw [shuffleBy, getElem?_eq_getElem hsize, getElem?_eq_getElem hb,
        List.singleton_perm_singleton.mp htake]
    · exact (hsame k hk).symm
  | succ n ih =>
    have hb : n + 1 < b.size := hperm.size_eq ▸ hsize
    -- what the last place is to get lies there or before
    obtain ⟨j, hj, hget⟩ : ∃ j, j ≤ n + 1 ∧ a[j]? = b[n + 1]? := by
      have hmem : b[n + 1] ∈ b.toList.take (n + 2) := by
        refine List.mem_iff_getElem?.mpr ⟨n + 1, ?_⟩
        rw [List.getElem?_take_of_lt (Nat.lt_succ_self _), getElem?_toList, getElem?_eq_getElem hb]
      obtain ⟨j, hj⟩ := List.mem_iff_getElem?.mp ((take_perm hperm hsame).mem_iff.mp hmem)
      have hlt : j < n + 2 := by
        by_contra hge
        rw [List.getElem?_take_eq_none (Nat.le_of_not_lt hge)] at hj
        cases hj
      rw [List.getElem?_take_of_lt hlt, getElem?_toList] at hj
      exact ⟨j, Nat.le_of_lt_succ hlt, hj.trans (getElem?_eq_getElem hb).symm⟩
    have hjsize : j < a.size := Nat.lt_of_le_of_lt hj hsize
    have hswap : ∀ k, n < k → b[k]? = (a.swapIfInBounds (n + 1) j)[k]? := by
      intro k hk
      by_cases hlast : k = n + 1
      · subst hlast
        rw [← hget, getElem?_eq_getElem hjsize, getElem?_eq_getElem (by simpa using hsize),
          getElem_swapIfInBounds_left hjsize]
      · rw [hsame k (by omega)]
        by_cases hlt : k < a.size
        · rw [getElem?_eq_getElem hlt, getElem?_eq_getElem (by simpa using hlt),
            getElem_swapIfInBounds_of_ne_of_ne hlast (by omega)]
        · rw [getElem?_eq_none (by simpa using hlt), getElem?_eq_none (by simpa using hlt)]
    obtain ⟨js, hjs, hlength, hshuffle⟩ := ih (a := a.swapIfInBounds (n + 1) j)
      (by rw [size_swapIfInBounds]; exact Nat.lt_of_succ_lt hsize)
      (hperm.trans (swapIfInBounds_perm a _ j).symm) hswap
    refine ⟨j :: js, ⟨hlength ▸ hj, hjs⟩, congrArg (· + 1) hlength, ?_⟩
    rw [shuffleBy, hlength]
    exact hshuffle

/-- **The choices for an array stand for its orders, one for one.** -/
theorem existsUnique_shuffleBy (ha : a.toList.Nodup) (hperm : b.Perm a) :
    ∃! js, Choices js ∧ js.length = a.size - 1 ∧ shuffleBy js a = b := by
  rcases Nat.eq_zero_or_pos a.size with hzero | hpos
  · have ha : a = #[] := eq_empty_of_size_eq_zero hzero
    have hb : b = #[] := eq_empty_of_size_eq_zero (hperm.size_eq.trans hzero)
    refine ⟨[], ⟨trivial, by rw [hzero]; rfl, by rw [ha, hb]; rfl⟩, ?_⟩
    rintro js ⟨-, hlength, -⟩
    rw [hzero] at hlength
    exact List.eq_nil_of_length_eq_zero hlength
  · have hlast : a.size - 1 < a.size := Nat.sub_lt hpos Nat.one_pos
    have hsame : ∀ k, a.size - 1 < k → b[k]? = a[k]? := by
      intro k hk
      rw [getElem?_eq_none (by rw [hperm.size_eq]; omega), getElem?_eq_none (by omega)]
    obtain ⟨js, hjs, hlength, hshuffle⟩ := exists_shuffleBy (a.size - 1) hlast hperm hsame
    refine ⟨js, ⟨hjs, hlength, hshuffle⟩, ?_⟩
    rintro js' ⟨hjs', hlength', hshuffle'⟩
    exact shuffleBy_inj ha hjs' hjs (hlength'.trans hlength.symm) (hlength'.symm ▸ hlast)
      (hshuffle'.trans hshuffle.symm)

end Base
