import Mathlib.Data.Int.CardIntervalMod
import Mathlib.Data.Set.Card

/-!
# Drawing again

A number below a power of two is brought into a smaller range by its remainder. So that no value is
favoured, what is drawn from the largest multiple of the range on is drawn again.

- `drawBelow`: drawing until below a limit;
- `Unbiased`: the first draw accepted decides, and all values are given by equally many draws;
- `ncard_remainder`: below a multiple of the range, remainders come equally often;
- `unbiased_iff`: a value for each remainder, one and no other, is what is needed besides.
-/

namespace Base

variable {δ β : Type}

/-- Draws until one is below the limit, and what is left of them. -/
def drawBelow (number : δ → ℕ) (limit : ℕ) : List δ → Option (ℕ × List δ)
  | [] => none
  | d :: ds => if limit ≤ number d then drawBelow number limit ds else some (number d, ds)

theorem drawBelow_of_lt {number : δ → ℕ} {limit : ℕ} {d : δ} (h : number d < limit) (ds : List δ) :
    drawBelow number limit (d :: ds) = some (number d, ds) := by
  rw [drawBelow, if_neg (Nat.not_le_of_lt h)]

theorem drawBelow_of_le {number : δ → ℕ} {limit : ℕ} {d : δ} (h : limit ≤ number d) (ds : List δ) :
    drawBelow number limit (d :: ds) = drawBelow number limit ds := by
  rw [drawBelow, if_pos h]

/-- At least one draw is used. -/
theorem length_of_drawBelow {number : δ → ℕ} {limit x : ℕ} {ds rest : List δ}
    (h : drawBelow number limit ds = some (x, rest)) : x < limit ∧ rest.length < ds.length := by
  induction ds with
  | nil => cases h
  | cons d ds ih =>
    by_cases hlt : number d < limit
    · rw [drawBelow_of_lt hlt] at h
      cases h
      exact ⟨hlt, Nat.lt_succ_self _⟩
    · rw [drawBelow_of_le (Nat.le_of_not_lt hlt)] at h
      obtain ⟨hx, hlength⟩ := ih h
      exact ⟨hx, Nat.lt_succ_of_lt hlength⟩

/-- A sampler that takes one draw after another until it accepts one: it gives no other values than
those wanted, and each of them for equally many draws. -/
structure Unbiased (draws : Set δ) (sample : List δ → Option β) (wanted : Set β) : Prop where
  first : ∀ ds : List δ, (∀ d ∈ ds, d ∈ draws) → sample ds = ds.findSome? fun d => sample [d]
  inRange : ∀ d ∈ draws, ∀ v, sample [d] = some v → v ∈ wanted
  equally : ∃ times, 0 < times ∧ ∀ v ∈ wanted, {d ∈ draws | sample [d] = some v}.ncard = times

/-- The largest multiple of the range. -/
def multipleBelow (total range : ℕ) : ℕ := total / range * range

/-- Below a multiple of the range every remainder comes equally often. -/
theorem ncard_remainder {range k : ℕ} (times : ℕ) (hk : k < range) :
    {x : ℕ | x < times * range ∧ x % range = k}.ncard = times := by
  have hrange : 0 < range := Nat.zero_lt_of_lt hk
  have hset : {x : ℕ | x < times * range ∧ x % range = k} =
      ((Finset.range (times * range)).filter fun x => x ≡ k [MOD range]) := by
    ext x
    rw [Finset.coe_filter, Set.mem_ofPred_eq, Set.mem_ofPred_eq, Finset.mem_range, Nat.ModEq,
      Nat.mod_eq_of_lt hk]
  rw [hset, Set.ncard_coe_finset, ← Nat.count_eq_card_filter_range, Nat.count_modEq_card _ hrange,
    Nat.mul_div_cancel _ hrange, Nat.mul_mod_left, if_neg (Nat.not_lt_zero _), Nat.add_zero]

section Modulus

variable {draws : Set δ} {sample : List δ → Option β} {wanted : Set β} {number : δ → ℕ} {value : ℕ → β}
  {total range : ℕ}

/-- The draws with a remainder among those accepted. -/
theorem ncard_draws (hnumber : Set.BijOn number draws (Set.Iio total)) {k : ℕ} (hk : k < range) :
    {d ∈ draws | number d < multipleBelow total range ∧ number d % range = k}.ncard =
      total / range := by
  rw [← ncard_remainder (total / range) hk]
  refine Set.ncard_congr (fun d _ => number d) ?_ ?_ ?_
  · rintro d ⟨-, h⟩
    exact h
  · rintro d d' ⟨hd, -⟩ ⟨hd', -⟩ heq
    exact hnumber.injOn hd hd' heq
  · rintro x ⟨hx, hmod⟩
    have hlt : x < total := Nat.lt_of_lt_of_le hx (Nat.div_mul_le_self total range)
    obtain ⟨d, hd, rfl⟩ := hnumber.surjOn hlt
    exact ⟨d, ⟨hd, hx, hmod⟩, rfl⟩

variable (value) in
/-- **Sampling by remainders is unbiased just when every value wanted stands for one remainder.** -/
theorem unbiased_iff (hnumber : Set.BijOn number draws (Set.Iio total)) (hrange : 0 < range)
    (hle : range ≤ total) (hwanted : wanted.ncard = range)
    (hsample : ∀ ds : List δ, (∀ d ∈ ds, d ∈ draws) →
      sample ds = (drawBelow number (multipleBelow total range) ds).map fun p => value (p.1 % range)) :
    Unbiased draws sample wanted ↔ Set.BijOn value (Set.Iio range) wanted := by
  have hone : ∀ d ∈ draws, ∀ v, sample [d] = some v ↔
      number d < multipleBelow total range ∧ value (number d % range) = v := by
    intro d hd v
    rw [hsample [d] (by simpa using hd)]
    by_cases hlt : number d < multipleBelow total range
    · simp [drawBelow_of_lt hlt, hlt]
    · simp [drawBelow, hlt]
  -- a remainder is that of a draw that is accepted
  have hdraw : ∀ k < range, ∃ d ∈ draws, number d < multipleBelow total range ∧ number d % range = k := by
    intro k hk
    have hlt : k < multipleBelow total range :=
      Nat.lt_of_lt_of_le hk (Nat.le_mul_of_pos_left range (Nat.div_pos hle hrange))
    obtain ⟨d, hd, rfl⟩ := hnumber.surjOn (Nat.lt_of_lt_of_le hlt (Nat.div_mul_le_self total range))
    exact ⟨d, hd, hlt, Nat.mod_eq_of_lt hk⟩
  constructor
  · intro h
    have hmaps : Set.MapsTo value (Set.Iio range) wanted := by
      intro k hk
      obtain ⟨d, hd, hlt, rfl⟩ := hdraw k hk
      exact h.inRange d hd _ ((hone d hd _).mpr ⟨hlt, rfl⟩)
    have hsurj : Set.SurjOn value (Set.Iio range) wanted := by
      intro v hv
      obtain ⟨times, hpos, htimes⟩ := h.equally
      rw [← htimes v hv] at hpos
      obtain ⟨d, hd, hsome⟩ := (Set.ncard_pos (Set.finite_of_ncard_pos hpos)).mp hpos
      exact ⟨number d % range, Nat.mod_lt _ hrange, ((hone d hd v).mp hsome).2⟩
    refine ⟨hmaps, ?_, hsurj⟩
    -- as many values as remainders, and all are reached
    have hfinite : wanted.Finite := Set.finite_of_ncard_pos (hwanted ▸ hrange)
    have hcard : (Set.Iio range).ncard ≤ wanted.ncard := by
      rw [hwanted, Set.ncard_eq_toFinset_card', Set.toFinset_Iio, Nat.card_Iio]
    intro a ha b hb hab
    exact Set.inj_on_of_surj_on_of_ncard_le (fun k _ => value k) hmaps
      (fun v hv => by obtain ⟨k, hk, rfl⟩ := hsurj hv; exact ⟨k, hk, rfl⟩) hcard ha hb hab (Set.finite_Iio range)
  · intro hvalue
    refine ⟨?_, ?_, total / range, Nat.div_pos hle hrange, ?_⟩
    · intro ds hds
      rw [hsample ds hds]
      induction ds with
      | nil => rfl
      | cons d ds ih =>
        have hd : d ∈ draws := hds d List.mem_cons_self
        rw [List.findSome?_cons, ← ih fun d' h => hds d' (List.mem_cons_of_mem d h)]
        by_cases hlt : number d < multipleBelow total range
        · rw [(hone d hd _).mpr ⟨hlt, rfl⟩, drawBelow_of_lt hlt]
          rfl
        · have hnone : sample [d] = none := by
            rw [Option.eq_none_iff_forall_ne_some]
            intro v hv
            exact hlt ((hone d hd v).mp hv).1
          rw [hnone, drawBelow_of_le (Nat.le_of_not_lt hlt)]
    · intro d hd v hv
      obtain ⟨-, rfl⟩ := (hone d hd v).mp hv
      exact hvalue.mapsTo (Nat.mod_lt _ hrange)
    · intro v hv
      obtain ⟨k, hk, rfl⟩ := hvalue.surjOn hv
      rw [← ncard_draws hnumber hk]
      congr 1
      ext d
      refine and_congr_right fun hd => ?_
      rw [hone d hd]
      refine and_congr_right fun _ => ?_
      exact hvalue.injOn.eq_iff (Nat.mod_lt _ hrange) hk

end Modulus

end Base
