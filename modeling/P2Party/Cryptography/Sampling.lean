import P2Party.Base.Double
import P2Party.Base.Rejection
import P2Party.Base.Shuffle
import P2Party.Messages.Split
import Mathlib

/-!
# Sampling and shuffling

Where a message lies in its chunks, how far a decoy pretends to reach and the order in which chunks
are sent are drawn (`cryptography/utils.ts`). Numbers are drawn as bytes or as 32-bit words, again
and again until one is below the largest multiple of the range; orders are drawn by exchanges.

- `randomNumberInRange_unbiased_iff`: no value is favoured as long as the range is not so wide that
  the sample is no number any more;
- `randomNumberInRange_iff_accepted`: the numbers a split is given are those that can be drawn;
- `uniformInt_unbiased`: no value is favoured;
- `fisherYatesShuffle_eq`, `ncard_fisherYatesShuffle`: a shuffle makes the choices it draws, and no
  order is favoured;
- `sampling_is_unbiased`: all together.
-/

namespace P2Party

open Base Base.Double

namespace Sampling

/-- `Number.isSafeInteger`. -/
def IsSafeInteger (z : ℤ) : Prop := |z| ≤ MAX_SAFE_INTEGER

/-! ## Numbers -/

/-- The bytes that the digits of a range need (utils.ts:24). -/
def bytesNeeded (range : ℕ) : ℕ := ceilDiv (Nat.toDigits 2 range).length 8

/-- The number that bytes spell (utils.ts:34-37). -/
def drawnValue (randomBytes : Bytes) : ℕ := randomBytes.foldl (fun value byte => (value <<< 8) + byte.toNat) 0

/-- `randomNumberInRange` (utils.ts:5-46), with what the buffer is filled with, time after time. It
is `none` when the last has been drawn again. -/
def randomNumberInRange (min max : ℤ) (draws : List Bytes) : Except JsError (Option ℤ) :=
  if min = max then .ok (some min)
  else if max < min then .error (.rangeError "randomNumberInRange: max must be >= min")
  else
    let range := (max - min).toNat
    let maxRange := 1 <<< (bytesNeeded range * 8)
    let limit := maxRange / range * range
    .ok <| (drawBelow drawnValue limit draws).map fun (value, _) =>
      number (min + number ((value % range : ℕ) : ℤ))

/-- `uniformInt` (utils.ts:96-106), with the words that are drawn; it leaves those it does not use. -/
def uniformInt (min max : ℤ) (draws : List UInt32) : Option (ℤ × List UInt32) :=
  if ¬max > min then some (min, draws)
  else
    let range := number (max - min)
    let maxU32 : ℕ := 0x100000000
    let limit := number (⌊nearest ((maxU32 : ℚ) / range)⌋ * range)
    (drawBelow UInt32.toNat limit.toNat draws).map fun (x, draws) => (number (min + (x : ℤ) % range), draws)

/-! ## Orders -/

variable {α : Type}

/-- The rounds of a shuffle from a place down to the second. -/
def shuffleRounds : ℕ → Array α → List UInt32 → Option (Array α × List UInt32)
  | 0, a, draws => some (a, draws)
  | i + 1, a, draws => do
    let (j, draws) ← uniformInt 0 (i + 2) draws
    shuffleRounds i (a.swapIfInBounds (i + 1) j.toNat) draws

/-- `fisherYatesShuffle` (utils.ts:108-115). -/
def fisherYatesShuffle (arr : Array α) (draws : List UInt32) : Option (Array α × List UInt32) :=
  shuffleRounds (arr.size - 1) arr draws

/-- `indexesRandomized` (handleSendMessage.ts:158-159): the order in which chunks are sent. -/
def indexesRandomized (chunksLen : ℕ) (draws : List UInt32) : Option (Array ℕ × List UInt32) :=
  fisherYatesShuffle (Array.range chunksLen) draws

/-! ## No value is favoured -/

/-- What the buffer may be filled with. -/
def bufferDraws (min max : ℤ) : Set Bytes := {bytes | bytes.length = bytesNeeded (max - min).toNat}

theorem drawnValue_eq (bytes : Bytes) : drawnValue bytes = beNat bytes := by
  have hstep : (fun (value : ℕ) (byte : UInt8) => (value <<< 8) + byte.toNat) =
      fun value byte => value * 256 + byte.toNat := by
    funext value byte
    rw [Nat.shiftLeft_eq]
  rw [drawnValue, beNat, hstep]

/-- The bytes are enough for every number of the range. -/
theorem le_maxRange (range : ℕ) : range ≤ 256 ^ bytesNeeded range := by
  have hdigits : range < 2 ^ (Nat.toDigits 2 range).length :=
    (Nat.length_toDigits_le_iff one_lt_two Nat.length_toDigits_pos).mp (Nat.le_refl _)
  have hbits : (Nat.toDigits 2 range).length ≤ 8 * bytesNeeded range := by
    rw [bytesNeeded, ceilDiv]
    omega
  calc range ≤ 2 ^ (Nat.toDigits 2 range).length := hdigits.le
    _ ≤ 2 ^ (8 * bytesNeeded range) := Nat.pow_le_pow_right two_pos hbits
    _ = 256 ^ bytesNeeded range := by rw [Nat.pow_mul]

/-- Buffers and numbers below `maxRange` are the same. -/
theorem bijOn_drawnValue (min max : ℤ) :
    Set.BijOn drawnValue (bufferDraws min max) (Set.Iio (256 ^ bytesNeeded (max - min).toNat)) := by
  refine ⟨?_, ?_, ?_⟩
  · intro bytes hbytes
    have hlt := beNat_lt bytes
    rw [show bytes.length = _ from hbytes, ← drawnValue_eq] at hlt
    exact hlt
  · intro bytes hbytes bytes' hbytes' heq
    rw [drawnValue_eq, drawnValue_eq] at heq
    rw [← beBytes_beNat bytes, ← beBytes_beNat bytes', heq, show bytes.length = _ from hbytes,
      show bytes'.length = _ from hbytes']
  · intro x hx
    refine ⟨beBytes (bytesNeeded (max - min).toNat) x, length_beBytes _ _, ?_⟩
    rw [drawnValue_eq, beNat_beBytes hx]

section Range

variable {min max : ℤ}

theorem ncard_Ico (min max : ℤ) : (Set.Ico min max).ncard = (max - min).toNat := by
  rw [Set.ncard_eq_toFinset_card', Set.toFinset_Ico, Int.card_Ico]

/-- A remainder stands for the value that many places on. -/
theorem bijOn_add (h : min < max) :
    Set.BijOn (fun k : ℕ => min + (k : ℤ)) (Set.Iio (max - min).toNat) (Set.Ico min max) := by
  refine ⟨?_, ?_, ?_⟩
  · intro k hk
    rw [Set.mem_Iio] at hk
    constructor <;> dsimp only <;> omega
  · intro k _ k' _ heq
    dsimp only at heq
    omega
  · intro v hv
    obtain ⟨hlow, hhigh⟩ := hv
    refine ⟨(v - min).toNat, ?_, ?_⟩
    · rw [Set.mem_Iio]
      omega
    · dsimp only
      omega

/-- A range that is not too wide loses nothing when its samples become numbers. -/
theorem number_sample (hmin : IsSafeInteger min) (hmax : IsSafeInteger max)
    (hwidth : max - min ≤ 2 ^ 53 + 1) {k : ℕ} (hk : k < (max - min).toNat) :
    number (min + number k) = min + k := by
  rw [IsSafeInteger, MAX_SAFE_INTEGER, abs_le] at hmin hmax
  have hk' : number (k : ℤ) = k := number_of_le (by rw [abs_of_nonneg (Int.natCast_nonneg k)]; omega)
  rw [hk', number_of_le]
  rw [abs_le]
  constructor <;> omega

theorem randomNumberInRange_eq (h : min < max) (draws : List Bytes) :
    randomNumberInRange min max draws =
      .ok ((drawBelow drawnValue (multipleBelow (256 ^ bytesNeeded (max - min).toNat) (max - min).toNat)
        draws).map fun p => number (min + number ((p.1 % (max - min).toNat : ℕ) : ℤ))) := by
  have hshift : 1 <<< (bytesNeeded (max - min).toNat * 8) = 256 ^ bytesNeeded (max - min).toNat := by
    rw [Nat.one_shiftLeft, Nat.mul_comm, Nat.pow_mul]
  rw [randomNumberInRange, if_neg h.ne, if_neg h.not_gt]
  simp only [hshift]
  rfl

/-- **No value of a range is favoured, as long as the range has at most `2 ^ 53 + 1` values**; in a
wider one the last remainders are no numbers, and rounding makes them the samples of others. -/
theorem randomNumberInRange_unbiased_iff (hmin : IsSafeInteger min) (hmax : IsSafeInteger max)
    (h : min < max) :
    ∃ sample, (∀ draws, randomNumberInRange min max draws = .ok (sample draws)) ∧
      (Unbiased (bufferDraws min max) sample (Set.Ico min max) ↔ max - min ≤ 2 ^ 53 + 1) := by
  have hrange : 0 < (max - min).toNat := by omega
  refine ⟨_, randomNumberInRange_eq h, ?_⟩
  rw [unbiased_iff (fun k : ℕ => number (min + number k)) (bijOn_drawnValue min max) hrange
    (le_maxRange _) (ncard_Ico min max) fun ds _ => rfl]
  constructor
  · intro hbij
    by_contra hwide
    -- `2 ^ 53` and the remainder behind it are one number
    have hsame : number ((2 ^ 53 + 1 : ℕ) : ℤ) = number ((2 ^ 53 : ℕ) : ℤ) := by
      have hlast : number ((2 ^ 53 : ℕ) : ℤ) = 2 ^ 53 := number_of_le (by norm_num)
      rw [hlast]
      exact_mod_cast number_succ_max
    have heq : (2 ^ 53 + 1 : ℕ) = 2 ^ 53 := by
      refine hbij.injOn ?_ ?_ ?_
      · rw [Set.mem_Iio]
        omega
      · rw [Set.mem_Iio]
        omega
      · rw [hsame]
    omega
  · intro hwidth
    refine (Set.BijOn.congr (bijOn_add h) fun k hk => ?_)
    exact (number_sample hmin hmax hwidth hk).symm

/-- `uniformInt` in whole numbers, for ranges of at most `2 ^ 32` values. -/
theorem uniformInt_eq (hmin : IsSafeInteger min) (hmax : IsSafeInteger max) (h : min < max)
    (hwidth : max - min ≤ 2 ^ 32) (draws : List UInt32) :
    uniformInt min max draws =
      (drawBelow UInt32.toNat (multipleBelow (2 ^ 32) (max - min).toNat) draws).map fun p =>
        (min + ((p.1 % (max - min).toNat : ℕ) : ℤ), p.2) := by
  obtain ⟨range, hrange⟩ : ∃ range : ℕ, max - min = range := ⟨(max - min).toNat, by omega⟩
  have hpos : 0 < range := by omega
  have hnumber : number (max - min) = range := by
    rw [hrange, number_of_le]
    rw [abs_of_nonneg (Int.natCast_nonneg range)]
    omega
  have hquotient : ⌊nearest (((0x100000000 : ℕ) : ℚ) / ((range : ℤ) : ℚ))⌋ = ((2 ^ 32 / range : ℕ) : ℤ) := by
    exact floor_nearest_div (by norm_num) hpos
  have hlimit : number (((2 ^ 32 / range : ℕ) : ℤ) * (range : ℤ)) = (multipleBelow (2 ^ 32) range : ℕ) := by
    have hle := Nat.div_mul_le_self (2 ^ 32) range
    rw [multipleBelow, ← Nat.cast_mul, number_of_le]
    rw [abs_of_nonneg (Int.natCast_nonneg _)]
    omega
  rw [uniformInt, if_neg (not_not.mpr h)]
  have htoNat : (max - min).toNat = range := by rw [hrange, Int.toNat_natCast]
  simp only [hnumber, hquotient, hlimit, htoNat, Int.toNat_natCast]
  congr 1
  funext p
  have hmod : p.1 % range < (max - min).toNat := by
    rw [htoNat]
    exact Nat.mod_lt _ hpos
  have hvalue := number_sample hmin hmax (by omega) hmod
  have hsample : number ((p.1 % range : ℕ) : ℤ) = (p.1 % range : ℕ) := by
    rw [number_of_le]
    rw [abs_of_nonneg (Int.natCast_nonneg _)]
    omega
  rw [hsample] at hvalue
  rw [← Int.natCast_mod, hvalue]

/-- **No value is favoured by `uniformInt`.** -/
theorem uniformInt_unbiased (hmin : IsSafeInteger min) (hmax : IsSafeInteger max) (h : min < max)
    (hwidth : max - min ≤ 2 ^ 32) :
    Unbiased Set.univ (fun draws => (uniformInt min max draws).map Prod.fst) (Set.Ico min max) := by
  have hnumber : Set.BijOn UInt32.toNat Set.univ (Set.Iio (2 ^ 32)) := by
    refine ⟨fun x _ => x.toNat_lt, fun x _ y _ heq => UInt32.toNat_inj.mp heq, fun k hk => ?_⟩
    exact ⟨UInt32.ofNat k, trivial, UInt32.toNat_ofNat_of_lt' hk⟩
  refine (unbiased_iff (fun k : ℕ => min + (k : ℤ)) hnumber (by omega) (by omega) (ncard_Ico min max)
    fun ds _ => ?_).mpr (bijOn_add h)
  rw [uniformInt_eq hmin hmax h hwidth, Option.map_map]
  rfl

/-- The whole of the safe integers is too wide. -/
theorem wide_range_is_biased :
    IsSafeInteger (-9007199254740991) ∧ IsSafeInteger 9007199254740991 ∧
      ¬ ∃ sample, (∀ draws, randomNumberInRange (-9007199254740991) 9007199254740991 draws = .ok (sample draws)) ∧
        Unbiased (bufferDraws (-9007199254740991) 9007199254740991) sample
          (Set.Ico (-9007199254740991) 9007199254740991) := by
  have hmin : IsSafeInteger (-9007199254740991) := by norm_num [IsSafeInteger]
  have hmax : IsSafeInteger 9007199254740991 := by norm_num [IsSafeInteger]
  refine ⟨hmin, hmax, ?_⟩
  rintro ⟨sample, hsample, hunbiased⟩
  obtain ⟨sample', hsample', hiff⟩ := randomNumberInRange_unbiased_iff hmin hmax (by norm_num)
  have hsame : sample = sample' := by
    funext draws
    exact Except.ok.inj ((hsample draws).symm.trans (hsample' draws))
  rw [hsame] at hunbiased
  exact absurd (hiff.mp hunbiased) (by norm_num)

/-- **A split is given exactly the numbers that can be drawn**: those that some draws lead to are
those made of some value. -/
theorem randomNumberInRange_iff_accepted {min max : ℕ} (hmax : max ≤ MAX_SAFE_INTEGER) (v : ℕ) :
    (∃ draws, randomNumberInRange min max draws = .ok (some (v : ℤ))) ↔
      ∃ value, numberOfAccepted min max value = .ok v := by
  rcases Nat.lt_trichotomy min max with h | h | h
  · have hlt : (min : ℤ) < max := by omega
    have htoNat : ((max : ℤ) - min).toNat = max - min := by omega
    have hsafe : ∀ n : ℕ, n ≤ max → IsSafeInteger n := by
      intro n hn
      rw [IsSafeInteger, abs_of_nonneg (Int.natCast_nonneg n)]
      omega
    have hsample : ∀ value : ℕ, number ((min : ℤ) + number ((value % (max - min) : ℕ) : ℤ)) =
        ((min + value % (max - min) : ℕ) : ℤ) := by
      intro value
      have hmod : value % (max - min) < ((max : ℤ) - min).toNat := by
        rw [htoNat]
        exact Nat.mod_lt _ (by omega)
      rw [number_sample (hsafe min h.le) (hsafe max le_rfl) (by rw [MAX_SAFE_INTEGER] at hmax; omega)
        hmod]
      exact (Nat.cast_add _ _).symm
    simp only [randomNumberInRange_eq hlt, numberOfAccepted, if_neg h.ne, if_neg h.not_gt, htoNat,
      hsample]
    constructor
    · rintro ⟨draws, hdraws⟩
      obtain ⟨⟨value, rest⟩, -, hvalue⟩ := Option.map_eq_some_iff.mp (Except.ok.inj hdraws)
      exact ⟨value, congrArg Except.ok (Int.ofNat.inj hvalue)⟩
    · rintro ⟨value, hvalue⟩
      -- the remainder itself is accepted, in a buffer that holds it
      have hfits := le_maxRange (max - min)
      have hmod := Nat.mod_lt value (show 0 < max - min by omega)
      have hnumber : drawnValue (beBytes (bytesNeeded (max - min)) (value % (max - min))) =
          value % (max - min) := by
        rw [drawnValue_eq, beNat_beBytes (by omega)]
      have hbelow : value % (max - min) < multipleBelow (256 ^ bytesNeeded (max - min)) (max - min) :=
        Nat.lt_of_lt_of_le hmod (Nat.le_mul_of_pos_left _ (Nat.div_pos hfits (by omega)))
      refine ⟨[beBytes (bytesNeeded (max - min)) (value % (max - min))], ?_⟩
      rw [drawBelow_of_lt (by rw [hnumber]; exact hbelow), hnumber, Option.map_some, Nat.mod_mod,
        Except.ok.inj hvalue]
  · subst h
    simp [randomNumberInRange, numberOfAccepted]
  · have hlt : (max : ℤ) < min := by omega
    simp [randomNumberInRange, numberOfAccepted, h.ne', hlt.ne', h, hlt]

end Range

/-! ## No order is favoured -/

/-- The choices that a shuffle draws. -/
def drawChoices : ℕ → List UInt32 → Option (List ℕ × List UInt32)
  | 0, draws => some ([], draws)
  | i + 1, draws => do
    let (j, draws) ← uniformInt 0 (i + 2) draws
    let (js, draws) ← drawChoices i draws
    some (j.toNat :: js, draws)

/-- One round draws a place at or before that whose turn it is. -/
theorem uniformInt_place {i : ℕ} (hi : i + 2 ≤ 2 ^ 32) (draws : List UInt32) :
    uniformInt 0 (i + 2) draws =
      (drawBelow UInt32.toNat (multipleBelow (2 ^ 32) (i + 2)) draws).map fun p =>
        (((p.1 % (i + 2) : ℕ) : ℤ), p.2) := by
  have hsafe : IsSafeInteger ((i : ℤ) + 2) := by
    rw [IsSafeInteger, MAX_SAFE_INTEGER, abs_le]
    constructor <;> omega
  have htoNat : ((i : ℤ) + 2 - 0).toNat = i + 2 := by omega
  rw [uniformInt_eq (by norm_num [IsSafeInteger]) hsafe (by omega) (by omega), htoNat]
  simp only [zero_add]

theorem drawChoices_spec {i : ℕ} (hi : i < 2 ^ 32) {draws rest : List UInt32} {js : List ℕ}
    (h : drawChoices i draws = some (js, rest)) :
    Choices js ∧ js.length = i ∧ i + rest.length ≤ draws.length := by
  induction i generalizing draws rest js with
  | zero =>
    cases h
    exact ⟨trivial, rfl, by omega⟩
  | succ i ih =>
    rw [drawChoices, uniformInt_place (by omega)] at h
    obtain ⟨⟨j, left⟩, hj, h⟩ := Option.bind_eq_some_iff.mp h
    obtain ⟨⟨js', rest'⟩, hjs, h⟩ := Option.bind_eq_some_iff.mp h
    cases h
    obtain ⟨⟨x, left'⟩, hx, heq⟩ := Option.map_eq_some_iff.mp hj
    cases heq
    obtain ⟨hchoices, hlength, hrest⟩ := ih (by omega) hjs
    have hless : left'.length < draws.length := (length_of_drawBelow hx).2
    dsimp only at hrest
    refine ⟨⟨?_, hchoices⟩, congrArg (· + 1) hlength, by omega⟩
    rw [Int.toNat_natCast, hlength]
    exact Nat.le_of_lt_succ (Nat.mod_lt _ (Nat.succ_pos _))

/-- A shuffle makes the choices it draws. -/
theorem shuffleRounds_eq {i : ℕ} (hi : i < 2 ^ 32) (a : Array α) (draws : List UInt32) :
    shuffleRounds i a draws = (drawChoices i draws).map fun p => (shuffleBy p.1 a, p.2) := by
  induction i generalizing a draws with
  | zero => rfl
  | succ i ih =>
    rw [shuffleRounds, drawChoices]
    cases hj : uniformInt 0 ((i : ℤ) + 2) draws with
    | none => rfl
    | some drawn =>
      obtain ⟨j, left⟩ := drawn
      have hround := ih (by omega) (a.swapIfInBounds (i + 1) j.toNat) left
      cases hjs : drawChoices i left with
      | none =>
        rw [hjs] at hround
        simp only [Option.bind_eq_bind, Option.bind_some, hround, hjs]
        rfl
      | some p =>
        obtain ⟨js, rest⟩ := p
        rw [hjs] at hround
        simp only [Option.bind_eq_bind, Option.bind_some, hround, hjs, Option.map_some, shuffleBy,
          (drawChoices_spec (by omega) hjs).2.1]

theorem fisherYatesShuffle_eq {a : Array α} (ha : a.size ≤ 2 ^ 32) (draws : List UInt32) :
    fisherYatesShuffle a draws = (drawChoices (a.size - 1) draws).map fun p => (shuffleBy p.1 a, p.2) :=
  shuffleRounds_eq (by omega) a draws

/-- The words of a round that make a choice. -/
theorem ncard_place {i j : ℕ} (hj : j < i + 2) :
    {x : UInt32 | x.toNat < multipleBelow (2 ^ 32) (i + 2) ∧ x.toNat % (i + 2) = j}.ncard =
      2 ^ 32 / (i + 2) := by
  have hnumber : Set.BijOn UInt32.toNat Set.univ (Set.Iio (2 ^ 32)) :=
    ⟨fun x _ => x.toNat_lt, fun x _ y _ heq => UInt32.toNat_inj.mp heq, fun k hk =>
      ⟨UInt32.ofNat k, trivial, UInt32.toNat_ofNat_of_lt' hk⟩⟩
  rw [← ncard_draws hnumber hj]
  congr 1
  ext x
  exact (and_iff_right (Set.mem_univ x)).symm

/-- How many sequences of words make a sequence of choices, when none is drawn again. -/
def timesChosen : ℕ → ℕ
  | 0 => 1
  | i + 1 => 2 ^ 32 / (i + 2) * timesChosen i

theorem timesChosen_pos {i : ℕ} (hi : i < 2 ^ 32) : 0 < timesChosen i := by
  induction i with
  | zero => exact Nat.one_pos
  | succ i ih => exact Nat.mul_pos (Nat.div_pos (by omega) (Nat.succ_pos _)) (ih (by omega))

/-- A first word that is not drawn again makes the first choice, the others the rest. -/
theorem drawChoices_cons_iff {i j : ℕ} (hi : i + 1 < 2 ^ 32) {x : UInt32} {draws : List UInt32}
    {js : List ℕ} (hlength : draws.length = i) :
    drawChoices (i + 1) (x :: draws) = some (j :: js, []) ↔
      (x.toNat < multipleBelow (2 ^ 32) (i + 2) ∧ x.toNat % (i + 2) = j) ∧
        drawChoices i draws = some (js, []) := by
  rw [drawChoices, uniformInt_place (by omega)]
  by_cases hlt : x.toNat < multipleBelow (2 ^ 32) (i + 2)
  · rw [drawBelow_of_lt hlt]
    constructor
    · intro h
      obtain ⟨⟨k, left⟩, hk, h⟩ := Option.bind_eq_some_iff.mp h
      cases hk
      obtain ⟨⟨js', rest⟩, hjs, h⟩ := Option.bind_eq_some_iff.mp h
      cases h
      exact ⟨⟨hlt, (Int.toNat_natCast _).symm⟩, hjs⟩
    · rintro ⟨⟨-, rfl⟩, hjs⟩
      simp only [Option.map_some, Option.bind_eq_bind, Option.bind_some, hjs, Int.toNat_natCast]
  · -- a word that is drawn again leaves too few
    rw [drawBelow_of_le (Nat.le_of_not_lt hlt)]
    refine iff_of_false ?_ fun h => hlt h.1.1
    intro h
    obtain ⟨⟨k, left⟩, hk, h⟩ := Option.bind_eq_some_iff.mp h
    obtain ⟨⟨js', rest'⟩, hjs, h⟩ := Option.bind_eq_some_iff.mp h
    obtain ⟨⟨y, left'⟩, hy, heq⟩ := Option.map_eq_some_iff.mp hk
    cases heq
    have hless : left'.length < draws.length := (length_of_drawBelow hy).2
    have henough : i + rest'.length ≤ left'.length := (drawChoices_spec (by omega) hjs).2.2
    omega

/-- Every sequence of choices is made by as many sequences of words. -/
theorem ncard_drawChoices {js : List ℕ} (h : Choices js) (hsize : js.length < 2 ^ 32) :
    {draws : List UInt32 | draws.length = js.length ∧
      drawChoices js.length draws = some (js, [])}.ncard = timesChosen js.length := by
  induction js with
  | nil =>
    have hset : {draws : List UInt32 | draws.length = 0 ∧ drawChoices 0 draws = some ([], [])} = {[]} := by
      ext draws
      simp [drawChoices]
    rw [List.length_nil, hset, Set.ncard_singleton]
    rfl
  | cons j js ih =>
    obtain ⟨hj, hrest⟩ := h
    rw [List.length_cons] at hsize
    rw [List.length_cons, timesChosen, ← ih hrest (by omega), ← ncard_place (Nat.lt_succ_of_le hj),
      ← Set.ncard_prod]
    refine (Set.ncard_congr (fun p _ => p.1 :: p.2) ?_ ?_ ?_).symm
    · rintro ⟨x, draws⟩ ⟨hx, hlength, hdraws⟩
      exact ⟨congrArg (· + 1) hlength, (drawChoices_cons_iff hsize hlength).mpr ⟨hx, hdraws⟩⟩
    · rintro ⟨x, draws⟩ ⟨y, draws'⟩ - - heq
      obtain ⟨rfl, rfl⟩ := List.cons.inj heq
      rfl
    · rintro draws ⟨hlength, hdraws⟩
      cases draws with
      | nil => cases hlength
      | cons x draws =>
        have hlength : draws.length = js.length := Nat.succ.inj hlength
        obtain ⟨hx, hdraws⟩ := (drawChoices_cons_iff hsize hlength).mp hdraws
        exact ⟨(x, draws), ⟨hx, hlength, hdraws⟩, rfl⟩

/-- **No order is favoured**: every order of different elements comes from as many sequences of
words. -/
theorem ncard_fisherYatesShuffle {a b : Array α} (hnodup : a.toList.Nodup) (ha : a.size ≤ 2 ^ 32)
    (hperm : b.Perm a) :
    {draws : List UInt32 | draws.length = a.size - 1 ∧ fisherYatesShuffle a draws = some (b, [])}.ncard =
      timesChosen (a.size - 1) := by
  obtain ⟨js, ⟨hjs, hlength, hshuffle⟩, honly⟩ := existsUnique_shuffleBy hnodup hperm
  have hsize : a.size - 1 < 2 ^ 32 := by omega
  rw [← hlength, ← ncard_drawChoices hjs (hlength ▸ hsize)]
  congr 1
  ext draws
  refine and_congr_right fun _ => ?_
  rw [fisherYatesShuffle_eq ha, ← hlength]
  constructor
  · intro h
    obtain ⟨⟨js', rest⟩, hdrawn, heq⟩ := Option.map_eq_some_iff.mp h
    cases heq
    obtain ⟨hjs', hlength', -⟩ := drawChoices_spec (hlength ▸ hsize) hdrawn
    rw [honly js' ⟨hjs', hlength'.trans hlength, rfl⟩] at hdrawn
    exact hdrawn
  · intro h
    rw [h, Option.map_some, hshuffle]

theorem nodup_indexes (n : ℕ) : (Array.range n).toList.Nodup := by
  rw [Array.toList_range]
  exact List.nodup_range

/-- **Sampling and shuffling favour nothing.** -/
theorem sampling_is_unbiased (α : Type) :
    (∀ min max : ℤ, IsSafeInteger min → IsSafeInteger max → min < max →
      ∃ sample, (∀ draws, randomNumberInRange min max draws = .ok (sample draws)) ∧
        (Unbiased (bufferDraws min max) sample (Set.Ico min max) ↔ max - min ≤ 2 ^ 53 + 1)) ∧
    (∀ min max : ℤ, IsSafeInteger min → IsSafeInteger max → min < max → max - min ≤ 2 ^ 32 →
      Unbiased Set.univ (fun draws => (uniformInt min max draws).map Prod.fst) (Set.Ico min max)) ∧
    (∀ a b : Array α, a.toList.Nodup → b.Perm a →
      ∃! js, Choices js ∧ js.length = a.size - 1 ∧ shuffleBy js a = b) ∧
    (∀ (a : Array α) (js : List ℕ), (shuffleBy js a).Perm a ∧
      (shuffleBy js a).map some = (shuffleBy js (Array.range a.size)).map fun k => a[k]?) ∧
    (∀ a : Array α, a.size ≤ 2 ^ 32 → ∀ draws, fisherYatesShuffle a draws =
      (drawChoices (a.size - 1) draws).map fun p => (shuffleBy p.1 a, p.2)) ∧
    (∀ chunksLen ≤ 2 ^ 32, ∃ times, 0 < times ∧ ∀ order : Array ℕ, order.Perm (Array.range chunksLen) →
      {draws : List UInt32 | draws.length = chunksLen - 1 ∧
        indexesRandomized chunksLen draws = some (order, [])}.ncard = times) := by
  refine ⟨?_, ?_, ?_, ?_, ?_, ?_⟩
  · intro min max hmin hmax h
    exact randomNumberInRange_unbiased_iff hmin hmax h
  · intro min max hmin hmax h hwidth
    exact uniformInt_unbiased hmin hmax h hwidth
  · intro a b hnodup hperm
    exact existsUnique_shuffleBy hnodup hperm
  · intro a js
    exact ⟨shuffleBy_perm js a, shuffleBy_range js a⟩
  · intro a ha draws
    exact fisherYatesShuffle_eq ha draws
  · intro chunksLen hlen
    refine ⟨timesChosen (chunksLen - 1), timesChosen_pos (by omega), ?_⟩
    intro order horder
    have hcount := ncard_fisherYatesShuffle (nodup_indexes chunksLen) (by rwa [Array.size_range]) horder
    rw [Array.size_range] at hcount
    exact hcount

end Sampling

end P2Party
