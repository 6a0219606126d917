import Mathlib.Algebra.Order.Field.Rat
import Mathlib.Data.Set.Function
import Mathlib.Tactic.Linarith
import Mathlib.Tactic.Ring
import P2Party.Cover.Scheduler

/-!
# The grid of slots

The slots of a cycle go round the lanes: the slot with ordinal `o` is on lane `o % L`
and is slot `o / L` of it, and its deadline is the middle of the `o`-th of equal parts of
the cycle, rounded down.

- `Valid`: what `validateCoverSchedule` checks;
- `slotAt_lane`, `slotAt_deadline`: the lane and the deadline of a slot in closed form;
- `slot_grid`: the grid of a cycle, and the products that are safe integers.
-/

namespace P2Party

open Base

namespace Cover

/-! ## Accepted schedules -/

/-- What an accepted schedule satisfies. -/
structure Valid (schedule : CoverSchedule) : Prop where
  phase : SafeInteger schedule.phaseOffsetMs
  cadence : 0 < schedule.coverCadenceMs
  lanes : 0 < schedule.coverLanes
  frames : 0 < schedule.coverFramesPerCell
  epochs : 0 < schedule.coverDurationEpochs
  slotsPerEpoch : SafeInteger schedule.slotsPerEpoch
  slotsPerLane : SafeInteger schedule.slotsPerLane
  cycleDuration : SafeInteger schedule.cycleDurationMs
  spacing : MIN_COVER_SLOT_MS * schedule.slotsPerEpoch ≤ schedule.coverCadenceMs

theorem validateCoverSchedule_ok {schedule : CoverSchedule}
    (h : validateCoverSchedule schedule = .ok ()) : Valid schedule := by
  unfold validateCoverSchedule at h
  simp only [assertSafeInteger, except_bind_eq_ok, demand_eq_ok, exists_const] at h
  obtain ⟨hphase, -, -, -, -, hcadence, hlanes, hframes, hepochs, hgeometry, hspacing⟩ := h
  have hslots : 0 < schedule.slotsPerEpoch := Nat.mul_pos (by omega) (by omega)
  refine ⟨hphase, by omega, by omega, by omega, by omega, hgeometry.1, hgeometry.2.1, hgeometry.2.2, ?_⟩
  unfold CoverSchedule.coverSlotSpacingMs at hspacing
  rw [not_lt, le_div_iff₀ (by exact_mod_cast hslots)] at hspacing
  exact_mod_cast hspacing

variable {schedule : CoverSchedule}

theorem Valid.slots (h : Valid schedule) : 0 < schedule.slotsPerEpoch := Nat.mul_pos h.lanes h.frames

/-! ## Lanes and deadlines in closed form -/

/-- The slots of a lane come one round of the lanes apart. -/
theorem slotAt_lane (cycle : CycleSpan) (ordinal : Nat) :
    (slotAt schedule cycle ordinal).laneIndex = ordinal % schedule.coverLanes ∧
      (slotAt schedule cycle ordinal).laneSlotIndex = ordinal / schedule.coverLanes := by
  unfold slotAt
  dsimp only
  unfold CoverSchedule.slotsPerEpoch
  refine ⟨Nat.mod_mul_right_mod _ _ _, ?_⟩
  rw [Nat.mod_mul_right_div_self, ← Nat.div_div_eq_div_mul]
  exact Nat.div_add_mod' _ _

/-- The deadline of a slot, from the start of its cycle. -/
def deadlineOffset (schedule : CoverSchedule) (ordinal : Nat) : Nat :=
  (2 * ordinal + 1) * schedule.coverCadenceMs / (2 * schedule.slotsPerEpoch)

theorem slotAt_deadline (h : Valid schedule) (cycle : CycleSpan) (ordinal : Nat) :
    (slotAt schedule cycle ordinal).deadlineMs = cycle.startMs + deadlineOffset schedule ordinal := by
  have hslots := h.slots
  -- the whole epochs of the ordinal come out of the quotient
  have hsplit : (2 * ordinal + 1) * schedule.coverCadenceMs =
      (2 * (ordinal % schedule.slotsPerEpoch) + 1) * schedule.coverCadenceMs +
        2 * schedule.slotsPerEpoch * (ordinal / schedule.slotsPerEpoch * schedule.coverCadenceMs) := by
    have hdiv := Nat.mod_add_div ordinal schedule.slotsPerEpoch
    calc (2 * ordinal + 1) * schedule.coverCadenceMs
        = (2 * (ordinal % schedule.slotsPerEpoch +
            schedule.slotsPerEpoch * (ordinal / schedule.slotsPerEpoch)) + 1) *
            schedule.coverCadenceMs := by rw [hdiv]
      _ = _ := by ring
  have hoffset : deadlineOffset schedule ordinal =
      ordinal / schedule.slotsPerEpoch * schedule.coverCadenceMs +
        (2 * (ordinal % schedule.slotsPerEpoch) + 1) * schedule.coverCadenceMs /
          (2 * schedule.slotsPerEpoch) := by
    unfold deadlineOffset
    rw [hsplit, Nat.add_mul_div_left _ _ (by omega), Nat.add_comm]
  unfold slotAt
  dsimp only
  rw [hoffset]
  push_cast
  ring

/-- Successive slots are at least one smallest spacing apart. -/
theorem deadlineOffset_succ (h : Valid schedule) (ordinal : Nat) :
    deadlineOffset schedule ordinal + MIN_COVER_SLOT_MS ≤ deadlineOffset schedule (ordinal + 1) := by
  have hslots := h.slots
  have hspacing := h.spacing
  unfold deadlineOffset
  rw [← Nat.add_mul_div_left _ _ (by omega : 0 < 2 * schedule.slotsPerEpoch)]
  refine Nat.div_le_div_right ?_
  calc (2 * ordinal + 1) * schedule.coverCadenceMs + 2 * schedule.slotsPerEpoch * MIN_COVER_SLOT_MS
      = (2 * ordinal + 1) * schedule.coverCadenceMs + 2 * (MIN_COVER_SLOT_MS * schedule.slotsPerEpoch) := by
        ring
    _ ≤ (2 * ordinal + 1) * schedule.coverCadenceMs + 2 * schedule.coverCadenceMs := by omega
    _ = (2 * (ordinal + 1) + 1) * schedule.coverCadenceMs := by ring

theorem deadlineOffset_strictMono (h : Valid schedule) : StrictMono (deadlineOffset schedule) :=
  strictMono_nat_of_lt_succ fun ordinal =>
    Nat.lt_of_lt_of_le (Nat.lt_add_of_pos_right (by decide)) (deadlineOffset_succ h ordinal)

/-- The slots of an epoch are due inside it. -/
theorem deadlineOffset_epoch (h : Valid schedule) (ordinal : Nat) :
    ordinal / schedule.slotsPerEpoch * schedule.coverCadenceMs ≤ deadlineOffset schedule ordinal ∧
      deadlineOffset schedule ordinal <
        (ordinal / schedule.slotsPerEpoch + 1) * schedule.coverCadenceMs := by
  have hslots := h.slots
  have hcadence := h.cadence
  have hbelow := Nat.div_mul_le_self ordinal schedule.slotsPerEpoch
  have habove := Nat.lt_mul_div_succ ordinal hslots
  generalize ordinal / schedule.slotsPerEpoch = epoch at hbelow habove ⊢
  unfold deadlineOffset
  constructor
  · rw [Nat.le_div_iff_mul_le (by omega)]
    calc epoch * schedule.coverCadenceMs * (2 * schedule.slotsPerEpoch)
        = 2 * (epoch * schedule.slotsPerEpoch) * schedule.coverCadenceMs := by ring
      _ ≤ (2 * ordinal + 1) * schedule.coverCadenceMs :=
          Nat.mul_le_mul_right _ (by omega)
  · rw [Nat.div_lt_iff_lt_mul (by omega)]
    calc (2 * ordinal + 1) * schedule.coverCadenceMs
        < 2 * (schedule.slotsPerEpoch * (epoch + 1)) * schedule.coverCadenceMs :=
          Nat.mul_lt_mul_of_pos_right (by omega) hcadence
      _ = (epoch + 1) * schedule.coverCadenceMs * (2 * schedule.slotsPerEpoch) := by ring

/-- The slots of a cycle are due inside it. -/
theorem deadlineOffset_lt (h : Valid schedule) {ordinal : Nat}
    (hordinal : ordinal < schedule.totalCycleSlots) :
    deadlineOffset schedule ordinal < schedule.cycleDurationMs := by
  have hepoch : ordinal / schedule.slotsPerEpoch < schedule.coverDurationEpochs :=
    (Nat.div_lt_iff_lt_mul h.slots).mpr (by rw [Nat.mul_comm]; exact hordinal)
  calc deadlineOffset schedule ordinal
      < (ordinal / schedule.slotsPerEpoch + 1) * schedule.coverCadenceMs :=
        (deadlineOffset_epoch h ordinal).2
    _ ≤ schedule.coverDurationEpochs * schedule.coverCadenceMs := Nat.mul_le_mul_right _ hepoch
    _ = schedule.cycleDurationMs := Nat.mul_comm _ _

/-! ## The cycles of a schedule -/

/-- The cycle with an index. -/
def cycleAt (schedule : CoverSchedule) (index : Int) : CycleSpan where
  index
  startMs := schedule.phaseOffsetMs + index * schedule.cycleDurationMs
  endMs := schedule.phaseOffsetMs + (index + 1) * schedule.cycleDurationMs

/-! ## The grid -/

/-- The lane and the place on it of a slot. -/
def lanePlace (schedule : CoverSchedule) (cycle : CycleSpan) (ordinal : Nat) : Nat × Nat :=
  ((slotAt schedule cycle ordinal).laneIndex, (slotAt schedule cycle ordinal).laneSlotIndex)

/-- The slots of the cycle with an index: one for every place of every lane, with
deadlines in order inside the cycle and inside their epochs, before those of the next
cycle. -/
structure Grid (schedule : CoverSchedule) (index : Int) : Prop where
  places : Set.BijOn (lanePlace schedule (cycleAt schedule index))
    (Set.Iio schedule.totalCycleSlots)
    (Set.Iio schedule.coverLanes ×ˢ Set.Iio (schedule.coverFramesPerCell * schedule.coverDurationEpochs))
  lanes : ∀ o o', o < o' → o' < schedule.totalCycleSlots →
    (slotAt schedule (cycleAt schedule index) o).laneIndex =
      (slotAt schedule (cycleAt schedule index) o').laneIndex →
    (slotAt schedule (cycleAt schedule index) o).laneSlotIndex <
      (slotAt schedule (cycleAt schedule index) o').laneSlotIndex
  ordered : ∀ o o', o < o' → o' < schedule.totalCycleSlots →
    (slotAt schedule (cycleAt schedule index) o).deadlineMs <
      (slotAt schedule (cycleAt schedule index) o').deadlineMs
  within : ∀ o < schedule.totalCycleSlots,
    (cycleAt schedule index).startMs ≤ (slotAt schedule (cycleAt schedule index) o).deadlineMs ∧
      (slotAt schedule (cycleAt schedule index) o).deadlineMs < (cycleAt schedule index).endMs
  epoch : ∀ o < schedule.totalCycleSlots,
    let slot := slotAt schedule (cycleAt schedule index) o
    schedule.phaseOffsetMs + slot.epochIndex * schedule.coverCadenceMs ≤ slot.deadlineMs ∧
      slot.deadlineMs < schedule.phaseOffsetMs + (slot.epochIndex + 1) * schedule.coverCadenceMs
  next : ∀ o < schedule.totalCycleSlots, ∀ o' < schedule.totalCycleSlots,
    (slotAt schedule (cycleAt schedule index) o).deadlineMs <
      (slotAt schedule (cycleAt schedule (index + 1)) o').deadlineMs

theorem lanePlace_bijOn (h : Valid schedule) (cycle : CycleSpan) :
    Set.BijOn (lanePlace schedule cycle) (Set.Iio schedule.totalCycleSlots)
      (Set.Iio schedule.coverLanes ×ˢ
        Set.Iio (schedule.coverFramesPerCell * schedule.coverDurationEpochs)) := by
  have hlanes := h.lanes
  have htotal : schedule.totalCycleSlots =
      schedule.coverFramesPerCell * schedule.coverDurationEpochs * schedule.coverLanes := by
    unfold CoverSchedule.totalCycleSlots CoverSchedule.slotsPerEpoch
    ring
  have hplace : ∀ o, lanePlace schedule cycle o = (o % schedule.coverLanes, o / schedule.coverLanes) :=
    fun o => Prod.ext (slotAt_lane cycle o).1 (slotAt_lane cycle o).2
  rw [htotal]
  generalize schedule.coverFramesPerCell * schedule.coverDurationEpochs = places
  refine ⟨fun o ho => ?_, fun o _ o' _ hsame => ?_, ?_⟩
  · rw [hplace]
    exact ⟨Nat.mod_lt _ hlanes, (Nat.div_lt_iff_lt_mul hlanes).mpr ho⟩
  · rw [hplace, hplace] at hsame
    obtain ⟨hmod, hdiv⟩ := Prod.mk.inj hsame
    rw [← Nat.mod_add_div o schedule.coverLanes, ← Nat.mod_add_div o' schedule.coverLanes, hmod, hdiv]
  · rintro ⟨lane, place⟩ ⟨hlane, hplaces⟩
    change lane < schedule.coverLanes at hlane
    change place < places at hplaces
    refine ⟨lane + schedule.coverLanes * place, ?_, ?_⟩
    · show lane + schedule.coverLanes * place < places * schedule.coverLanes
      calc lane + schedule.coverLanes * place
          < schedule.coverLanes * (place + 1) := by rw [Nat.mul_succ]; omega
        _ ≤ schedule.coverLanes * places := Nat.mul_le_mul_left _ hplaces
        _ = places * schedule.coverLanes := Nat.mul_comm _ _
    · rw [hplace, Nat.add_mul_mod_self_left, Nat.mod_eq_of_lt hlane, Nat.add_mul_div_left _ _ hlanes,
        Nat.div_eq_of_lt hlane, Nat.zero_add]

theorem Valid.grid (h : Valid schedule) (index : Int) : Grid schedule index := by
  have hdeadline := fun i o => slotAt_deadline h (cycleAt schedule i) o
  refine ⟨lanePlace_bijOn h _, fun o o' ho ho' hlane => ?_, fun o o' ho ho' => ?_, fun o ho => ?_,
    fun o ho => ?_, fun o ho o' ho' => ?_⟩
  · rw [(slotAt_lane _ o).1, (slotAt_lane _ o').1] at hlane
    rw [(slotAt_lane _ o).2, (slotAt_lane _ o').2]
    -- equal remainders: the smaller number has the smaller quotient
    refine Nat.lt_of_le_of_ne (Nat.div_le_div_right (Nat.le_of_lt ho)) fun hsame => Nat.ne_of_lt ho ?_
    rw [← Nat.mod_add_div o schedule.coverLanes, ← Nat.mod_add_div o' schedule.coverLanes, hlane, hsame]
  · rw [hdeadline, hdeadline]
    have hlt := deadlineOffset_strictMono h ho
    omega
  · rw [hdeadline]
    have hlt := deadlineOffset_lt h ho
    have hend : (cycleAt schedule index).endMs =
        (cycleAt schedule index).startMs + schedule.cycleDurationMs := by
      unfold cycleAt
      ring
    omega
  · obtain ⟨hbelow, habove⟩ := deadlineOffset_epoch h o
    have hepoch : (slotAt schedule (cycleAt schedule index) o).epochIndex =
        index * schedule.coverDurationEpochs + (o / schedule.slotsPerEpoch : Nat) := rfl
    have hstart : (cycleAt schedule index).startMs = schedule.phaseOffsetMs +
        index * schedule.coverDurationEpochs * schedule.coverCadenceMs := by
      unfold cycleAt CoverSchedule.cycleDurationMs
      push_cast
      ring
    dsimp only
    rw [hdeadline, hepoch, hstart]
    generalize o / schedule.slotsPerEpoch = epoch at hbelow habove ⊢
    generalize deadlineOffset schedule o = offset at hbelow habove ⊢
    have hbelow : (epoch : Int) * schedule.coverCadenceMs ≤ offset := by exact_mod_cast hbelow
    have habove : (offset : Int) < (epoch + 1) * schedule.coverCadenceMs := by exact_mod_cast habove
    constructor
    · linarith
    · linarith
  · rw [hdeadline, hdeadline]
    have hlt := deadlineOffset_lt h ho
    have hnext : (cycleAt schedule (index + 1)).startMs =
        (cycleAt schedule index).startMs + schedule.cycleDurationMs := by
      unfold cycleAt
      ring
    omega

/-! ## Safe products -/

/-- The products that `slotAt` takes (coverScheduler.ts:655-680). -/
def slotProducts (schedule : CoverSchedule) (cycle : CycleSpan) (ordinal : Nat) : List Int :=
  let epochInCycle := ordinal / schedule.slotsPerEpoch
  let withinEpoch := ordinal % schedule.slotsPerEpoch
  [epochInCycle * schedule.coverCadenceMs,
    2 * withinEpoch,
    (2 * withinEpoch + 1) * schedule.coverCadenceMs,
    2 * schedule.slotsPerEpoch,
    cycle.index * schedule.coverDurationEpochs,
    epochInCycle * schedule.coverFramesPerCell]

/-- Every product of a cycle is a safe integer: those of its slots, the distance of the
cycle from the phase offset (coverScheduler.ts:424, 428) and the number of its slots
(coverScheduler.ts:820-821). -/
structure SafeProducts (schedule : CoverSchedule) (index : Int) : Prop where
  slots : ∀ o < schedule.totalCycleSlots,
    ∀ product ∈ slotProducts schedule (cycleAt schedule index) o, SafeInteger product
  boundary : SafeInteger (index * schedule.cycleDurationMs)
  total : SafeInteger schedule.totalCycleSlots

theorem safeInteger_natCast {n : Nat} : SafeInteger n ↔ n ≤ MAX_SAFE_INTEGER := by
  unfold SafeInteger
  rw [Int.natAbs_natCast]

theorem Valid.duration_le (h : Valid schedule) : schedule.cycleDurationMs ≤ MAX_SAFE_INTEGER :=
  safeInteger_natCast.mp h.cycleDuration

theorem Valid.cadence_le (h : Valid schedule) : schedule.coverCadenceMs ≤ schedule.cycleDurationMs :=
  Nat.le_mul_of_pos_right _ h.epochs

/-- The products of a slot, when the largest deadline numerator of an epoch is safe. -/
theorem slotProducts_safe (h : Valid schedule)
    (hnumerator : (2 * schedule.slotsPerEpoch - 1) * schedule.coverCadenceMs ≤ MAX_SAFE_INTEGER)
    {index : Int} (hboundary : SafeInteger (index * schedule.cycleDurationMs)) {o : Nat}
    (ho : o < schedule.totalCycleSlots) :
    ∀ product ∈ slotProducts schedule (cycleAt schedule index) o, SafeInteger product := by
  have hslots := h.slots
  have hduration := h.duration_le
  have hcadence := h.cadence_le
  have hspacing : 25 * schedule.slotsPerEpoch ≤ schedule.coverCadenceMs := h.spacing
  have hdouble : 2 * schedule.slotsPerEpoch ≤ MAX_SAFE_INTEGER := by omega
  have hwithin := Nat.mod_lt o hslots
  have hepoch : o / schedule.slotsPerEpoch < schedule.coverDurationEpochs :=
    (Nat.div_lt_iff_lt_mul hslots).mpr (by rw [Nat.mul_comm]; exact ho)
  intro product hproduct
  simp only [slotProducts, List.mem_cons, List.not_mem_nil, or_false] at hproduct
  rcases hproduct with rfl | rfl | rfl | rfl | rfl | rfl
  · refine safeInteger_natCast.mpr ?_
    calc o / schedule.slotsPerEpoch * schedule.coverCadenceMs
        ≤ schedule.coverDurationEpochs * schedule.coverCadenceMs :=
          Nat.mul_le_mul_right _ (Nat.le_of_lt hepoch)
      _ = schedule.cycleDurationMs := Nat.mul_comm _ _
      _ ≤ MAX_SAFE_INTEGER := hduration
  · have hle : 2 * (o % schedule.slotsPerEpoch) ≤ MAX_SAFE_INTEGER := by omega
    exact safeInteger_natCast.mpr hle
  · have hodd : 2 * (o % schedule.slotsPerEpoch) + 1 ≤ 2 * schedule.slotsPerEpoch - 1 := by omega
    have hle := Nat.le_trans (Nat.mul_le_mul_right schedule.coverCadenceMs hodd) hnumerator
    exact safeInteger_natCast.mpr hle
  · exact safeInteger_natCast.mpr hdouble
  · -- the cadence is a whole number of milliseconds
    refine Nat.le_trans ?_ hboundary
    show (index * schedule.coverDurationEpochs).natAbs ≤ _
    have hsplit : index * schedule.cycleDurationMs =
        index * schedule.coverDurationEpochs * schedule.coverCadenceMs := by
      unfold CoverSchedule.cycleDurationMs
      push_cast
      ring
    rw [hsplit, Int.natAbs_mul _ (schedule.coverCadenceMs : Int), Int.natAbs_natCast]
    exact Nat.le_mul_of_pos_right _ h.cadence
  · refine safeInteger_natCast.mpr ?_
    calc o / schedule.slotsPerEpoch * schedule.coverFramesPerCell
        ≤ schedule.coverDurationEpochs * schedule.coverFramesPerCell :=
          Nat.mul_le_mul_right _ (Nat.le_of_lt hepoch)
      _ = schedule.slotsPerLane := Nat.mul_comm _ _
      _ ≤ MAX_SAFE_INTEGER := safeInteger_natCast.mp h.slotsPerLane

theorem Valid.total_le (h : Valid schedule) : schedule.totalCycleSlots ≤ MAX_SAFE_INTEGER := by
  calc schedule.totalCycleSlots
      ≤ schedule.coverCadenceMs * schedule.coverDurationEpochs :=
        Nat.mul_le_mul_right _ (Nat.le_trans (Nat.le_mul_of_pos_left _ (by decide)) h.spacing)
    _ = schedule.cycleDurationMs := rfl
    _ ≤ MAX_SAFE_INTEGER := h.duration_le

/-- The last slot of the first epoch has the largest numerator. -/
theorem SafeProducts.numerator {index : Int} (h : Valid schedule) (hsafe : SafeProducts schedule index) :
    (2 * schedule.slotsPerEpoch - 1) * schedule.coverCadenceMs ≤ MAX_SAFE_INTEGER := by
  have hslots := h.slots
  have hlast : schedule.slotsPerEpoch - 1 < schedule.totalCycleSlots :=
    Nat.lt_of_lt_of_le (Nat.sub_lt hslots Nat.one_pos) (Nat.le_mul_of_pos_right _ h.epochs)
  have hproduct := hsafe.slots _ hlast
    ((2 * (schedule.slotsPerEpoch - 1 : Nat) + 1) * schedule.coverCadenceMs) (by
      unfold slotProducts
      rw [Nat.mod_eq_of_lt (Nat.sub_lt hslots Nat.one_pos)]
      simp)
  have hnat : (2 * (schedule.slotsPerEpoch - 1) + 1) * schedule.coverCadenceMs ≤ MAX_SAFE_INTEGER := by
    refine safeInteger_natCast.mp ?_
    push_cast
    exact hproduct
  have hodd : 2 * (schedule.slotsPerEpoch - 1) + 1 = 2 * schedule.slotsPerEpoch - 1 := by omega
  rw [hodd] at hnat
  exact hnat

/-- The slots of every cycle of an accepted schedule are a grid, and the products are
safe exactly when the largest deadline numerator of an epoch is and the cycle starts
within the safe range of the phase offset. -/
theorem slot_grid (hvalid : validateCoverSchedule schedule = .ok ()) (index : Int) :
    Grid schedule index ∧ SafeProducts schedule index ↔
      (2 * schedule.slotsPerEpoch - 1) * schedule.coverCadenceMs ≤ MAX_SAFE_INTEGER ∧
        SafeInteger ((cycleAt schedule index).startMs - schedule.phaseOffsetMs) := by
  have h := validateCoverSchedule_ok hvalid
  have hstart : (cycleAt schedule index).startMs - schedule.phaseOffsetMs =
      index * schedule.cycleDurationMs := by
    unfold cycleAt
    ring
  rw [hstart]
  constructor
  · rintro ⟨-, hsafe⟩
    exact ⟨hsafe.numerator h, hsafe.boundary⟩
  · rintro ⟨hnumerator, hboundary⟩
    exact ⟨h.grid index, fun o ho => slotProducts_safe h hnumerator hboundary ho, hboundary,
      safeInteger_natCast.mpr h.total_le⟩

/-- Four lanes of three slots in an epoch of a minute, two epochs. -/
def minuteSchedule : CoverSchedule := ⟨7, 60000, 4, 3, 2⟩

theorem validate_of_toOption (h : (validateCoverSchedule schedule).toOption = some ()) :
    validateCoverSchedule schedule = .ok () := by
  cases hrun : validateCoverSchedule schedule with
  | ok _ => rfl
  | error e =>
    rw [hrun] at h
    cases h

theorem slot_grid_minute :
    validateCoverSchedule minuteSchedule = .ok () ∧ Grid minuteSchedule 14000000 ∧
      SafeProducts minuteSchedule 14000000 :=
  ⟨validate_of_toOption (by decide +kernel),
    (slot_grid (validate_of_toOption (by decide +kernel)) 14000000).mpr (by decide +kernel)⟩

/-- A cadence of 2^52 + 1 milliseconds, sixteen lanes of one slot. -/
def longSchedule : CoverSchedule := ⟨0, 4503599627370497, 16, 1, 1⟩

/-- The schedule is accepted and its first cycle lies in the safe range, but the deadline
of its second slot is computed from a product that does not. -/
theorem slotAt_unsafe_product :
    validateCoverSchedule longSchedule = .ok () ∧
      SafeInteger (cycleAt longSchedule 0).startMs ∧ SafeInteger (cycleAt longSchedule 0).endMs ∧
      1 < longSchedule.totalCycleSlots ∧
      ¬ ∀ product ∈ slotProducts longSchedule (cycleAt longSchedule 0) 1, SafeInteger product := by
  refine ⟨validate_of_toOption (by decide +kernel), by decide +kernel, by decide +kernel, by decide +kernel,
    by decide +kernel⟩

end Cover

end P2Party
