import P2Party.Cover.Independence
import P2Party.Cover.SlotGrid

/-!
# Full cycles

Every cycle opens all its lanes and fills its slots in order, and one that no call and
no late timer cuts short fills all of them before it closes. With the simulation this
says what the lanes of a scheduler show: the same in every run with the same control
events, whatever the jobs.

- `Stable`: what every method of the timeline keeps, from what its statements keep;
- `InOrder`: the observations of the current cycle;
- `Ends`: an uncut stretch of a cycle;
- `cover_schedule_independent`: two runs, and the cycles of a run.
-/

namespace P2Party

open Base

namespace Cover

/-! ## What the methods keep -/

/-- A property of the timeline that its statements keep, the filling of a slot apart. -/
structure Stable (options : CoverSchedulerOptions) (P : Timeline → Prop) : Prop where
  status : ∀ t status, P t → P { t with status }
  running : ∀ t running, P t → P { t with running }
  disarm : ∀ t, P t → P { t with timer := none }
  boundary : ∀ t deadlineMs due, (∀ ordinal, due ≠ .slot ordinal) → P t →
    P { t with timer := some (deadlineMs, due) }
  close : ∀ t cycle reason now, t.cycle = some cycle → P t →
    P { t with cycle := none, seen := t.seen ++ closings options.schedule cycle reason now }
  opened : ∀ t cycle now, P t →
    P { t with
      status := .active
      cycle := some cycle
      timer := some ((slotAt options.schedule cycle 0).deadlineMs, .slot 0)
      seen := t.seen ++ openings options.schedule cycle now }

namespace Stable

variable {options : CoverSchedulerOptions} {P : Timeline → Prop}

theorem arm_boundary (h : Stable options P) (deadlineMs : Int) :
    Keeps P (Timeline.arm deadlineMs .cycleBoundary) :=
  Keeps.change fun t ht => h.boundary t deadlineMs _ nofun ht

theorem arm_opening (h : Stable options P) (deadlineMs : Int) :
    Keeps P (Timeline.arm deadlineMs .openBoundary) :=
  Keeps.change fun t ht => h.boundary t deadlineMs _ nofun ht

theorem disarmed (h : Stable options P) : Keeps P Timeline.disarm :=
  Keeps.change fun t ht => h.disarm t ht

theorem setStatus (h : Stable options P) (status : CoverSchedulerStatus) :
    Keeps P (Timeline.setStatus status) := Keeps.change fun t ht => h.status t status ht

/-- Arm, then return. -/
theorem armed {m : TimelineM Unit} (hm : Keeps P m) (a : α) : Keeps P (m >>= fun _ => pure a) :=
  Keeps.bind hm fun _ => Keeps.pure a

theorem closeCurrentCycle (h : Stable options P) (reason : CloseReason) (now : Rat) :
    Keeps P (Timeline.closeCurrentCycle options reason now) := by
  refine Keeps.read fun t ht => ?_
  cases hcycle : t.cycle with
  | none => exact ht
  | some cycle => exact h.close t cycle reason now hcycle ht

theorem armNextCycle (h : Stable options P) (now : Rat) :
    Keeps P (Timeline.armNextCycle options now) := by
  refine Keeps.read fun t ht => ?_
  have hkeeps : Keeps P (if t.running = true then do
      Timeline.arm (← attempt (nextCycleBoundary options.schedule now false)) .openBoundary
    else pure ()) := Keeps.ite (Keeps.bind (Keeps.attempt _) fun d => h.arm_opening d) (Keeps.pure ())
  exact hkeeps t ht

/-- Both branches on the current cycle keep `P`. -/
theorem onCycle {m : TimelineM α} {f : CycleSpan → TimelineM α} (hnone : Keeps P m)
    (hsome : ∀ cycle, Keeps P (f cycle)) :
    Keeps P (get >>= fun t => match t.cycle with | none => m | some cycle => f cycle) := by
  refine Keeps.read fun t ht => ?_
  cases t.cycle with
  | none => exact hnone t ht
  | some cycle => exact hsome cycle t ht

theorem suspend (h : Stable options P) (now : Rat) : Keeps P (Timeline.suspend options now) := by
  refine Keeps.bind (fun t ht => ht) fun t => Keeps.ite (Keeps.pure _) ?_
  refine Keeps.bind h.disarmed fun _ => Keeps.bind (h.setStatus _) fun _ => ?_
  refine onCycle (Keeps.pure _) fun cycle => Keeps.ite (armed (h.arm_boundary _) _) ?_
  exact Keeps.bind (h.closeCurrentCycle _ now) fun _ => Keeps.pure _

theorem handlerFailed (h : Stable options P) (now : Rat) :
    Keeps P (Timeline.handlerFailed options now) :=
  Keeps.bind (h.suspend now) fun _ => Keeps.pure ()

theorem start (h : Stable options P) (now : Rat) : Keeps P (Timeline.start options now) := by
  refine Keeps.bind (fun t ht => ht) fun t => Keeps.ite (Keeps.pure _) ?_
  refine Keeps.bind (Keeps.change fun t ht => h.running t true ht) fun _ => ?_
  refine Keeps.bind (h.setStatus _) fun _ => ?_
  refine onCycle ?_ fun cycle => armed (h.arm_boundary _) _
  exact Keeps.bind (Keeps.attempt _) fun d => armed (h.arm_opening d) _

theorem resume (h : Stable options P) (now : Rat) : Keeps P (Timeline.resume options now) := by
  have hopen : Keeps P (do
      Timeline.arm (← attempt (nextCycleBoundary options.schedule now false)) .openBoundary
      return true) := Keeps.bind (Keeps.attempt _) fun d => armed (h.arm_opening d) _
  refine Keeps.bind (fun t ht => ht) fun t => Keeps.ite (Keeps.pure _) ?_
  refine Keeps.bind (Keeps.change fun t ht => h.running t true ht) fun _ => ?_
  refine Keeps.bind h.disarmed fun _ => Keeps.bind (h.setStatus _) fun _ => ?_
  refine onCycle hopen fun cycle => Keeps.ite (armed (h.arm_boundary _) _) ?_
  exact Keeps.bind (h.closeCurrentCycle _ now) fun _ => hopen

theorem stop (h : Stable options P) (now : Rat) : Keeps P (Timeline.stop options now) := by
  refine Keeps.bind (fun t ht => ht) fun t => Keeps.ite (Keeps.pure _) ?_
  refine Keeps.bind (Keeps.change fun t ht => h.running t false ht) fun _ => ?_
  refine Keeps.bind h.disarmed fun _ => Keeps.bind (h.setStatus _) fun _ => ?_
  refine onCycle (Keeps.pure _) fun cycle => Keeps.ite (armed (h.arm_boundary _) _) ?_
  exact Keeps.bind (h.closeCurrentCycle _ now) fun _ => Keeps.pure _

theorem degrade (h : Stable options P) (now : Rat) : Keeps P (Timeline.degrade options now) := by
  refine Keeps.bind (fun t ht => ht) fun t => Keeps.ite (Keeps.pure _) ?_
  refine Keeps.bind h.disarmed fun _ => Keeps.bind (h.setStatus _) fun _ => ?_
  refine onCycle (h.armNextCycle now) fun cycle => Keeps.ite (h.arm_boundary _) ?_
  exact Keeps.bind (h.closeCurrentCycle _ now) fun _ => h.armNextCycle now

theorem openCycle (h : Stable options P) (boundaryMs : Int) (now : Rat) :
    Keeps P (Timeline.openCycle options boundaryMs now) := by
  refine Keeps.bind (fun t ht => ht) fun t => Keeps.ite (Keeps.pure _) ?_
  refine Keeps.bind (Keeps.attempt _) fun index => Keeps.bind (Keeps.ensure _ _) fun _ => ?_
  exact fun t ht => h.opened t _ now ht

theorem handleCycleBoundary (h : Stable options P) (boundaryMs : Int) (now : Rat) :
    Keeps P (Timeline.handleCycleBoundary options boundaryMs now) := by
  refine Keeps.bind (fun t ht => ht) fun t => ?_
  cases t.cycle with
  | none => exact Keeps.pure _
  | some cycle =>
    refine Keeps.ite (Keeps.pure _) (Keeps.bind (h.closeCurrentCycle _ now) fun _ => ?_)
    exact Keeps.ite (Keeps.pure _) (Keeps.recover (h.openCycle boundaryMs now) (h.handlerFailed now))

theorem handleLateTimer (h : Stable options P) (due : Due) (now : Rat) :
    Keeps P (Timeline.handleLateTimer options due now) := by
  have hlate : Keeps P (Timeline.closeCurrentCycle options .lateCleanup now >>= fun _ =>
      modify fun t => { t with status := if t.status = .stopped then .stopped else .suspended }) :=
    Keeps.bind (h.closeCurrentCycle _ now) fun _ => Keeps.change fun t ht => h.status t _ ht
  cases due with
  | slot ordinal => exact h.degrade now
  | openBoundary => exact hlate
  | cycleBoundary => exact hlate

/-- Every control event keeps `P`, if filling the slot the timer is for does. -/
theorem step (h : Stable options P) {cellLength : Nat}
    (hfill : ∀ t deadlineMs ordinal cycle, P t → t.timer = some (deadlineMs, .slot ordinal) →
      t.cycle = some cycle →
      P { t with
        timer := some (Timeline.dueAfter options cycle (ordinal + 1))
        seen := t.seen ++ [filling options.schedule cellLength cycle ordinal] })
    (control : Control) {t : Timeline} (ht : P t) : P (Timeline.step options cellLength control t) := by
  cases control with
  | start now => exact h.start now t ht
  | suspend now => exact h.suspend now t ht
  | resume now => exact h.resume now t ht
  | stop now => exact h.stop now t ht
  | timer firedAt =>
    unfold Timeline.step Timeline.timerFired
    simp only [run_get_bind]
    split
    · exact ht
    case h_2 deadlineMs due htimer =>
      split
      · exact ht
      unfold Timeline.disarm
      rw [run_modify_bind]
      split
      · exact h.handleLateTimer due firedAt _ (h.disarm t ht)
      cases due with
      | openBoundary =>
        exact Keeps.recover (h.openCycle deadlineMs firedAt) (h.handlerFailed firedAt) _ (h.disarm t ht)
      | cycleBoundary => exact h.handleCycleBoundary deadlineMs firedAt _ (h.disarm t ht)
      | slot ordinal =>
        unfold Timeline.sendSlot
        simp only [run_get_bind]
        split
        · exact h.disarm t ht
        case h_2 cycle hcycle =>
          split
          · exact h.disarm t ht
          · exact hfill t deadlineMs ordinal cycle ht htimer hcycle

end Stable

/-! ## The slots of a cycle -/

/-- The first slots of a cycle, filled in order. -/
def fillings (schedule : CoverSchedule) (cellLength : Nat) (cycle : CycleSpan) (count : Nat) :
    List Observation :=
  (List.range count).map (filling schedule cellLength cycle)

theorem fillings_succ (schedule : CoverSchedule) (cellLength : Nat) (cycle : CycleSpan)
    (count : Nat) :
    fillings schedule cellLength cycle (count + 1) =
      fillings schedule cellLength cycle count ++ [filling schedule cellLength cycle count] := by
  rw [fillings, List.range_succ, List.map_append]
  rfl

variable {options : CoverSchedulerOptions} {cellLength : Nat}

/-- All lanes of the current cycle were opened and then its first slots filled in order;
a slot timer is for the next one. -/
def InOrder (options : CoverSchedulerOptions) (cellLength : Nat) (t : Timeline) : Prop :=
  ∀ cycle, t.cycle = some cycle → ∃ before now count, count ≤ options.schedule.totalCycleSlots ∧
    t.seen = before ++ (openings options.schedule cycle now ++
      fillings options.schedule cellLength cycle count) ∧
    ∀ deadlineMs ordinal, t.timer = some (deadlineMs, .slot ordinal) →
      ordinal = count ∧ count < options.schedule.totalCycleSlots

theorem inOrder_stable (htotal : 0 < options.schedule.totalCycleSlots) :
    Stable options (InOrder options cellLength) where
  status _ _ h := h
  running _ _ h := h
  disarm t h cycle hcycle := by
    obtain ⟨before, now, count, hle, hseen, -⟩ := h cycle hcycle
    exact ⟨before, now, count, hle, hseen, nofun⟩
  boundary _ _ _ hdue h cycle hcycle := by
    obtain ⟨before, now, count, hle, hseen, -⟩ := h cycle hcycle
    refine ⟨before, now, count, hle, hseen, ?_⟩
    rintro _ ordinal ⟨⟩
    exact absurd rfl (hdue ordinal)
  close _ _ _ _ _ _ := nofun
  opened t cycle now _ := by
    rintro _ ⟨⟩
    refine ⟨t.seen, now, 0, Nat.zero_le _, ?_, ?_⟩
    · rw [fillings, List.range_zero, List.map_nil, List.append_nil]
    · rintro _ _ ⟨⟩
      exact ⟨rfl, htotal⟩

theorem inOrder_step (htotal : 0 < options.schedule.totalCycleSlots) (control : Control)
    {t : Timeline} (h : InOrder options cellLength t) :
    InOrder options cellLength (Timeline.step options cellLength control t) := by
  refine (inOrder_stable htotal).step ?_ control h
  intro t deadlineMs ordinal cycle ht htimer hcycle
  obtain ⟨before, now, count, -, hseen, hslot⟩ := ht cycle hcycle
  obtain ⟨rfl, hlt⟩ := hslot deadlineMs ordinal htimer
  intro cycle' hcycle'
  have hsame : cycle' = cycle := Option.some.inj (hcycle'.symm.trans hcycle)
  subst hsame
  refine ⟨before, now, ordinal + 1, hlt, ?_, ?_⟩
  · rw [hseen, fillings_succ, List.append_assoc, List.append_assoc]
  · intro deadline' ordinal' hdue
    unfold Timeline.dueAfter at hdue
    split at hdue
    case isTrue hmore =>
      cases hdue
      exact ⟨rfl, hmore⟩
    case isFalse => cases hdue

/-- What was seen stays seen. -/
theorem seen_stable (before : List Observation) :
    Stable options fun t => before <+: t.seen where
  status _ _ h := h
  running _ _ h := h
  disarm _ h := h
  boundary _ _ _ _ h := h
  close _ _ _ _ _ h := h.trans (List.prefix_append _ _)
  opened _ _ _ h := h.trans (List.prefix_append _ _)

theorem seen_step (before : List Observation) (control : Control) {t : Timeline}
    (h : before <+: t.seen) : before <+: (Timeline.step options cellLength control t).seen :=
  (seen_stable before).step (fun _ _ _ _ ht _ _ => ht.trans (List.prefix_append _ _)) control h

/-! ## A cycle that is not cut short -/

/-- The cycle is active and waits for its next slot or its end, or it has filled all its
slots and was closed at its boundary. -/
def Ends (options : CoverSchedulerOptions) (cellLength : Nat) (before : List Observation)
    (cycle : CycleSpan) (t : Timeline) : Prop :=
  (t.status = .active ∧ t.cycle = some cycle ∧ ∃ count, count ≤ options.schedule.totalCycleSlots ∧
      t.timer = some (Timeline.dueAfter options cycle count) ∧
      t.seen = before ++ fillings options.schedule cellLength cycle count) ∨
    ∃ now, before ++ (fillings options.schedule cellLength cycle options.schedule.totalCycleSlots ++
      closings options.schedule cycle .boundary now) <+: t.seen

/-- `suspend`, `stop` and a late timer cut a cycle short. -/
def Control.Cuts (options : CoverSchedulerOptions) (control : Control)
    (deadlineMs : Option Int) : Prop :=
  match control with
  | .suspend _ | .stop _ => True
  | .timer firedAt => ∃ d ∈ deadlineMs, firedAt > (d : Rat) + options.maxTimerDriftMs
  | _ => False

/-- The boundary of an active cycle closes it. -/
theorem handleCycleBoundary_closes {t : Timeline} {cycle : CycleSpan} {now : Rat}
    (hcycle : t.cycle = some cycle) :
    t.seen ++ closings options.schedule cycle .boundary now <+:
      (finalState ((Timeline.handleCycleBoundary options cycle.endMs now).run t)).seen := by
  have hstable := @seen_stable options (t.seen ++ closings options.schedule cycle .boundary now)
  unfold Timeline.handleCycleBoundary
  rw [run_get_bind, hcycle]
  simp only [ne_eq, not_true_eq_false, if_false]
  have hclose : (Timeline.closeCurrentCycle options .boundary now).run t = .ok true { t with
      cycle := none
      seen := t.seen ++ closings options.schedule cycle .boundary now } := by
    unfold Timeline.closeCurrentCycle
    rw [run_get_bind, hcycle]
    rfl
  rw [run_bind_of_ok hclose]
  split
  · exact List.prefix_rfl
  · exact Keeps.recover (hstable.openCycle cycle.endMs now) (hstable.handlerFailed now) _
      List.prefix_rfl

theorem ends_step {before : List Observation} {cycle : CycleSpan} {t : Timeline}
    (h : Ends options cellLength before cycle t) {control : Control}
    (huncut : ¬ control.Cuts options (t.timer.map Prod.fst)) :
    Ends options cellLength before cycle (Timeline.step options cellLength control t) := by
  rcases h with ⟨hactive, hcycle, count, hle, htimer, hseen⟩ | ⟨now, hseen⟩
  case inr => exact .inr ⟨now, seen_step _ control hseen⟩
  have hsame : Ends options cellLength before cycle t :=
    .inl ⟨hactive, hcycle, count, hle, htimer, hseen⟩
  cases control with
  | start now =>
    unfold Timeline.step Timeline.start
    simp only [run_get_bind, hactive]
    exact hsame
  | resume now =>
    unfold Timeline.step Timeline.resume
    simp only [run_get_bind, hactive]
    exact hsame
  | suspend now => exact absurd trivial huncut
  | stop now => exact absurd trivial huncut
  | timer firedAt =>
    have hontime : ¬ firedAt >
        ((Timeline.dueAfter options cycle count).1 : Rat) + options.maxTimerDriftMs := by
      intro hlate
      refine huncut ⟨_, ?_, hlate⟩
      rw [htimer]
      rfl
    unfold Timeline.step Timeline.timerFired Timeline.disarm
    simp only [run_get_bind, htimer]
    split
    · exact hsame
    rw [run_modify_bind]
    unfold Timeline.dueAfter
    by_cases hmore : count < options.schedule.totalCycleSlots
    · simp only [if_pos hmore]
      unfold Timeline.sendSlot
      simp only [run_get_bind, hcycle, hactive, ne_eq, not_true_eq_false, if_false]
      refine .inl ⟨rfl, rfl, count + 1, hmore, rfl, ?_⟩
      show t.seen ++ _ = _
      rw [hseen, fillings_succ, List.append_assoc]
    · simp only [if_neg hmore]
      have hall : count = options.schedule.totalCycleSlots := by omega
      subst hall
      refine .inr ⟨firedAt, ?_⟩
      have hcloses := @handleCycleBoundary_closes options { t with timer := none } cycle firedAt hcycle
      rw [← List.append_assoc, ← hseen]
      exact hcloses

/-! ## Active cycles -/

/-- An active timeline runs and has a cycle that waits for its next slot or its end. -/
def Waiting (options : CoverSchedulerOptions) (cellLength : Nat) (t : Timeline) : Prop :=
  t.status = .active → t.running = true ∧ ∃ cycle before now count, t.cycle = some cycle ∧
    count ≤ options.schedule.totalCycleSlots ∧
    t.timer = some (Timeline.dueAfter options cycle count) ∧
    t.seen = before ++ (openings options.schedule cycle now ++
      fillings options.schedule cellLength cycle count)

section StatusKept

variable {P : CoverSchedulerStatus → Prop}

theorem arm_status (deadlineMs : Int) (due : Due) :
    Keeps (fun t => P t.status) (Timeline.arm deadlineMs due) := Keeps.change fun _ h => h

theorem closeCurrentCycle_status (reason : CloseReason) (now : Rat) :
    Keeps (fun t => P t.status) (Timeline.closeCurrentCycle options reason now) := by
  refine Keeps.read fun t ht => ?_
  cases t.cycle with
  | none => exact ht
  | some _ => exact ht

theorem armNextCycle_status (now : Rat) :
    Keeps (fun t => P t.status) (Timeline.armNextCycle options now) :=
  Keeps.bind (fun _ h => h) fun _ => Keeps.ite (Keeps.bind (Keeps.attempt _) fun d => arm_status d _)
    (Keeps.pure ())

/-- The end of `suspend` and `stop`. -/
theorem leaveCycle_status (now : Rat) :
    Keeps (fun t => P t.status) (get >>= fun t : Timeline => match t.cycle with
      | none => pure true
      | some cycle =>
        if now ≤ cycle.endMs then Timeline.arm cycle.endMs .cycleBoundary >>= fun _ => pure true
        else Timeline.closeCurrentCycle options .lateCleanup now >>= fun _ => pure true) :=
  Stable.onCycle (Keeps.pure _) fun _ => Keeps.ite (Stable.armed (arm_status _ _) _)
    (Keeps.bind (closeCurrentCycle_status _ now) fun _ => Keeps.pure _)

end StatusKept

/-- Where the timeline is not active, it waits for nothing. -/
theorem waiting_of_ne {t : Timeline} (h : t.status ≠ .active) : Waiting options cellLength t :=
  fun hactive => absurd hactive h

theorem suspend_waiting {t : Timeline} (now : Rat) :
    (finalState ((Timeline.suspend options now).run t)).status ≠ .active := by
  unfold Timeline.suspend
  rw [run_get_bind]
  split
  case isTrue hoff =>
    show t.status ≠ .active
    rcases hoff with hoff | hoff <;> rw [hoff] <;> decide
  case isFalse => exact @leaveCycle_status options (· ≠ .active) now _ nofun

theorem start_waiting {t : Timeline} (h : Waiting options cellLength t) (now : Rat) :
    Waiting options cellLength (finalState ((Timeline.start options now).run t)) := by
  unfold Timeline.start
  rw [run_get_bind]
  split
  case isTrue => exact h
  case isFalse =>
    refine waiting_of_ne ?_
    have htail : Keeps (fun t : Timeline => t.status ≠ .active) (get >>= fun t : Timeline =>
        match t.cycle with
        | none => do
          Timeline.arm (← attempt (nextCycleBoundary options.schedule now true)) .openBoundary
          return true
        | some cycle => Timeline.arm cycle.endMs .cycleBoundary >>= fun _ => pure true) :=
      Stable.onCycle (Keeps.bind (Keeps.attempt _) fun d => Stable.armed
        (@arm_status (· ≠ .active) d _) _) fun cycle => Stable.armed (@arm_status (· ≠ .active) _ _) _
    exact htail _ nofun

theorem resume_waiting {t : Timeline} (h : Waiting options cellLength t) (now : Rat) :
    Waiting options cellLength (finalState ((Timeline.resume options now).run t)) := by
  unfold Timeline.resume
  rw [run_get_bind]
  split
  case isTrue => exact h
  case isFalse =>
    refine waiting_of_ne ?_
    have hopen : Keeps (fun t : Timeline => t.status ≠ .active) (do
        Timeline.arm (← attempt (nextCycleBoundary options.schedule now false)) .openBoundary
        return true) := Keeps.bind (Keeps.attempt _) fun d =>
      Stable.armed (@arm_status (· ≠ .active) d _) _
    have htail : Keeps (fun t : Timeline => t.status ≠ .active) (get >>= fun t : Timeline =>
        match t.cycle with
        | none => do
          Timeline.arm (← attempt (nextCycleBoundary options.schedule now false)) .openBoundary
          return true
        | some cycle =>
          if now < cycle.endMs then Timeline.arm cycle.endMs .cycleBoundary >>= fun _ => pure true
          else do
            let _ ← Timeline.closeCurrentCycle options .lateCleanup now
            Timeline.arm (← attempt (nextCycleBoundary options.schedule now false)) .openBoundary
            return true) :=
      Stable.onCycle hopen fun cycle => Keeps.ite (Stable.armed (@arm_status (· ≠ .active) _ _) _)
        (Keeps.bind (@closeCurrentCycle_status options (· ≠ .active) _ now) fun _ => hopen)
    exact htail _ nofun

theorem stop_waiting {t : Timeline} (now : Rat) :
    (finalState ((Timeline.stop options now).run t)).status ≠ .active := by
  unfold Timeline.stop
  rw [run_get_bind]
  split
  case isTrue hoff =>
    show t.status ≠ .active
    rw [hoff.1]
    decide
  case isFalse => exact @leaveCycle_status options (· ≠ .active) now _ nofun

theorem degrade_waiting {t : Timeline} (now : Rat) :
    (finalState ((Timeline.degrade options now).run t)).status ≠ .active := by
  unfold Timeline.degrade
  rw [run_get_bind]
  split
  case isTrue hoff =>
    show t.status ≠ .active
    rcases hoff with hoff | hoff <;> rw [hoff] <;> decide
  case isFalse =>
    have htail : Keeps (fun t : Timeline => t.status ≠ .active) (get >>= fun t : Timeline =>
        match t.cycle with
        | none => Timeline.armNextCycle options now
        | some cycle =>
          if now ≤ cycle.endMs then Timeline.arm cycle.endMs .cycleBoundary
          else do
            let _ ← Timeline.closeCurrentCycle options .lateCleanup now
            Timeline.armNextCycle options now) :=
      Stable.onCycle (@armNextCycle_status options (· ≠ .active) now) fun cycle =>
        Keeps.ite (@arm_status (· ≠ .active) _ _)
          (Keeps.bind (@closeCurrentCycle_status options (· ≠ .active) _ now) fun _ =>
            @armNextCycle_status options (· ≠ .active) now)
    exact htail _ nofun

theorem handlerFailed_waiting {t : Timeline} (now : Rat) :
    (finalState ((Timeline.handlerFailed options now).run t)).status ≠ .active := by
  have hsuspend := @suspend_waiting options t now
  unfold Timeline.handlerFailed
  cases hrun : (Timeline.suspend options now).run t with
  | ok done t' =>
    rw [run_bind_of_ok hrun]
    rw [hrun] at hsuspend
    exact hsuspend
  | error e t' =>
    rw [run_bind_of_error hrun]
    rw [hrun] at hsuspend
    exact hsuspend

/-- Opening a cycle leaves it waiting for its first slot. -/
theorem openCycle_waiting {t : Timeline} (hready : t.status = .active → t.running = true)
    (htotal : 0 < options.schedule.totalCycleSlots) (boundaryMs : Int) (now : Rat) :
    Waiting options cellLength (finalState
      ((recover (Timeline.openCycle options boundaryMs now) (Timeline.handlerFailed options now)).run
        t)) := by
  refine recover_final (fun _ t' hopened => ?_) fun _ _ _ => waiting_of_ne (handlerFailed_waiting now)
  unfold Timeline.openCycle at hopened
  rw [run_get_bind] at hopened
  by_cases hoff : t.running = false ∨ t.status = .stopped ∨ t.status = .suspended
  · rw [if_pos hoff] at hopened
    cases hopened
    refine waiting_of_ne fun hactive => ?_
    rw [hready hactive, hactive] at hoff
    rcases hoff with hoff | hoff | hoff <;> cases hoff
  rw [if_neg hoff] at hopened
  obtain ⟨cycleIndex, -, hopened⟩ := attempt_bind_eq_ok.mp hopened
  obtain ⟨-, hopened⟩ := ensure_bind_eq_ok.mp hopened
  cases hopened
  intro _
  have hrunning : t.running = true := by
    cases hr : t.running with
    | true => rfl
    | false => exact absurd (.inl hr) hoff
  refine ⟨hrunning, ⟨cycleIndex, boundaryMs, _⟩, t.seen, now, 0, rfl, Nat.zero_le _, ?_, ?_⟩
  · unfold Timeline.dueAfter
    rw [if_pos htotal]
  · rw [fillings, List.range_zero, List.map_nil, List.append_nil]

/-- The boundary of a waiting cycle leaves the next one waiting. -/
theorem handleCycleBoundary_waiting {t : Timeline} (hready : t.status = .active → t.running = true ∧
      ∃ cycle, t.cycle = some cycle ∧ cycle.endMs = boundaryMs)
    (htotal : 0 < options.schedule.totalCycleSlots) (now : Rat) :
    Waiting options cellLength
      (finalState ((Timeline.handleCycleBoundary options boundaryMs now).run t)) := by
  unfold Timeline.handleCycleBoundary
  rw [run_get_bind]
  split
  case h_1 hcycle =>
    refine waiting_of_ne fun hactive => ?_
    obtain ⟨-, cycle, hsome, -⟩ := hready hactive
    cases hcycle.symm.trans hsome
  case h_2 cycle hcycle =>
    split
    case isTrue hother =>
      refine waiting_of_ne fun hactive => ?_
      obtain ⟨-, cycle', hsome, hend⟩ := hready hactive
      cases hcycle.symm.trans hsome
      exact hother hend
    case isFalse =>
      have hclose : (Timeline.closeCurrentCycle options .boundary now).run t = .ok true { t with
          cycle := none
          seen := t.seen ++ closings options.schedule cycle .boundary now } := by
        unfold Timeline.closeCurrentCycle
        rw [run_get_bind, hcycle]
        rfl
      rw [run_bind_of_ok hclose]
      split
      case isTrue hoff =>
        refine waiting_of_ne fun hactive => ?_
        have hactive : t.status = .active := hactive
        rw [(hready hactive).1, hactive] at hoff
        rcases hoff with hoff | hoff | hoff <;> cases hoff
      case isFalse =>
        refine openCycle_waiting ?_ htotal boundaryMs now
        exact fun hactive => (hready hactive).1

/-- What is late and no slot suspends. -/
theorem handleLateTimer_waiting {t : Timeline} {due : Due} (hdue : ∀ ordinal, due ≠ .slot ordinal)
    (now : Rat) : (finalState ((Timeline.handleLateTimer options due now).run t)).status ≠ .active := by
  have hclose : ∃ t', (Timeline.closeCurrentCycle options .lateCleanup now).run t = .ok true t' := by
    unfold Timeline.closeCurrentCycle
    rw [run_get_bind]
    cases t.cycle with
    | none => exact ⟨_, rfl⟩
    | some cycle => exact ⟨_, rfl⟩
  obtain ⟨t', hclose⟩ := hclose
  have hnot : (if t'.status = .stopped then CoverSchedulerStatus.stopped else .suspended) ≠ .active := by
    split <;> decide
  cases due with
  | slot ordinal => exact absurd rfl (hdue ordinal)
  | openBoundary =>
    unfold Timeline.handleLateTimer
    simp only [run_bind_of_ok hclose]
    exact hnot
  | cycleBoundary =>
    unfold Timeline.handleLateTimer
    simp only [run_bind_of_ok hclose]
    exact hnot

/-- What a waiting timeline does when its timer fires. -/
theorem timerFired_waiting (htotal : 0 < options.schedule.totalCycleSlots) {t : Timeline}
    (h : Waiting options cellLength t) (firedAt : Rat) :
    Waiting options cellLength
      (finalState ((Timeline.timerFired options cellLength firedAt).run t)) := by
  unfold Timeline.timerFired Timeline.disarm
  simp only [run_get_bind]
  split
  · exact h
  case h_2 deadlineMs due htimer =>
    split
    · exact h
    rw [run_modify_bind]
    split
    case isTrue =>
      cases due with
      | slot ordinal => exact waiting_of_ne (degrade_waiting firedAt)
      | openBoundary => exact waiting_of_ne (handleLateTimer_waiting (by simp) firedAt)
      | cycleBoundary => exact waiting_of_ne (handleLateTimer_waiting (by simp) firedAt)
    cases due with
    | openBoundary =>
      exact @openCycle_waiting options cellLength { t with timer := none }
        (fun hactive => (h hactive).1) htotal deadlineMs firedAt
    | cycleBoundary =>
      refine @handleCycleBoundary_waiting options cellLength deadlineMs { t with timer := none } ?_
        htotal firedAt
      intro hactive
      obtain ⟨hrunning, cycle, before, now, count, hcycle, -, hdue, -⟩ := h hactive
      refine ⟨hrunning, cycle, hcycle, ?_⟩
      rw [htimer] at hdue
      unfold Timeline.dueAfter at hdue
      split at hdue
      · cases hdue
      · cases hdue
        rfl
    | slot ordinal =>
      unfold Timeline.sendSlot
      simp only [run_get_bind]
      split
      case h_1 hnone =>
        refine waiting_of_ne fun hactive => ?_
        obtain ⟨-, cycle, before, now, count, hcycle, -⟩ := h hactive
        cases hnone.symm.trans hcycle
      case h_2 cycle hcycle =>
        split
        case isTrue hinactive => exact waiting_of_ne hinactive
        case isFalse hactive =>
          obtain ⟨hrunning, cycle', before, now, count, hcycle', -, hdue, hseen⟩ :=
            h (not_not.mp hactive)
          cases hcycle.symm.trans hcycle'
          rw [htimer] at hdue
          unfold Timeline.dueAfter at hdue
          split at hdue
          case isFalse => cases hdue
          case isTrue hmore =>
            cases hdue
            intro _
            refine ⟨hrunning, cycle, before, now, ordinal + 1, hcycle, hmore, rfl, ?_⟩
            show t.seen ++ _ = _
            rw [hseen, fillings_succ, List.append_assoc, List.append_assoc]

theorem waiting_step (htotal : 0 < options.schedule.totalCycleSlots) {t : Timeline}
    (h : Waiting options cellLength t) (control : Control) :
    Waiting options cellLength (Timeline.step options cellLength control t) := by
  cases control with
  | start now => exact start_waiting h now
  | suspend now => exact waiting_of_ne (suspend_waiting now)
  | resume now => exact resume_waiting h now
  | stop now => exact waiting_of_ne (stop_waiting now)
  | timer firedAt => exact timerFired_waiting htotal h firedAt

/-! ## Runs -/

/-- The events that cut a cycle short. -/
def Event.Cuts (options : CoverSchedulerOptions) (event : Event) (s : CoverScheduler) : Prop :=
  match event with
  | .control c => c.Cuts options (s.timer.map (·.deadlineMs))
  | _ => False

/-- The current cycle has opened all its lanes and filled its first slots in order, and
from an active one a stretch that nothing cuts short ends in the cycle or has filled all
its slots and closed it. -/
def FillsCycle (options : CoverSchedulerOptions) (cellLength : Nat) (s : CoverScheduler) : Prop :=
  ∀ cycle, s.cycle = some cycle → ∃ before now count, count ≤ options.schedule.totalCycleSlots ∧
    s.seen = before ++ (openings options.schedule cycle.toCycleSpan now ++
      fillings options.schedule cellLength cycle.toCycleSpan count) ∧
    (s.status = .active → ∀ events,
      Throughout options (Event.Allowed options cellLength) events s →
      Throughout options Event.Prompt events s →
      Throughout options (fun event s => ¬ event.Cuts options s) events s →
      (runAll options events s).Rested →
      ((runAll options events s).status = .active ∧
          (runAll options events s).cycle.map (·.toCycleSpan) = some cycle.toCycleSpan ∧
          ∃ count', count' ≤ options.schedule.totalCycleSlots ∧
            (runAll options events s).seen =
              before ++ openings options.schedule cycle.toCycleSpan now ++
                fillings options.schedule cellLength cycle.toCycleSpan count') ∨
        ∃ now', before ++ openings options.schedule cycle.toCycleSpan now ++
          (fillings options.schedule cellLength cycle.toCycleSpan options.schedule.totalCycleSlots ++
            closings options.schedule cycle.toCycleSpan .boundary now') <+:
              (runAll options events s).seen)

variable {s : CoverScheduler} {t : Timeline}

theorem TimerMatches.deadlines {schedule : CoverSchedule} {cycle : Option CycleRuntime}
    {timer : Option Timer} {due : Option (Int × Due)} (h : TimerMatches schedule cycle timer due) :
    timer.map (·.deadlineMs) = due.map Prod.fst := by
  cases h <;> rfl

/-- What cuts the timeline's cycle short cuts the scheduler's. -/
theorem Related.cuts (h : Related options cellLength s t) {control : Control}
    (hallowed : Event.Allowed options cellLength (.control control) s)
    (hcuts : control.Cuts options (t.timer.map Prod.fst)) :
    Event.Cuts options (.control control) s := by
  rcases h with h | ⟨task, cycle, h⟩
  · have hdeadlines : s.timer.map (·.deadlineMs) = t.timer.map Prod.fst := h.2.deadlines
    show control.Cuts options (s.timer.map (·.deadlineMs))
    rw [hdeadlines]
    exact hcuts
  · cases control with
    | start now => exact hcuts
    | suspend now => exact hcuts
    | resume now => exact hcuts
    | stop now => exact hcuts
    | timer firedAt =>
      have harmed : s.timer.isSome = true := hallowed
      rw [h.unarmed] at harmed
      cases harmed

theorem ends_run (hfactory : options.laneFactory.Reliable) (hlanes : 0 < options.schedule.coverLanes)
    {before : List Observation} {cycle : CycleSpan} (events : List Event)
    (h : Related options cellLength s t) (hends : Ends options cellLength before cycle t)
    (hallowed : Throughout options (Event.Allowed options cellLength) events s)
    (hprompt : Throughout options Event.Prompt events s)
    (huncut : Throughout options (fun event s => ¬ event.Cuts options s) events s) :
    ∃ t', Related options cellLength (runAll options events s) t' ∧
      Ends options cellLength before cycle t' := by
  induction events generalizing s t with
  | nil => exact ⟨t, h, hends⟩
  | cons event events ih =>
    have hstep := step_simulates hfactory hlanes h hallowed.1 hprompt.1
    refine ih hstep ?_ hallowed.2 hprompt.2 huncut.2
    cases event with
    | control control => exact ends_step hends fun hcuts => huncut.1 (h.cuts hallowed.1 hcuts)
    | _ => exact hends

theorem Settled.cycle (h : Settled options cellLength s t) :
    s.cycle.map (·.toCycleSpan) = t.cycle := by
  rcases h with h | ⟨task, cycle, h, -⟩
  · exact h.1.cycle
  · rw [h.current, h.span]
    rfl

/-- Where a scheduler without a waiting slot is related to a timeline that is in order,
its cycle fills. -/
theorem Settled.fillsCycle (h : Settled options cellLength s t)
    (hfactory : options.laneFactory.Reliable) (hlanes : 0 < options.schedule.coverLanes)
    (hordered : InOrder options cellLength t) (hwaiting : Waiting options cellLength t) :
    FillsCycle options cellLength s := by
  intro cycle hcycle
  have hspan : t.cycle = some cycle.toCycleSpan := by
    rw [← h.cycle, hcycle]
    rfl
  by_cases hactive : t.status = .active
  case neg =>
    obtain ⟨before, now, count, hle, hseen, -⟩ := hordered _ hspan
    refine ⟨before, now, count, hle, h.seen.trans hseen, fun hs => ?_⟩
    exact absurd (h.status.symm.trans hs) hactive
  case pos =>
    obtain ⟨-, cycle', before, now, count, hspan', hle, htimer, hseen⟩ := hwaiting hactive
    cases hspan.symm.trans hspan'
    refine ⟨before, now, count, hle, h.seen.trans hseen, ?_⟩
    intro _ events hallowed hprompt huncut hrested
    have hrelated : Related options cellLength s t := by
      rcases h with h | ⟨task, cycle, h, -⟩
      · exact .inl h
      · exact .inr ⟨task, cycle, h⟩
    have hends : Ends options cellLength (before ++ openings options.schedule cycle.toCycleSpan now)
        cycle.toCycleSpan t := by
      refine .inl ⟨hactive, hspan, count, hle, htimer, ?_⟩
      rw [hseen, List.append_assoc]
    obtain ⟨t', hrelated', hends'⟩ := ends_run hfactory hlanes events hrelated hends hallowed hprompt
      huncut
    have hsettled := hrelated'.settled hrested
    rcases hends' with ⟨hstatus, hcycle', count', hle', -, hseen'⟩ | ⟨now', hclosed⟩
    · exact .inl ⟨hsettled.status.trans hstatus, hsettled.cycle.trans hcycle', count', hle',
        hsettled.seen.trans hseen'⟩
    · rw [← hsettled.seen] at hclosed
      exact .inr ⟨now', hclosed⟩

/-- What the constructor checks of the schedule. -/
theorem new_schedule (h : CoverScheduler.new options = .ok s) :
    0 < options.schedule.coverLanes ∧ 0 < options.schedule.totalCycleSlots := by
  unfold CoverScheduler.new at h
  obtain ⟨_, hvalid, -⟩ := except_bind_eq_ok.mp h
  have hschedule := validateCoverSchedule_ok hvalid
  exact ⟨hschedule.lanes, Nat.mul_pos hschedule.slots hschedule.epochs⟩

/-- A new scheduler shows the initial timeline. -/
theorem new_related (h : CoverScheduler.new options = .ok s) :
    Related options cellLength s Timeline.initial := by
  unfold CoverScheduler.new at h
  obtain ⟨_, -, h⟩ := except_bind_eq_ok.mp h
  obtain ⟨_, -, h⟩ := except_bind_eq_ok.mp h
  cases h
  refine .inl ⟨⟨rfl, rfl, rfl, rfl, ?_, ?_, ?_, ?_⟩, .unarmed⟩
  · intro cycle hcycle
    cases hcycle
  · intro task htask
    exact absurd htask List.not_mem_nil
  · intro runtime hruntime
    exact absurd hruntime List.not_mem_nil
  · intro task htask
    exact absurd htask List.not_mem_nil

/-- Along every run of the timeline its cycles are in order and wait. -/
theorem timeline_runs (htotal : 0 < options.schedule.totalCycleSlots) (controls : List Control)
    (h : InOrder options cellLength t ∧ Waiting options cellLength t) :
    InOrder options cellLength (Timeline.runAll options cellLength controls t) ∧
      Waiting options cellLength (Timeline.runAll options cellLength controls t) := by
  induction controls generalizing t with
  | nil => exact h
  | cons control controls ih =>
    exact ih ⟨inOrder_step htotal control h.1, waiting_step htotal h.2 control⟩

/-- The lanes show the same in any two runs with the same control events, whatever the
jobs, and every cycle opens all its lanes and fills its slots. -/
theorem cover_schedule_independent {s₀ : CoverScheduler} (hnew : CoverScheduler.new options = .ok s₀)
    (hfactory : options.laneFactory.Reliable) {events₁ events₂ : List Event}
    (hallowed₁ : Throughout options (Event.Allowed options cellLength) events₁ s₀)
    (hallowed₂ : Throughout options (Event.Allowed options cellLength) events₂ s₀)
    (hprompt₁ : Throughout options Event.Prompt events₁ s₀)
    (hprompt₂ : Throughout options Event.Prompt events₂ s₀)
    (hcontrols : events₁.filterMap Event.control? = events₂.filterMap Event.control?)
    (hrested₁ : (runAll options events₁ s₀).Rested) (hrested₂ : (runAll options events₂ s₀).Rested) :
    (runAll options events₁ s₀).seen = (runAll options events₂ s₀).seen ∧
      FillsCycle options cellLength (runAll options events₁ s₀) := by
  obtain ⟨hlanes, htotal⟩ := new_schedule hnew
  have hrelated := @new_related options cellLength s₀ hnew
  have hsettled₁ := (runs_simulate hfactory hlanes events₁ hrelated hallowed₁ hprompt₁).settled hrested₁
  have hsettled₂ := (runs_simulate hfactory hlanes events₂ hrelated hallowed₂ hprompt₂).settled hrested₂
  constructor
  · rw [hsettled₁.seen, hsettled₂.seen, hcontrols]
  · obtain ⟨hordered, hwaiting⟩ := @timeline_runs options cellLength Timeline.initial htotal
      (events₁.filterMap Event.control?) ⟨nofun, nofun⟩
    exact hsettled₁.fillsCycle hfactory hlanes hordered hwaiting

/-! ## A schedule of one slot -/

/-- One lane with one slot in a cycle of a second. -/
def oneSlot : CoverSchedulerOptions :=
  ⟨⟨0, 1000, 1, 1, 1⟩, ⟨fun _ _ => true, fun _ _ => true⟩, 10⟩

/-- The scheduler as its constructor leaves it. -/
def fresh : CoverScheduler := ⟨.stopped, false, 0, none, none, 0, .empty, [], []⟩

theorem oneSlot_new : CoverScheduler.new oneSlot = .ok fresh := by
  have hvalid : validateCoverSchedule oneSlot.schedule = .ok () := by
    have hsome : (validateCoverSchedule oneSlot.schedule).toOption = some () := by decide +kernel
    cases hrun : validateCoverSchedule oneSlot.schedule with
    | ok _ => rfl
    | error e =>
      rw [hrun] at hsome
      cases hsome
  unfold CoverScheduler.new
  rw [hvalid, ok_bind, demand_of (by decide +kernel)]
  rfl

theorem oneSlot_reliable : oneSlot.laneFactory.Reliable := fun _ _ => ⟨rfl, rfl⟩

/-- The slot of the first cycle, at a stage. -/
def firstSlot (jobSlot : Option CoverJobSlot) (stage : Stage) : SlotTask :=
  ⟨2, slotAt oneSlot.schedule ⟨0, 0, 1000⟩ 0, 0, jobSlot, stage⟩

def greeting : CoverJob := ⟨[0x67], .real, 1, none, false⟩

/-- The first cycle opens and the timer of its slot fires. -/
def untilSlot : List Event := [.control (.start 0), .control (.timer 0), .control (.timer 500)]

/-- A dummy fills the slot. -/
def idleRun : List Event :=
  untilSlot ++ [.produced (firstSlot none (.makeDummy none)) (.ok (some [0])) 501]

/-- The cell of a job fills the slot. -/
def busyRun : List Event :=
  .enqueue greeting :: untilSlot ++ [.produced (firstSlot (some ⟨0, 0⟩) (.nextCell 0 greeting)) (.ok (some [7])) 505]

theorem idleRun_allowed : Throughout oneSlot (Event.Allowed oneSlot 1) idleRun fresh := by
  refine ⟨trivial, ?_, ?_, ⟨.inl ⟨[0], rfl, rfl⟩, fun _ => ?_⟩, trivial⟩
  · show (runAll oneSlot (idleRun.take 1) fresh).timer.isSome = true
    decide +kernel
  · show (runAll oneSlot (idleRun.take 2) fresh).timer.isSome = true
    decide +kernel
  · decide +kernel

theorem busyRun_allowed : Throughout oneSlot (Event.Allowed oneSlot 1) busyRun fresh := by
  refine ⟨trivial, trivial, ?_, ?_, ⟨.inl ⟨[7], rfl, rfl⟩, fun _ => ?_⟩, trivial⟩
  · show (runAll oneSlot (busyRun.take 2) fresh).timer.isSome = true
    decide +kernel
  · show (runAll oneSlot (busyRun.take 3) fresh).timer.isSome = true
    decide +kernel
  · decide +kernel

theorem cover_schedule_independent_idle_busy :
    (runAll oneSlot idleRun fresh).seen = (runAll oneSlot busyRun fresh).seen ∧
      FillsCycle oneSlot 1 (runAll oneSlot idleRun fresh) :=
  cover_schedule_independent oneSlot_new oneSlot_reliable idleRun_allowed busyRun_allowed
    ⟨trivial, trivial, trivial, trivial, trivial⟩
    ⟨trivial, trivial, trivial, trivial, trivial, trivial⟩ rfl (by decide +kernel) (by decide +kernel)

/-- The slot of a dummy is filled before `suspend`, and the cell of a job, produced in
time, comes after it: what the lanes show depends on the job, and the cycle does not
fill its slot. -/
theorem suspend_drops_cell :
    CoverScheduler.new oneSlot = .ok fresh ∧ oneSlot.laneFactory.Reliable ∧
      ∃ events₁ events₂, Throughout oneSlot (Event.Allowed oneSlot 1) events₁ fresh ∧
        Throughout oneSlot (Event.Allowed oneSlot 1) events₂ fresh ∧
        events₁.filterMap Event.control? = events₂.filterMap Event.control? ∧
        (runAll oneSlot events₁ fresh).Rested ∧ (runAll oneSlot events₂ fresh).Rested ∧
        (runAll oneSlot events₁ fresh).seen ≠ (runAll oneSlot events₂ fresh).seen := by
  refine ⟨oneSlot_new, oneSlot_reliable, idleRun ++ [.control (.suspend 502)],
    .enqueue greeting :: untilSlot ++ [.control (.suspend 502),
      .produced (firstSlot (some ⟨0, 0⟩) (.nextCell 0 greeting)) (.ok (some [7])) 505], ?_, ?_, rfl, ?_, ?_, ?_⟩
  · obtain ⟨h₁, h₂, h₃, h₄, -⟩ := idleRun_allowed
    exact ⟨h₁, h₂, h₃, h₄, trivial, trivial⟩
  · obtain ⟨h₁, h₂, h₃, h₄, ⟨hcell, -⟩, -⟩ := busyRun_allowed
    refine ⟨h₁, h₂, h₃, h₄, trivial, ⟨hcell, fun _ => ?_⟩, trivial⟩
    decide +kernel
  · decide +kernel
  · decide +kernel
  · decide +kernel

end Cover

end P2Party
