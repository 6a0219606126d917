import P2Party.Base.Runs
import Mathlib.Algebra.BigOperators.Group.List.Basic
import Mathlib.Algebra.Ring.Nat
import Mathlib.Data.List.Nodup
import Mathlib.Data.List.Perm.Subperm
import Mathlib.Tactic.Common

/-!
# Locks that serve in order

What a lock is for, whatever it is made of: callers are served one at a time, in the order in
which they came. For each key there are three lists of calls, those that were made, those whose
operation has started and those whose operation has ended, each in the order in which it
happened. A lock is fair when each list is a start of the one before it and at most one call is
in the second and not in the third.

- `Service`, `Service.Fair`: the lists of a key, and what holds of them;
- `Fair.call`, `Fair.start`, `Fair.finish`: what may happen to them;
- `Fair.next`: the first call that waits is the one before which all have ended;
- `serviceOf`: the lists of a key, out of logs of all calls;
- `Locking`, `Locking.IsFifoMutex`: a system that locks, and what is asked of it.
-/

namespace Base

/-- The calls of one key that were made, that have started, and that have ended. -/
structure Service where
  called : List Nat
  started : List Nat
  ended : List Nat

namespace Service

/-- The calls whose operation runs. -/
def running (s : Service) : List Nat := s.started.drop s.ended.length

/-- The calls that wait. -/
def waiting (s : Service) : List Nat := s.called.drop s.started.length

/-- One at a time, in the order of the calls. -/
structure Fair (s : Service) : Prop where
  distinct : s.called.Nodup
  inOrder : s.started <+: s.called
  ended : s.ended <+: s.started
  one : s.started.length ≤ s.ended.length + 1

variable {s : Service}

theorem fair_empty : Fair ⟨[], [], []⟩ where
  distinct := List.nodup_nil
  inOrder := List.nil_prefix
  ended := List.nil_prefix
  one := Nat.zero_le _

/-- Nothing runs. -/
theorem fair_of_idle (hdistinct : s.called.Nodup) (hidle : s.started = s.ended)
    (hended : s.ended <+: s.called) : s.Fair where
  distinct := hdistinct
  inOrder := hidle ▸ hended
  ended := hidle ▸ List.prefix_rfl
  one := hidle ▸ Nat.le_succ _

/-- The calls that have ended, the one that runs, and those that wait, are all. -/
theorem Fair.split (h : s.Fair) : s.called = s.ended ++ s.running ++ s.waiting := by
  obtain ⟨run, hrun⟩ := h.ended
  obtain ⟨wait, hwait⟩ := h.inOrder
  rw [running, waiting, ← hwait, ← hrun, List.drop_left, List.drop_left]

theorem Fair.started_eq (h : s.Fair) : s.started = s.ended ++ s.running := by
  obtain ⟨run, hrun⟩ := h.ended
  rw [running, ← hrun, List.drop_left]

/-- At most one call runs. -/
theorem Fair.length_running (h : s.Fair) : s.running.length ≤ 1 := by
  have := h.one
  rw [running, List.length_drop]
  omega

/-- When nothing runs, what has started has ended. -/
theorem Fair.ended_eq_started (h : s.Fair) (hidle : s.running = []) : s.ended = s.started := by
  rw [h.started_eq, hidle, List.append_nil]

/-- All calls have ended when every call is among those that have. -/
theorem Fair.ended_eq_called_of_subset (h : s.Fair) (hall : ∀ t ∈ s.called, t ∈ s.ended) :
    s.ended = s.called := by
  have hpre : s.ended <+: s.called := h.ended.trans h.inOrder
  refine hpre.eq_of_length_le ?_
  exact (List.subperm_of_subset h.distinct hall).length_le

/-! ## What may happen -/

/-- A new call is the last. -/
theorem Fair.call (h : s.Fair) {t : Nat} (hnew : t ∉ s.called) :
    Fair ⟨s.called ++ [t], s.started, s.ended⟩ where
  distinct := List.nodup_append.mpr ⟨h.distinct, List.nodup_singleton t, fun a ha b hb => by
    rintro rfl
    exact hnew (List.mem_singleton.mp hb ▸ ha)⟩
  inOrder := h.inOrder.trans (List.prefix_append _ _)
  ended := h.ended
  one := h.one

/-- A call starts when nothing runs and it is next. -/
theorem Fair.start (h : s.Fair) {t : Nat} (hidle : s.ended = s.started)
    (hnext : s.started ++ [t] <+: s.called) : Fair ⟨s.called, s.started ++ [t], s.ended⟩ where
  distinct := h.distinct
  inOrder := hnext
  ended := hidle ▸ List.prefix_append _ _
  one := by rw [List.length_append, hidle]; exact Nat.le_refl _

/-- A call that runs ends. -/
theorem Fair.finish (h : s.Fair) {t : Nat} (ht : t ∈ s.started) (hnew : t ∉ s.ended) :
    Fair ⟨s.called, s.started, s.ended ++ [t]⟩ := by
  have hstarted : s.started = s.ended ++ [t] := by
    rw [h.started_eq, List.mem_append] at ht
    have hrun : t ∈ s.running := ht.resolve_left hnew
    have hone : s.running = [t] := by
      match hr : s.running, h.length_running with
      | [], _ => rw [hr] at hrun; exact absurd hrun List.not_mem_nil
      | [x], _ =>
        rw [hr, List.mem_singleton] at hrun
        rw [hrun]
      | _ :: _ :: _, hlen => exact absurd hlen (by simp)
    rw [h.started_eq, hone]
  constructor
  · exact h.distinct
  · exact h.inOrder
  · show s.ended ++ [t] <+: s.started
    exact hstarted ▸ List.prefix_rfl
  · show s.started.length ≤ (s.ended ++ [t]).length + 1
    rw [hstarted]
    exact Nat.le_succ _

/-- Calls are numbered as they come. A call that has not started, and before which all have ended,
is the next one, and nothing runs. -/
theorem Fair.next (h : s.Fair) (hasc : s.called.Pairwise (· < ·)) {t : Nat} (ht : t ∈ s.called)
    (hnew : t ∉ s.started) (hbelow : ∀ u ∈ s.called, u < t → u ∈ s.ended) :
    s.ended = s.started ∧ s.started ++ [t] <+: s.called := by
  obtain ⟨wait, hwait⟩ := h.inOrder
  rw [← hwait, List.pairwise_append] at hasc
  obtain ⟨-, hascWait, hacross⟩ := hasc
  have htwait : t ∈ wait := by
    rw [← hwait, List.mem_append] at ht
    exact ht.resolve_left hnew
  have hstarted : ∀ u ∈ s.started, u ∈ s.ended := fun u hu =>
    hbelow u (h.inOrder.subset hu) (hacross u hu t htwait)
  constructor
  · refine h.ended.eq_of_length_le ?_
    have hnodup : s.started.Nodup := h.distinct.sublist h.inOrder.sublist
    exact (List.subperm_of_subset hnodup hstarted).length_le
  · -- a call that waits before `t` would have ended without having started
    cases wait with
    | nil => exact absurd htwait List.not_mem_nil
    | cons first rest =>
      rcases List.mem_cons.mp htwait with rfl | hrest
      · rw [← hwait]
        exact ⟨rest, by simp⟩
      · have hlt : first < t := (List.pairwise_cons.mp hascWait).1 t hrest
        have hmem : first ∈ s.started ++ first :: rest := by simp
        have hend : first ∈ s.ended := hbelow first (hwait ▸ hmem) hlt
        exact absurd (hacross first (h.ended.subset hend) first List.mem_cons_self)
          (Nat.lt_irrefl _)

end Service

/-! ## Calls with keys -/

section Keys

variable {κ : Type} [DecidableEq κ]

/-- The calls of one key, where `keys` has the key of every call. -/
def serviceOf (keys : List κ) (started ended : List Nat) (k : κ) : Service where
  called := (List.range keys.length).filter fun t => keys[t]? == some k
  started := started.filter fun t => keys[t]? == some k
  ended := ended.filter fun t => keys[t]? == some k

variable {keys : List κ} {started ended : List Nat} {k : κ}

theorem serviceOf_ascending : (serviceOf keys started ended k).called.Pairwise (· < ·) :=
  List.pairwise_lt_range.filter _

theorem mem_serviceOf_called {t : Nat} : t ∈ (serviceOf keys started ended k).called ↔ keys[t]? = some k := by
  rw [serviceOf, List.mem_filter, List.mem_range, beq_iff_eq]
  exact ⟨And.right, fun h => ⟨(List.getElem?_eq_some_iff.mp h).1, h⟩⟩

theorem mem_serviceOf_started {t : Nat} :
    t ∈ (serviceOf keys started ended k).started ↔ t ∈ started ∧ keys[t]? = some k := by
  rw [serviceOf, List.mem_filter, beq_iff_eq]

theorem mem_serviceOf_ended {t : Nat} :
    t ∈ (serviceOf keys started ended k).ended ↔ t ∈ ended ∧ keys[t]? = some k := by
  rw [serviceOf, List.mem_filter, beq_iff_eq]

/-- A log of one key grows when the call has that key. -/
theorem filter_log (log : List Nat) {t : Nat} {k' : κ} (h : keys[t]? = some k') (k : κ) :
    (log ++ [t]).filter (fun t => keys[t]? == some k) =
      if k' = k then log.filter (fun t => keys[t]? == some k) ++ [t]
      else log.filter fun t => keys[t]? == some k := by
  have hself : (keys[t]? == some k) = decide (k' = k) := by
    rw [h]
    exact Bool.eq_iff_iff.mpr (by simp)
  rw [List.filter_append, List.filter_cons, List.filter_nil, hself]
  by_cases hk : k' = k
  · rw [if_pos hk, if_pos (decide_eq_true hk)]
  · rw [if_neg hk, if_neg (fun h => hk (of_decide_eq_true h)), List.append_nil]

/-- The calls of a key after one more. -/
theorem serviceOf_call (hstarted : ∀ t ∈ started, t < keys.length) (hended : ∀ t ∈ ended, t < keys.length)
    (k' k : κ) : serviceOf (keys ++ [k']) started ended k =
      if k' = k then
        ⟨(serviceOf keys started ended k).called ++ [keys.length], (serviceOf keys started ended k).started,
          (serviceOf keys started ended k).ended⟩
      else serviceOf keys started ended k := by
  have hold : ∀ t, t < keys.length → ((keys ++ [k'])[t]? == some k) = (keys[t]? == some k) := by
    intro t ht
    rw [List.getElem?_append_left ht]
  have hlogs : ∀ log : List Nat, (∀ t ∈ log, t < keys.length) →
      log.filter (fun t => (keys ++ [k'])[t]? == some k) = log.filter fun t => keys[t]? == some k :=
    fun log hlog => List.filter_congr fun t ht => hold t (hlog t ht)
  have hnew : (keys ++ [k'])[keys.length]? = some k' := List.getElem?_concat_length
  rw [serviceOf, hlogs started hstarted, hlogs ended hended, List.length_append, List.length_singleton,
    List.range_succ, filter_log _ hnew, hlogs _ fun t ht => List.mem_range.mp ht]
  by_cases hk : k' = k
  · rw [if_pos hk, if_pos hk]
    rfl
  · rw [if_neg hk, if_neg hk]
    rfl

/-- A call starts: the calls of its key. -/
theorem serviceOf_start {t : Nat} {k' : κ} (h : keys[t]? = some k') (k : κ) :
    serviceOf keys (started ++ [t]) ended k =
      if k' = k then
        ⟨(serviceOf keys started ended k).called, (serviceOf keys started ended k).started ++ [t],
          (serviceOf keys started ended k).ended⟩
      else serviceOf keys started ended k := by
  rw [serviceOf, filter_log started h]
  by_cases hk : k' = k
  · rw [if_pos hk, if_pos hk]
    rfl
  · rw [if_neg hk, if_neg hk]
    rfl

/-- A call ends: the calls of its key. -/
theorem serviceOf_end {t : Nat} {k' : κ} (h : keys[t]? = some k') (k : κ) :
    serviceOf keys started (ended ++ [t]) k =
      if k' = k then
        ⟨(serviceOf keys started ended k).called, (serviceOf keys started ended k).started,
          (serviceOf keys started ended k).ended ++ [t]⟩
      else serviceOf keys started ended k := by
  rw [serviceOf, filter_log ended h]
  by_cases hk : k' = k
  · rw [if_pos hk, if_pos hk]
    rfl
  · rw [if_neg hk, if_neg hk]
    rfl

end Keys

section Items

variable {α β : Type} {items : List α} {i : Nat} {x : α}

/-- An item is replaced. -/
theorem getElem?_replaced (y : α) (hx : items[i]? = some x) (j : Nat) :
    (items.set i y)[j]? = if j = i then some y else items[j]? := by
  rw [List.getElem?_set]
  by_cases hj : i = j
  · subst hj
    rw [if_pos rfl, if_pos rfl, if_pos (List.getElem?_eq_some_iff.mp hx).1]
  · rw [if_neg hj, if_neg (Ne.symm hj)]

/-- An item is put behind the others. -/
theorem getElem?_pushed (y : α) (j : Nat) :
    (items ++ [y])[j]? = if j = items.length then some y else items[j]? := by
  by_cases hj : j = items.length
  · rw [if_pos hj, hj, List.getElem?_concat_length]
  · rw [if_neg hj]
    rcases Nat.lt_or_gt_of_ne hj with hlt | hgt
    · exact List.getElem?_append_left hlt
    · rw [List.getElem?_eq_none (by rw [List.length_append]; exact hgt),
        List.getElem?_eq_none (Nat.le_of_lt hgt)]

/-- What an item and its replacement have in common. -/
theorem map_replaced (f : α → β) {y : α} (hx : items[i]? = some x) (h : f y = f x) :
    (items.set i y).map f = items.map f := by
  apply List.ext_getElem?
  intro j
  rw [List.getElem?_map, List.getElem?_map, getElem?_replaced y hx]
  by_cases hj : j = i
  · rw [if_pos hj, hj, hx, Option.map_some, Option.map_some, h]
  · rw [if_neg hj]

/-- An item is replaced by one that weighs less. -/
theorem sum_map_set_lt {weight : α → Nat} {y : α} (hx : items[i]? = some x) (h : weight y < weight x) :
    ((items.set i y).map weight).sum < (items.map weight).sum := by
  induction items generalizing i with
  | nil => cases hx
  | cons first rest ih =>
    cases i with
    | zero =>
      obtain rfl := Option.some.inj hx
      exact Nat.add_lt_add_right h _
    | succ i => exact Nat.add_lt_add_left (ih hx) _

end Items

/-! ## Systems that lock -/

/-- A system that locks: what it does with its events, which of these happen by themselves, and
what its callers see of it. `ρ` is how an operation ends. -/
structure Locking (σ ε κ ρ : Type) where
  start : σ
  step : ε → σ → σ
  reaction : ε → Bool
  ends : Nat → ρ → ε
  service : σ → κ → Service
  result : σ → Nat → Option ρ
  entry : σ → κ → Bool

/-- What is asked of a lock, in every state it reaches:

- `fair`: at most one operation of a key runs, and they start and end in the order of the calls;
- `own`: a call gives what its own operation has given;
- `live`: once nothing more happens by itself, some call of a key runs if any waits;
- `settles`: that time comes;
- `absent`: without an entry, no call of the key runs or waits. -/
structure Locking.IsFifoMutex {σ ε κ ρ : Type} (L : Locking σ ε κ ρ) : Prop where
  fair : ∀ events k, (L.service (runs L.step events L.start) k).Fair
  own : ∀ events t r, L.result (runs L.step events L.start) t = some r → L.ends t r ∈ events
  live : ∀ events k,
    (∀ event, L.reaction event = true →
      L.step event (runs L.step events L.start) = runs L.step events L.start) →
    (L.service (runs L.step events L.start) k).waiting ≠ [] →
    (L.service (runs L.step events L.start) k).running ≠ []
  settles : ∃ left : σ → Nat, ∀ s event, L.reaction event = true →
    L.step event s = s ∨ left (L.step event s) < left s
  absent : ∀ events k, L.entry (runs L.step events L.start) k = false →
    (L.service (runs L.step events L.start) k).ended =
      (L.service (runs L.step events L.start) k).called

/-- A result is there only once the operation of the call has ended with it. -/
theorem ends_mem_of_result {σ ε ρ : Type} {step : ε → σ → σ} {I : σ → Prop} {result : σ → Nat → Option ρ}
    {ends : Nat → ρ → ε} (hstep : ∀ event s, I s → I (step event s))
    (hresult : ∀ event s t r, I s → result (step event s) t = some r → result s t = some r ∨ event = ends t r)
    (events : List ε) {s : σ} (hs : I s) {t : Nat} {r : ρ}
    (h : result (runs step events s) t = some r) : result s t = some r ∨ ends t r ∈ events := by
  induction events generalizing s with
  | nil => exact Or.inl h
  | cons event events ih =>
    rcases ih (hstep event s hs) h with hfirst | hlater
    · rcases hresult event s t r hs hfirst with hold | rfl
      · exact Or.inl hold
      · exact Or.inr List.mem_cons_self
    · exact Or.inr (List.mem_cons_of_mem _ hlater)

/-- When nothing runs, the first call that waits is after all that have ended. -/
theorem Service.Fair.first_waiting {s : Service} (h : s.Fair) (hasc : s.called.Pairwise (· < ·))
    (hidle : s.running = []) (hwait : s.waiting ≠ []) :
    ∃ t ∈ s.called, t ∉ s.started ∧ ∀ u ∈ s.called, u < t → u ∈ s.ended := by
  obtain ⟨t, rest, hcons⟩ := List.exists_cons_of_ne_nil hwait
  have hsplit : s.called = s.ended ++ t :: rest := by
    rw [h.split, hidle, List.append_nil, hcons]
  have hended := h.ended_eq_started hidle
  rw [hsplit, List.pairwise_append] at hasc
  obtain ⟨-, hascWait, hacross⟩ := hasc
  refine ⟨t, by rw [hsplit]; simp, fun hmem => ?_, fun u hu hlt => ?_⟩
  · rw [← hended] at hmem
    exact absurd (hacross t hmem t List.mem_cons_self) (Nat.lt_irrefl t)
  · rw [hsplit, List.mem_append] at hu
    rcases hu with hu | hu
    · exact hu
    · rcases List.mem_cons.mp hu with rfl | hu
      · exact absurd hlt (Nat.lt_irrefl _)
      · exact absurd hlt (Nat.not_lt.mpr (Nat.le_of_lt ((List.pairwise_cons.mp hascWait).1 u hu)))

end Base
