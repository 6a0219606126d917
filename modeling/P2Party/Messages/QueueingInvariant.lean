import P2Party.Messages.Queueing
import Mathlib.Algebra.Order.BigOperators.Group.List
import Mathlib.Algebra.Order.Group.Nat

/-!
# What holds of the inbound queues

While a queue is worked on, its counters, the lock and its own fields are changed one after the
other. `Working s i lane` is what holds of everything else meanwhile, with `lane` as what the
queue `i` is about to be; `LaneOk` is what holds of a queue that is left alone.

- `Working.change`, `Working.acquire`, `Working.letGo`: the pieces of a step;
- `Ok`, `Ok.step`, `ok_runs`: the invariant of all queues;
- `inbound_queues`: the counters are exact and bounded, handlers exclude each other, nothing
  accepted is lost or handled twice, and an edge that is found quiescent is.
-/

namespace P2Party

open Base

namespace Queueing

variable {s : Inbound} {i : Nat} {lane lane' : Lane} {kind : Kind} {data item : Bytes}

/-! ## Taking an item -/

theorem take_eq_none {queue : List Bytes} (h : kind.take queue = none) : queue = [] := by
  cases kind with
  | frames => simpa [Kind.take] using h
  | receipts =>
    cases queue with
    | nil => rfl
    | cons first rest => cases h

theorem take_perm {queue rest : List Bytes} (h : kind.take queue = some (item, rest)) :
    queue.Perm (item :: rest) := by
  cases kind with
  | frames =>
    simp only [Kind.take, Option.map_eq_some_iff, Prod.mk.injEq] at h
    obtain ⟨last, hlast, rfl, rfl⟩ := h
    have hqueue : queue.dropLast ++ [last] = queue := List.dropLast_append_getLast? last hlast
    have hperm : (queue.dropLast ++ [last]).Perm ([last] ++ queue.dropLast) := List.perm_append_comm
    rwa [hqueue] at hperm
  | receipts =>
    cases queue with
    | nil => cases h
    | cons first tail =>
      cases h
      exact List.Perm.refl _

/-! ## Sums over the queues -/

/-- What a queue adds to a counter. -/
def share (kind : Kind) (k : JsString) (lane : Lane) : Nat :=
  if kind = lane.kind ∧ k = lane.key then lane.load else 0

/-- A sum over a list of which one element has changed. -/
theorem sum_map_set {α : Type} (f : α → Nat) {l : List α} {n : Nat} {a b : α}
    (h : l[n]? = some a) : ((l.set n b).map f).sum + f a = (l.map f).sum + f b := by
  induction l generalizing n with
  | nil => cases h
  | cons x l ih =>
    cases n with
    | zero =>
      cases h
      simp only [List.set_cons_zero, List.map_cons, List.sum_cons]
      omega
    | succ n =>
      have hrest := ih h
      simp only [List.set_cons_succ, List.map_cons, List.sum_cons]
      omega

theorem le_sum_map_of_mem {α : Type} (f : α → Nat) {l : List α} {n : Nat} {a : α}
    (h : l[n]? = some a) : f a ≤ (l.map f).sum :=
  List.single_le_sum (by simp) (f a) (List.mem_map_of_mem (List.mem_of_getElem? h))

/-! ## The invariant -/

/-- What holds of a queue that is left alone. -/
structure LaneOk (lock : PromiseLock JsString) (lane : Lane) : Prop where
  short : lane.queue.length ≤ lane.kind.perQueue
  nonempty : ∀ f ∈ lane.queue, f ≠ []
  fate : lane.accepted.Perm (lane.queue ++ (lane.inFlight ++ (lane.handled ++ lane.dropped)))
  known : ∀ k ∈ lane.seen, ∃ f ∈ lane.accepted, k32 f = k
  emptied : lane.released = true → lane.queue = []
  draining : lane.draining = true ↔ lane.drain ≠ .idle
  moving : lane.queue ≠ [] → lane.halted = false → lane.draining = true
  ticket : ∀ item t, lane.drain = .locked item t →
    ∃ x, lock.ticket t = some x ∧ x.key = lane.key ∧ x.hold ≠ .released

/-- What holds while the queue `i` is worked on and about to be `lane`. -/
structure Working (s : Inbound) (i : Nat) (lane : Lane) : Prop where
  lock : s.lock.Ok
  bound : i < s.lanes.length
  counted : ∀ kind k, s.queued kind k = ((s.lanes.set i lane).map (share kind k)).sum
  bounded : ∀ kind k, s.queued kind k ≤ kind.perEdge
  others : ∀ j other, j ≠ i → s.lanes[j]? = some other → LaneOk s.lock other
  apart : ∀ j j' other other' f f' t, j ≠ i → j' ≠ i → s.lanes[j]? = some other →
    s.lanes[j']? = some other' → other.drain = .locked f t → other'.drain = .locked f' t → j = j'
  own : ∀ j other f f' t, j ≠ i → s.lanes[j]? = some other → other.drain = .locked f t →
    lane.drain ≠ .locked f' t

/-- What holds of all queues between two events. -/
structure Ok (s : Inbound) : Prop where
  lock : s.lock.Ok
  counted : ∀ kind k, s.queued kind k = (s.lanes.map (share kind k)).sum
  bounded : ∀ kind k, s.queued kind k ≤ kind.perEdge
  lane : ∀ (j : Nat) (other : Lane), s.lanes[j]? = some other → LaneOk s.lock other
  apart : ∀ (j j' : Nat) (other other' : Lane) f f' t, s.lanes[j]? = some other →
    s.lanes[j']? = some other' → other.drain = .locked f t → other'.drain = .locked f' t → j = j'

theorem set_self_of_getElem? {l : List Lane} (h : l[i]? = some lane) : l.set i lane = l := by
  obtain ⟨hlt, hget⟩ := List.getElem?_eq_some_iff.mp h
  rw [← hget, List.set_getElem_self]

theorem Ok.working (h : Ok s) (hi : s.lanes[i]? = some lane) : Working s i lane where
  lock := h.lock
  bound := (List.getElem?_eq_some_iff.mp hi).1
  counted kind k := by rw [set_self_of_getElem? hi, h.counted]
  bounded := h.bounded
  others j other _ hj := h.lane j other hj
  apart j j' other other' f f' t _ _ := h.apart j j' other other' f f' t
  own j other f f' t hne hj hf hf' := hne (h.apart j i other lane f f' t hj hi hf hf')

/-- The queue is kept. -/
theorem Working.put (h : Working s i lane) (hlane : LaneOk s.lock lane) : Ok (s.put i lane) := by
  have hself : (s.lanes.set i lane)[i]? = some lane := List.getElem?_set_self h.bound
  have hother : ∀ {j}, j ≠ i → (s.lanes.set i lane)[j]? = s.lanes[j]? :=
    fun hne => List.getElem?_set_ne (Ne.symm hne)
  refine ⟨h.lock, h.counted, h.bounded, ?_, ?_⟩
  · intro j other hj
    by_cases hne : j = i
    · subst hne
      cases hself.symm.trans hj
      exact hlane
    · exact h.others j other hne ((hother hne).symm.trans hj)
  · intro j j' other other' f f' t hj hj' hf hf'
    by_cases hne : j = i
    · subst hne
      cases hself.symm.trans hj
      by_cases hne' : j' = j
      · exact hne'.symm
      · exact absurd hf (h.own j' other' f' f t hne' ((hother hne').symm.trans hj') hf')
    · by_cases hne' : j' = i
      · subst hne'
        cases hself.symm.trans hj'
        exact absurd hf' (h.own j other f f' t hne ((hother hne).symm.trans hj) hf)
      · exact h.apart j j' other other' f f' t hne hne' ((hother hne).symm.trans hj)
          ((hother hne').symm.trans hj') hf hf'

/-- The queue changes, and its counter with it. -/
theorem Working.change (h : Working s i lane) {delta : Int} (hkind : lane'.kind = lane.kind)
    (hkey : lane'.key = lane.key) (hload : (lane'.load : Int) = lane.load + delta)
    (hbound : (s.queued lane.kind lane.key : Int) + delta ≤ lane.kind.perEdge)
    (hdrain : ∀ f t, lane'.drain = .locked f t → ∃ f', lane.drain = .locked f' t) :
    Working (s.adjust lane delta) i lane' := by
  have hself : (s.lanes.set i lane)[i]? = some lane := List.getElem?_set_self h.bound
  refine ⟨h.lock, h.bound, ?_, ?_, h.others, h.apart, ?_⟩
  · intro kind k
    have hsum := @sum_map_set _ (share kind k) _ _ _ lane' hself
    rw [List.set_set, ← h.counted kind k] at hsum
    show (if kind = lane.kind ∧ k = lane.key then _ else s.queued kind k) =
      ((s.lanes.set i lane').map (share kind k)).sum
    by_cases hown : kind = lane.kind ∧ k = lane.key
    · have hown' : kind = lane'.kind ∧ k = lane'.key := by rwa [hkind, hkey]
      rw [share, share, if_pos hown, if_pos hown'] at hsum
      rw [if_pos hown]
      have hnonneg : lane.load ≤ s.queued kind k := by
        rw [h.counted kind k]
        have := le_sum_map_of_mem (share kind k) hself
        rwa [share, if_pos hown] at this
      omega
    · have hown' : ¬ (kind = lane'.kind ∧ k = lane'.key) := by rwa [hkind, hkey]
      rw [share, share, if_neg hown, if_neg hown'] at hsum
      rw [if_neg hown]
      omega
  · intro kind k
    show (if kind = lane.kind ∧ k = lane.key then _ else _) ≤ _
    by_cases hown : kind = lane.kind ∧ k = lane.key
    · rw [if_pos hown]
      obtain ⟨rfl, rfl⟩ := hown
      omega
    · rw [if_neg hown]
      exact h.bounded kind k
  · intro j other f f' t hne hj hf hf'
    obtain ⟨f'', hf''⟩ := hdrain f' t hf'
    exact h.own j other f f'' t hne hj hf hf''

theorem adjust_zero : s.adjust lane 0 = s := by
  have hqueued : (fun kind k => if kind = lane.kind ∧ k = lane.key then
      (max 0 ((s.queued kind k : Int) + 0)).toNat else s.queued kind k) = s.queued := by
    funext kind k
    split
    · omega
    · rfl
  show ({ s with queued := _ } : Inbound) = s
  rw [hqueued]

/-- The queue changes in what no counter reads. -/
theorem Working.same (h : Working s i lane) (hkind : lane'.kind = lane.kind)
    (hkey : lane'.key = lane.key) (hload : lane'.load = lane.load)
    (hdrain : ∀ f t, lane'.drain = .locked f t → ∃ f', lane.drain = .locked f' t) :
    Working s i lane' := by
  have hload' : (lane'.load : Int) = lane.load + 0 := by omega
  have hbound : (s.queued lane.kind lane.key : Int) + 0 ≤ lane.kind.perEdge := by
    have := h.bounded lane.kind lane.key
    omega
  have hchange := h.change hkind hkey hload' hbound hdrain
  rwa [adjust_zero] at hchange

theorem LaneOk.lock_mono {lock lock' : PromiseLock JsString} (h : LaneOk lock lane)
    (hlock : ∀ f t x, lane.drain = .locked f t → lock.ticket t = some x → x.hold ≠ .released →
      ∃ y, lock'.ticket t = some y ∧ y.key = x.key ∧ y.hold ≠ .released) : LaneOk lock' lane := by
  refine ⟨h.short, h.nonempty, h.fate, h.known, h.emptied, h.draining, h.moving, fun f t hf => ?_⟩
  obtain ⟨x, hx, hkey, hheld⟩ := h.ticket f t hf
  obtain ⟨y, hy, hykey, hyheld⟩ := hlock f t x hf hx hheld
  exact ⟨y, hy, hykey.trans hkey, hyheld⟩

/-- The loop takes a ticket for its item. -/
theorem Working.acquire (h : Working s i lane) :
    Working { s with lock := s.lock.acquire lane.key } i
      { lane with drain := .locked item s.lock.issued } := by
  refine ⟨h.lock.acquire lane.key, h.bound, ?_, h.bounded, ?_, h.apart, ?_⟩
  · intro kind k
    rw [h.counted kind k, List.map_set, List.map_set]
    rfl
  · intro j other hne hj
    exact (h.others j other hne hj).lock_mono fun f t x _ hx hheld =>
      ⟨x, PromiseLock.acquire_held lane.key h.lock hx, rfl, hheld⟩
  · rintro j other f f' t hne hj hf ⟨⟩
    obtain ⟨x, hx, -⟩ := (h.others j other hne hj).ticket f _ hf
    exact absurd (h.lock.issued _ x hx) (Nat.lt_irrefl _)

/-- The ticket of the item is let go. -/
theorem Working.letGo (h : Working s i lane) {t : Nat} (hdrain : lane.drain = .locked item t) :
    Working { s with lock := s.lock.letGo t } i lane := by
  refine ⟨h.lock.letGo t, h.bound, h.counted, h.bounded, ?_, h.apart, h.own⟩
  intro j other hne hj
  refine (h.others j other hne hj).lock_mono fun f u x hf hx hheld => ⟨x, ?_, rfl, hheld⟩
  have hut : u ≠ t := by
    rintro rfl
    exact h.own j other f item u hne hj hf hdrain
  rwa [PromiseLock.letGo_ticket_of_ne hut]

/-! ## The loop -/

/-- What holds of a queue whose loop is about to take an item. -/
structure Ready (lane : Lane) : Prop where
  short : lane.queue.length ≤ lane.kind.perQueue
  nonempty : ∀ f ∈ lane.queue, f ≠ []
  fate : lane.accepted.Perm (lane.queue ++ (lane.handled ++ lane.dropped))
  known : ∀ k ∈ lane.seen, ∃ f ∈ lane.accepted, k32 f = k
  emptied : lane.released = true → lane.queue = []

/-- Without an item in flight a queue is ready. -/
theorem LaneOk.ready {lock : PromiseLock JsString} (h : LaneOk lock lane)
    (hflight : lane.inFlight = []) : Ready lane := by
  refine ⟨h.short, h.nonempty, ?_, h.known, h.emptied⟩
  have hfate := h.fate
  rwa [hflight, List.nil_append] at hfate

/-- A ready queue may be left alone when its loop has ended. -/
theorem Ready.stopped (h : Ready lane) (lock : PromiseLock JsString)
    (hend : lane.queue ≠ [] → lane.halted = false → False) : LaneOk lock lane.stopped where
  short := h.short
  nonempty := h.nonempty
  fate := h.fate
  known := h.known
  emptied := h.emptied
  draining := by simp [Lane.stopped]
  moving hqueue hhalted := (hend hqueue hhalted).elim
  ticket item t h := nomatch h

theorem Working.stopped (h : Working s i lane) : Working s i lane.stopped :=
  h.same rfl rfl rfl fun _ _ hf => nomatch hf

/-- **The loop leaves the queue in order.** -/
theorem Working.drainLoop (h : Working s i lane) (hready : Ready lane)
    (hdraining : lane.draining = true) : Ok (s.drainLoop i lane) := by
  unfold Inbound.drainLoop
  by_cases hhalted : lane.halted = true
  · rw [if_pos hhalted]
    refine h.stopped.put (hready.stopped _ fun _ hno => ?_)
    rw [hhalted] at hno
    cases hno
  · rw [if_neg hhalted]
    cases htake : lane.kind.take lane.queue with
    | none => exact h.stopped.put (hready.stopped _ fun hne _ => hne (take_eq_none htake))
    | some taken =>
      obtain ⟨item, rest⟩ := taken
      have hperm := take_perm htake
      have hweight : lane.load = lane.kind.weight item + (rest.map lane.kind.weight).sum := by
        rw [Lane.load, (hperm.map lane.kind.weight).sum_eq, List.map_cons, List.sum_cons]
      have hworking : Working (s.adjust lane (-(lane.kind.weight item : Int))) i
          { lane with queue := rest, drain := .idle } := by
        refine h.change rfl rfl ?_ ?_ fun _ _ hf => nomatch hf
        · show ((rest.map lane.kind.weight).sum : Int) = _
          omega
        · have := h.bounded lane.kind lane.key
          omega
      have hlane : LaneOk ((s.adjust lane (-(lane.kind.weight item : Int))).lock.acquire lane.key)
          { lane with queue := rest, drain := .locked item s.lock.issued } := by
        refine ⟨?_, ?_, ?_, hready.known, fun hreleased => ?_, ?_, fun _ _ => hdraining, ?_⟩
        · exact Nat.le_trans (Nat.le_of_lt (by rw [hperm.length_eq]; exact Nat.lt_succ_self _))
            hready.short
        · exact fun f hf => hready.nonempty f (hperm.mem_iff.mpr (List.mem_cons_of_mem _ hf))
        · have hmoved : (lane.queue ++ (lane.handled ++ lane.dropped)).Perm
              (rest ++ ([item] ++ (lane.handled ++ lane.dropped))) := by
            refine (hperm.append_right _).trans ?_
            exact List.perm_middle.symm
          exact hready.fate.trans hmoved
        · exact absurd (by rw [Lane.halted, hreleased, Bool.true_or]) hhalted
        · exact ⟨fun _ => nofun, fun _ => hdraining⟩
        · rintro f t ⟨⟩
          exact ⟨_, PromiseLock.acquire_ticket_self lane.key, rfl, Hold.noConfusion⟩
      have hacquired := @Working.acquire _ i _ item hworking
      exact hacquired.put hlane

/-- A loop that does not run is started. -/
theorem Working.startDrain (h : Working s i lane) (hready : Ready lane)
    (hdraining : lane.draining = false) (hidle : lane.drain = .idle) : Ok (s.startDrain i lane) := by
  unfold Inbound.startDrain
  by_cases hhalted : lane.halted = true
  · rw [if_pos (by rw [hhalted, Bool.or_true])]
    refine h.put ⟨hready.short, hready.nonempty, ?_, hready.known, hready.emptied, ?_, fun _ hno => ?_, ?_⟩
    · rw [Lane.inFlight, hidle]
      exact hready.fate
    · simp [hdraining, hidle]
    · rw [hhalted] at hno
      cases hno
    · intro f t hf
      rw [hidle] at hf
      cases hf
  · rw [if_neg (by simpa [hdraining] using hhalted)]
    have hworking : Working s i { lane with draining := true } :=
      h.same rfl rfl rfl fun f t hf => ⟨f, hf⟩
    exact hworking.drainLoop
      ⟨hready.short, hready.nonempty, hready.fate, hready.known, hready.emptied⟩ rfl

/-! ## The events -/

theorem mem_remember {k : List Char} (h : k ∈ lane.remember data) : k = k32 data ∨ k ∈ lane.seen := by
  unfold Lane.remember at h
  split at h
  · cases h
  · exact List.mem_cons.mp h

theorem load_push : (lane.push data).load = lane.load + lane.kind.weight data := by
  simp [Lane.load, Lane.push]

/-- An item that is accepted goes to the end of the queue. -/
theorem push_fate (h : lane.accepted.Perm
      (lane.queue ++ (lane.inFlight ++ (lane.handled ++ lane.dropped)))) :
    (lane.push data).accepted.Perm ((lane.push data).queue ++
      ((lane.push data).inFlight ++ ((lane.push data).handled ++ (lane.push data).dropped))) := by
  have hend : (lane.accepted ++ [data]).Perm
      (lane.queue ++ (lane.inFlight ++ (lane.handled ++ lane.dropped)) ++ [data]) := h.append_right _
  refine hend.trans ?_
  show List.Perm _ (lane.queue ++ [data] ++ (lane.inFlight ++ (lane.handled ++ lane.dropped)))
  rw [List.append_assoc lane.queue, List.append_assoc lane.queue]
  exact List.perm_append_comm.append_left _

theorem Ok.enqueueIn (h : Ok s) (hi : s.lanes[i]? = some lane)
    (hne : data ≠ []) : Ok (s.enqueueIn i lane data).1 := by
  have hlane := h.lane i lane hi
  unfold Inbound.enqueueIn
  by_cases hhalted : lane.halted = true
  · rw [if_pos hhalted]
    exact h
  rw [if_neg hhalted]
  by_cases hseen : k32 data ∈ lane.seen
  · rw [if_pos hseen]
    exact h
  rw [if_neg hseen]
  by_cases hfull : lane.queue.length ≥ lane.kind.perQueue ∨
      s.queued lane.kind lane.key + lane.kind.weight data > lane.kind.perEdge
  · rw [if_pos hfull]
    exact h
  rw [if_neg hfull]
  obtain ⟨hroom, hbudget⟩ := not_or.mp hfull
  have hworking : Working (s.adjust lane (lane.kind.weight data)) i (lane.push data) := by
    refine (h.working hi).change rfl rfl ?_ ?_ fun f t hf => ⟨f, hf⟩
    · rw [load_push]
      omega
    · omega
  have hshort : (lane.push data).queue.length ≤ lane.kind.perQueue := by
    show (lane.queue ++ [data]).length ≤ _
    rw [List.length_append, List.length_singleton]
    omega
  have hnonempty : ∀ f ∈ (lane.push data).queue, f ≠ [] := by
    intro f hf
    rcases List.mem_append.mp hf with hf | hf
    · exact hlane.nonempty f hf
    · rw [List.mem_singleton.mp hf]
      exact hne
  have hknown : ∀ k ∈ (lane.push data).seen, ∃ f ∈ (lane.push data).accepted, k32 f = k := by
    intro k hk
    rcases mem_remember hk with rfl | hk
    · exact ⟨data, List.mem_append_right _ List.mem_cons_self, rfl⟩
    · obtain ⟨f, hf, heq⟩ := hlane.known k hk
      exact ⟨f, List.mem_append_left _ hf, heq⟩
  have hemptied : (lane.push data).released = true → (lane.push data).queue = [] := by
    intro hreleased
    exact absurd (by rw [Lane.halted, show lane.released = true from hreleased, Bool.true_or]) hhalted
  by_cases hdraining : lane.draining = true
  · simp only [hdraining, if_true]
    exact hworking.put ⟨hshort, hnonempty, push_fate hlane.fate, hknown, hemptied, hlane.draining,
      fun _ _ => hdraining, hlane.ticket⟩
  · have hnot : lane.draining = false := Bool.not_eq_true _ ▸ hdraining
    have hidle : lane.drain = .idle := by
      by_contra hne
      exact hdraining (hlane.draining.mpr hne)
    simp only [hnot]
    refine hworking.startDrain ⟨hshort, hnonempty, ?_, hknown, hemptied⟩ hnot hidle
    have hfate := @push_fate lane data hlane.fate
    rwa [show (lane.push data).inFlight = [] by simp [Lane.inFlight, Lane.push, hidle],
      List.nil_append] at hfate

theorem Ok.finish (h : Ok s) (hi : s.lanes[i]? = some lane) (ok : Bool) : Ok (s.finish i lane ok) := by
  have hlane := h.lane i lane hi
  unfold Inbound.finish
  split
  · rename_i item t hdrain
    split
    · split
      · have hworking : Working { s with lock := s.lock.letGo t } i
            { lane with drain := .resuming item ok, handled := lane.handled ++ [item] } :=
          ((h.working hi).letGo hdrain).same rfl rfl rfl nofun
        refine hworking.put ⟨hlane.short, hlane.nonempty, ?_, hlane.known, hlane.emptied, ?_,
          hlane.moving, nofun⟩
        · have hfate := hlane.fate
          rw [show lane.inFlight = [item] by rw [Lane.inFlight, hdrain]] at hfate
          refine hfate.trans ?_
          show List.Perm _ (lane.queue ++ ([] ++ (lane.handled ++ [item] ++ lane.dropped)))
          rw [List.nil_append, List.append_assoc lane.handled, List.singleton_append,
            List.singleton_append]
          exact List.Perm.append_left _ List.perm_middle.symm
        · have hrunning : lane.draining = true := hlane.draining.mpr (by rw [hdrain]; nofun)
          exact ⟨fun _ => nofun, fun _ => hrunning⟩
      · exact h
    · exact h
  · exact h

theorem Ok.resume (h : Ok s) (hi : s.lanes[i]? = some lane) : Ok (s.resume i lane) := by
  have hlane := h.lane i lane hi
  unfold Inbound.resume
  cases hdrain : lane.drain with
  | idle => exact h
  | locked item t => exact h
  | resuming item ok =>
    have hrunning : lane.draining = true := hlane.draining.mpr (by rw [hdrain]; nofun)
    have hready : Ready lane := hlane.ready (by rw [Lane.inFlight, hdrain])
    have hworking : Working s i (lane.forget item) :=
      (h.working hi).same rfl rfl rfl fun f t hf => ⟨f, hf⟩
    have hready' : Ready (lane.forget item) := by
      refine ⟨hready.short, hready.nonempty, hready.fate, fun k hk => ?_, hready.emptied⟩
      by_cases hkind : lane.kind = .receipts
      · simp only [Lane.forget, if_pos hkind] at hk
        exact hlane.known k (List.mem_of_mem_erase hk)
      · simp only [Lane.forget, if_neg hkind] at hk
        exact hlane.known k hk
    cases ok with
    | true => exact hworking.drainLoop hready' hrunning
    | false =>
      -- a failed handler: the loop is left, and started again if there is more
      have hstopped : Ready (lane.forget item).stopped :=
        ⟨hready'.short, hready'.nonempty, hready'.fate, hready'.known, hready'.emptied⟩
      simp only [Bool.false_eq_true, if_false]
      split
      · exact hworking.stopped.startDrain hstopped rfl rfl
      · rename_i hmore
        refine hworking.stopped.put (hready'.stopped _ fun hqueue hhalted => hmore ?_)
        exact ⟨hqueue, hhalted⟩

theorem Ok.abort (h : Ok s) (hi : s.lanes[i]? = some lane) :
    Ok (s.put i { lane with aborted := true }) := by
  have hlane := h.lane i lane hi
  have hworking : Working s i { lane with aborted := true } :=
    (h.working hi).same rfl rfl rfl fun f t hf => ⟨f, hf⟩
  refine hworking.put ⟨hlane.short, hlane.nonempty, hlane.fate, hlane.known, hlane.emptied,
    hlane.draining, ?_, hlane.ticket⟩
  intro _ hhalted
  simp [Lane.halted] at hhalted

theorem Ok.releaseIn (h : Ok s) (hi : s.lanes[i]? = some lane) : Ok (s.releaseIn i lane) := by
  have hlane := h.lane i lane hi
  unfold Inbound.releaseIn
  split
  · exact h
  · have hworking : Working (s.adjust lane (-(lane.load : Int))) i { lane with
        released := true
        queue := []
        seen := if lane.kind = .receipts then [] else lane.seen
        dropped := lane.dropped ++ lane.queue } := by
      refine (h.working hi).change rfl rfl ?_ ?_ fun f t hf => ⟨f, hf⟩
      · show ((([] : List Bytes).map lane.kind.weight).sum : Int) = _
        simp
      · have := h.bounded lane.kind lane.key
        omega
    refine hworking.put ⟨Nat.zero_le _, nofun, ?_, ?_, fun _ => rfl, hlane.draining, nofun,
      hlane.ticket⟩
    · show lane.accepted.Perm ([] ++ (lane.inFlight ++ (lane.handled ++ (lane.dropped ++ lane.queue))))
      refine hlane.fate.trans ?_
      have hregroup : lane.inFlight ++ (lane.handled ++ (lane.dropped ++ lane.queue)) =
          lane.inFlight ++ (lane.handled ++ lane.dropped) ++ lane.queue := by
        simp only [List.append_assoc]
      rw [List.nil_append, hregroup]
      exact List.perm_append_comm
    · intro k hk
      split at hk
      · cases hk
      · exact hlane.known k hk

/-- The lock moves on without a ticket being released. -/
theorem Ok.relock (h : Ok s) {lock : PromiseLock JsString} (hlock : lock.Ok)
    (hheld : ∀ t x, s.lock.ticket t = some x → x.hold ≠ .released →
      ∃ y, lock.ticket t = some y ∧ y.key = x.key ∧ y.hold ≠ .released) : Ok { s with lock } :=
  ⟨hlock, h.counted, h.bounded,
    fun j other hj => (h.lane j other hj).lock_mono fun _ t x _ => hheld t x, h.apart⟩

theorem Ok.opened (h : Ok s) (kind : Kind) (roomId peerId : JsString) :
    Ok { s with lanes := s.lanes ++ [.fresh kind roomId peerId] } := by
  have hcases : ∀ {j : Nat} {other : Lane},
      (s.lanes ++ [Lane.fresh kind roomId peerId])[j]? = some other →
        s.lanes[j]? = some other ∨ other = .fresh kind roomId peerId := by
    intro j other hj
    by_cases hlt : j < s.lanes.length
    · rw [List.getElem?_append_left hlt] at hj
      exact .inl hj
    · rw [List.getElem?_append_right (Nat.le_of_not_lt hlt)] at hj
      exact .inr (List.mem_singleton.mp (List.mem_of_getElem? hj))
  refine ⟨h.lock, ?_, h.bounded, ?_, ?_⟩
  · intro kind' k
    have hzero : share kind' k (.fresh kind roomId peerId) = 0 := by
      simp [share, Lane.load, Lane.fresh]
    rw [List.map_append, List.sum_append, List.map_singleton, List.sum_singleton, hzero, Nat.add_zero]
    exact h.counted kind' k
  · intro j other hj
    rcases hcases hj with hj | rfl
    · exact h.lane j other hj
    · exact ⟨Nat.zero_le _, nofun, List.Perm.refl _, nofun, fun _ => rfl, by simp [Lane.fresh], nofun,
        nofun⟩
  · intro j j' other other' f f' t hj hj' hf hf'
    rcases hcases hj with hj | rfl
    · rcases hcases hj' with hj' | rfl
      · exact h.apart j j' other other' f f' t hj hj' hf hf'
      · cases hf'
    · cases hf

theorem Ok.onLane (h : Ok s) {f : Lane → Inbound}
    (hf : ∀ lane, s.lanes[i]? = some lane → Ok (f lane)) : Ok (s.onLane i f) := by
  unfold Inbound.onLane
  split
  · rename_i lane hi
    exact hf lane hi
  · exact h

/-- **Every event keeps the queues in order.** -/
theorem Ok.step (h : Ok s) (event : Event) : Ok (s.step event) := by
  cases event with
  | opened kind roomId peerId => exact h.opened kind roomId peerId
  | message i data =>
    refine h.onLane fun lane hi => ?_
    split
    · rename_i hne
      exact h.enqueueIn hi hne
    · exact h
  | enter i =>
    refine h.onLane fun lane hi => ?_
    split
    · exact h.relock (h.lock.enter _) fun t x => PromiseLock.enter_held
    · exact h
  | settle t => exact h.relock (h.lock.settle t) fun t x => PromiseLock.settle_held
  | finish i ok => exact h.onLane fun lane hi => h.finish hi ok
  | resume i => exact h.onLane fun lane hi => h.resume hi
  | abort i =>
    refine h.onLane fun lane hi => ?_
    split
    · exact h.abort hi
    · exact h
  | release i => exact h.onLane fun lane hi => h.releaseIn hi

theorem ok_start : Ok Inbound.start where
  lock := PromiseLock.ok_empty
  counted _ _ := rfl
  bounded _ _ := Nat.zero_le _
  lane _ _ h := nomatch h
  apart _ _ _ _ _ _ _ h := nomatch h

theorem ok_runs (events : List Event) : Ok (runs Inbound.step events .start) := by
  have hruns : ∀ {s : Inbound}, Ok s → Ok (runs Inbound.step events s) := by
    induction events with
    | nil => exact id
    | cons event events ih => exact fun h => ih (h.step event)
  exact hruns ok_start

/-! ## What a run guarantees -/

/-- The counter of an edge is the sum over its own queues. -/
theorem Ok.counted_edge (h : Ok s) (kind : Kind) (roomId peerId : JsString) :
    s.queued kind (edgeQueueKey roomId peerId) = ((s.lanes.filter fun lane =>
      lane.kind = kind ∧ lane.roomId = roomId ∧ lane.peerId = peerId).map Lane.load).sum := by
  rw [h.counted]
  have hown : ∀ lane : Lane, (kind = lane.kind ∧ edgeQueueKey roomId peerId = lane.key) ↔
      (lane.kind = kind ∧ lane.roomId = roomId ∧ lane.peerId = peerId) := by
    intro lane
    constructor
    · rintro ⟨rfl, hkey⟩
      obtain ⟨hroom, hpeer⟩ := edgeQueueKey_inj hkey
      exact ⟨rfl, hroom.symm, hpeer.symm⟩
    · rintro ⟨rfl, rfl, rfl⟩
      exact ⟨rfl, rfl⟩
  generalize s.lanes = lanes
  induction lanes with
  | nil => rfl
  | cons lane lanes ih =>
    rw [List.map_cons, List.sum_cons, ih, share]
    by_cases hlane : lane.kind = kind ∧ lane.roomId = roomId ∧ lane.peerId = peerId
    · rw [if_pos ((hown lane).mpr hlane), List.filter_cons_of_pos (by simpa using hlane),
        List.map_cons, List.sum_cons]
    · rw [if_neg (fun hno => hlane ((hown lane).mp hno)), List.filter_cons_of_neg (by simpa using hlane),
        Nat.zero_add]

/-- A frame that is queued counts. -/
theorem LaneOk.queue_eq_nil {lock : PromiseLock JsString} (h : LaneOk lock lane)
    (hkind : lane.kind = .frames) (hload : lane.load = 0) : lane.queue = [] := by
  cases hqueue : lane.queue with
  | nil => rfl
  | cons f rest =>
    have hpositive := List.length_pos_iff.mpr (h.nonempty f (by rw [hqueue]; exact List.mem_cons_self))
    have hweight : lane.load = f.length + (rest.map lane.kind.weight).sum := by
      rw [Lane.load, hqueue, List.map_cons, List.sum_cons, hkind]
      rfl
    omega

/-- The handlers of one edge exclude each other. -/
theorem Ok.exclusive (h : Ok s) {j : Nat} (hi : s.lanes[i]? = some lane) (hj : s.lanes[j]? = some lane')
    (hkey : lane.key = lane'.key) (hhi : s.Handling i) (hhj : s.Handling j) : i = j := by
  obtain ⟨l, f, t, x, hl, hf, hx, hxh⟩ := hhi
  obtain ⟨l', f', t', x', hl', hf', hx', hxh'⟩ := hhj
  cases hi.symm.trans hl
  cases hj.symm.trans hl'
  obtain ⟨y, hy, hykey, -⟩ := (h.lane i lane hi).ticket f t hf
  obtain ⟨y', hy', hykey', -⟩ := (h.lane j lane' hj).ticket f' t' hf'
  cases hx.symm.trans hy
  cases hx'.symm.trans hy'
  have hsame : t = t' := h.lock.exclusive hx hx' (hykey.trans (hkey.trans hykey'.symm)) hxh hxh'
  exact h.apart i j lane lane' f f' t hi hj hf (hsame ▸ hf')

/-- An edge that is found quiescent is. -/
theorem Ok.quiescent (h : Ok s) {roomId peerId : JsString}
    (hquiet : s.hasQueuedEdgeReceiveWork roomId peerId = false) (hi : s.lanes[i]? = some lane)
    (hroom : lane.roomId = roomId) (hpeer : lane.peerId = peerId) :
    (lane.kind = .frames → lane.queue = []) ∧ lane.inFlight = [] := by
  subst hroom hpeer
  simp only [Inbound.hasQueuedEdgeReceiveWork, Bool.or_eq_false_iff, decide_eq_false_iff_not,
    Nat.not_lt, Nat.le_zero, Option.isSome_eq_false_iff, Option.isNone_iff_eq_none, gt_iff_lt] at hquiet
  obtain ⟨hzero, htail⟩ := hquiet
  constructor
  · intro hkind
    refine (h.lane i lane hi).queue_eq_nil hkind ?_
    have hle := le_sum_map_of_mem (share .frames lane.key) hi
    rw [← h.counted, share, if_pos ⟨hkind.symm, rfl⟩] at hle
    exact Nat.le_zero.mp (Nat.le_trans hle (Nat.le_of_eq hzero))
  · unfold Lane.inFlight
    split
    · rename_i item t hdrain
      obtain ⟨x, hx, hkey, hheld⟩ := (h.lane i lane hi).ticket item t hdrain
      exact absurd (h.lock.released_of_absent htail hx hkey) hheld
    · rfl

/-- **The inbound queues.** In every interleaving of arrivals, draining loops, handlers that end or
fail, aborts and releases, on any channels of any edges, for frames and for receipts:

- the counter of an edge is the sum of what its queues hold, and within its limit;
- no queue is longer than its limit;
- one handler at most runs on an edge;
- what was accepted is, each item once, queued, in flight, handled or released, and none stays
  queued behind a loop that does not run; what is turned away as a duplicate has the fingerprint
  of an accepted item;
- an edge that `hasQueuedEdgeReceiveWork` finds quiescent has no frame queued and no item in
  flight. -/
theorem inbound_queues (events : List Event) :
    let s := runs Inbound.step events Inbound.start
    (∀ kind roomId peerId, s.queued kind (edgeQueueKey roomId peerId) = ((s.lanes.filter fun lane =>
        lane.kind = kind ∧ lane.roomId = roomId ∧ lane.peerId = peerId).map Lane.load).sum ∧
      s.queued kind (edgeQueueKey roomId peerId) ≤ kind.perEdge) ∧
    (∀ lane ∈ s.lanes, lane.queue.length ≤ lane.kind.perQueue) ∧
    (∀ (i j : Nat) (lane lane' : Lane), s.lanes[i]? = some lane → s.lanes[j]? = some lane' →
      lane.roomId = lane'.roomId → lane.peerId = lane'.peerId → s.Handling i → s.Handling j → i = j) ∧
    (∀ lane ∈ s.lanes,
      lane.accepted.Perm (lane.queue ++ (lane.inFlight ++ (lane.handled ++ lane.dropped))) ∧
      (lane.draining = false → (lane.aborted = true → lane.released = true) → lane.queue = []) ∧
      ∀ k ∈ lane.seen, ∃ f ∈ lane.accepted, k32 f = k) ∧
    ∀ roomId peerId, s.hasQueuedEdgeReceiveWork roomId peerId = false →
      ∀ lane ∈ s.lanes, lane.roomId = roomId → lane.peerId = peerId →
        (lane.kind = .frames → lane.queue = []) ∧ lane.inFlight = [] := by
  intro s
  have h : Ok s := ok_runs events
  have hlane : ∀ lane ∈ s.lanes, ∃ i : Nat, s.lanes[i]? = some lane := by
    intro lane hmem
    obtain ⟨i, hi, hget⟩ := List.getElem_of_mem hmem
    exact ⟨i, by rw [List.getElem?_eq_getElem hi, hget]⟩
  refine ⟨fun kind roomId peerId => ⟨h.counted_edge kind roomId peerId, h.bounded _ _⟩, ?_, ?_, ?_, ?_⟩
  · intro lane hmem
    obtain ⟨i, hi⟩ := hlane lane hmem
    exact (h.lane i lane hi).short
  · intro i j lane lane' hi hj hroom hpeer
    exact h.exclusive hi hj (by rw [Lane.key, Lane.key, hroom, hpeer])
  · intro lane hmem
    obtain ⟨i, hi⟩ := hlane lane hmem
    have hok := h.lane i lane hi
    refine ⟨hok.fate, fun hidle hreleased => ?_, hok.known⟩
    by_contra hqueue
    by_cases hhalted : lane.halted = true
    · have hgone : lane.released = true := by
        rcases Bool.or_eq_true_iff.mp hhalted with hr | ha
        · exact hr
        · exact hreleased ha
      exact hqueue (hok.emptied hgone)
    · have hrunning := hok.moving hqueue (Bool.not_eq_true _ ▸ hhalted)
      rw [hidle] at hrunning
      cases hrunning
  · intro roomId peerId hquiet lane hmem hroom hpeer
    obtain ⟨i, hi⟩ := hlane lane hmem
    exact h.quiescent hquiet hi hroom hpeer

end Queueing

end P2Party
