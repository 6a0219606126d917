import Mathlib.Logic.Function.Basic
import Mathlib.Tactic.Common

/-!
# A lock made of promises

Where nothing blocks, mutual exclusion is a chain of promises: a map holds, for each key, the
promise that the last comer has left behind; the next one takes it, leaves its own, and waits for
the one it took. Its own promise is settled once the one before is and it has let go. The entry
is removed by the last one to let go.

- `acquire`, `enter`, `letGo`, `settle`: the four things that happen to a ticket;
- `Ok`: what holds of the tickets of a key at any time;
- `Ok.exclusive`: two tickets of one key never hold the lock together;
- `Ok.released_of_absent`: without an entry there is no ticket that waits or holds.
-/

namespace Base

/-- What a ticket is doing. -/
inductive Hold
  | waiting
  | holding
  | released
deriving DecidableEq, Repr

/-- A ticket: its key, the ticket whose promise it awaits, and whether its own is settled. -/
structure Ticket (κ : Type) where
  key : κ
  prev : Option Nat
  hold : Hold
  settled : Bool

/-- The map of last comers, and all tickets by number. -/
structure PromiseLock (κ : Type) where
  tail : κ → Option Nat
  ticket : Nat → Option (Ticket κ)
  issued : Nat

namespace PromiseLock

variable {κ : Type}

/-- No tickets. -/
def empty : PromiseLock κ := ⟨fun _ => none, fun _ => none, 0⟩

/-- A promise is settled; none is as good as a settled one. -/
def isSettled (l : PromiseLock κ) : Option Nat → Bool
  | none => true
  | some t => ((l.ticket t).map Ticket.settled).getD false

/-- Take the promise under the key and leave one's own. -/
def acquire [DecidableEq κ] (l : PromiseLock κ) (k : κ) : PromiseLock κ where
  tail := Function.update l.tail k (some l.issued)
  ticket := Function.update l.ticket l.issued (some ⟨k, l.tail k, .waiting, false⟩)
  issued := l.issued + 1

/-- The ticket holds the lock once the promise it took is settled. -/
def enter (l : PromiseLock κ) (t : Nat) : PromiseLock κ :=
  match l.ticket t with
  | some x =>
    if x.hold = .waiting ∧ l.isSettled x.prev = true then
      { l with ticket := Function.update l.ticket t (some { x with hold := .holding }) }
    else l
  | none => l

/-- The ticket lets go, and removes the entry if it is still its own. -/
def letGo [DecidableEq κ] (l : PromiseLock κ) (t : Nat) : PromiseLock κ :=
  match l.ticket t with
  | some x =>
    if x.hold = .holding then
      { l with
        tail := if l.tail x.key = some t then Function.update l.tail x.key none else l.tail
        ticket := Function.update l.ticket t (some { x with hold := .released }) }
    else l
  | none => l

/-- The promise of a released ticket is settled after the one it took. -/
def settle (l : PromiseLock κ) (t : Nat) : PromiseLock κ :=
  match l.ticket t with
  | some x =>
    if x.hold = .released ∧ l.isSettled x.prev = true then
      { l with ticket := Function.update l.ticket t (some { x with settled := true }) }
    else l
  | none => l

/-- The tickets of `k` before number `t` have been released. -/
def ReleasedBelow (l : PromiseLock κ) (k : κ) (t : Nat) : Prop :=
  ∀ u x, l.ticket u = some x → x.key = k → u < t → x.hold = .released

/-- What holds of the tickets at any time. -/
structure Ok (l : PromiseLock κ) : Prop where
  issued : ∀ t x, l.ticket t = some x → t < l.issued
  absent : ∀ k, l.tail k = none → l.ReleasedBelow k l.issued
  present : ∀ k t, l.tail k = some t → ∃ x, l.ticket t = some x ∧ x.key = k ∧ x.hold ≠ .released ∧
    ∀ u y, l.ticket u = some y → y.key = k → u ≤ t
  first : ∀ t x, l.ticket t = some x → x.prev = none → l.ReleasedBelow x.key t
  next : ∀ t x p, l.ticket t = some x → x.prev = some p → ∀ u y, l.ticket u = some y →
    y.key = x.key → u < t → u ≤ p
  same : ∀ t x p, l.ticket t = some x → x.prev = some p → ∃ y, l.ticket p = some y ∧ y.key = x.key
  settled : ∀ t x, l.ticket t = some x → x.settled = true → l.ReleasedBelow x.key (t + 1)
  holding : ∀ t x, l.ticket t = some x → x.hold = .holding → l.ReleasedBelow x.key t

variable {l : PromiseLock κ}

theorem ok_empty : (empty : PromiseLock κ).Ok where
  issued _ _ h := nomatch h
  absent _ _ _ _ h := nomatch h
  present _ _ h := nomatch h
  first _ _ h := nomatch h
  next _ _ _ h := nomatch h
  same _ _ _ h := nomatch h
  settled _ _ h := nomatch h
  holding _ _ h := nomatch h

/-- When the promise a ticket took is settled, all tickets of its key before it are released. -/
theorem Ok.releasedBelow (h : l.Ok) {t : Nat} {x : Ticket κ} (hx : l.ticket t = some x)
    (hprev : l.isSettled x.prev = true) : l.ReleasedBelow x.key t := by
  cases hp : x.prev with
  | none => exact h.first t x hx hp
  | some p =>
    rw [hp] at hprev
    obtain ⟨y, hy, hkey⟩ := h.same t x p hx hp
    have hsettled : y.settled = true := by simpa [isSettled, hy] using hprev
    intro u z hz hzkey hlt
    have hle : u ≤ p := h.next t x p hx hp u z hz hzkey hlt
    exact h.settled p y hy hsettled u z hz (hzkey.trans hkey.symm) (Nat.lt_succ_of_le hle)

/-- **Two tickets of one key never hold the lock together.** -/
theorem Ok.exclusive (h : l.Ok) {t u : Nat} {x y : Ticket κ} (hx : l.ticket t = some x)
    (hy : l.ticket u = some y) (hkey : x.key = y.key) (hxh : x.hold = .holding)
    (hyh : y.hold = .holding) : t = u := by
  rcases Nat.lt_trichotomy t u with hlt | heq | hgt
  · have := h.holding u y hy hyh t x hx hkey hlt
    rw [hxh] at this
    cases this
  · exact heq
  · have := h.holding t x hx hxh u y hy hkey.symm hgt
    rw [hyh] at this
    cases this

/-- Without an entry no ticket waits or holds. -/
theorem Ok.released_of_absent (h : l.Ok) {k : κ} (hk : l.tail k = none) {t : Nat} {x : Ticket κ}
    (hx : l.ticket t = some x) (hkey : x.key = k) : x.hold = .released :=
  h.absent k hk t x hx hkey (h.issued t x hx)

/-! ## The operations keep it -/

/-- A ticket changes what it does, and perhaps the entry of its key with it. -/
theorem Ok.change (h : l.Ok) {t : Nat} {x x' : Ticket κ} {tail' : κ → Option Nat}
    (hx : l.ticket t = some x) (hkey : x'.key = x.key) (hprev : x'.prev = x.prev)
    (hreleased : x.hold = .released → x'.hold = .released)
    (hsettled : x'.settled = true → x'.hold = .released ∧ l.ReleasedBelow x.key t)
    (hholding : x'.hold = .holding → l.ReleasedBelow x.key t)
    (hpresent : ∀ k u, tail' k = some u → l.tail k = some u ∧ (u = t → x'.hold ≠ .released))
    (habsent : ∀ k, tail' k = none → l.tail k = none ∨
      (k = x.key ∧ x'.hold = .released ∧ l.tail k = some t ∧ l.ReleasedBelow x.key t)) :
    Ok { l with tail := tail', ticket := Function.update l.ticket t (some x') } := by
  have hcases : ∀ u y, Function.update l.ticket t (some x') u = some y →
      ∃ z, l.ticket u = some z ∧ y.key = z.key ∧ y.prev = z.prev ∧
        (z.hold = .released → y.hold = .released) ∧ (y = z ∨ (u = t ∧ y = x')) := by
    intro u y hy
    by_cases hu : u = t
    · rw [hu, Function.update_self] at hy
      obtain rfl := Option.some.inj hy
      exact ⟨x, hu ▸ hx, hkey, hprev, hreleased, .inr ⟨hu, rfl⟩⟩
    · rw [Function.update_of_ne hu] at hy
      exact ⟨y, hy, rfl, rfl, id, .inl rfl⟩
  have hself : Function.update l.ticket t (some x') t = some x' := Function.update_self ..
  have hbelow : ∀ {k n}, l.ReleasedBelow k n → ReleasedBelow
      { l with tail := tail', ticket := Function.update l.ticket t (some x') } k n := by
    intro k n hr u y hy hyk hlt
    obtain ⟨z, hz, hyz, -, hrel, -⟩ := hcases u y hy
    exact hrel (hr u z hz (hyz ▸ hyk) hlt)
  refine ⟨?_, ?_, ?_, ?_, ?_, ?_, ?_, ?_⟩
  · intro u y hy
    obtain ⟨z, hz, -⟩ := hcases u y hy
    exact h.issued u z hz
  · intro k hk
    rcases habsent k hk with hnone | ⟨rfl, hrel, htail, hr⟩
    · exact hbelow (h.absent k hnone)
    · intro u y hy hyk _
      obtain ⟨-, -, -, -, hlast⟩ := h.present _ t htail
      obtain ⟨z, hz, hyz, -, hzrel, -⟩ := hcases u y hy
      rcases Nat.lt_or_eq_of_le (hlast u z hz (hyz ▸ hyk)) with hlt | heq
      · exact hzrel (hr u z hz (hyz ▸ hyk) hlt)
      · subst heq
        exact Option.some.inj (hself.symm.trans hy) ▸ hrel
  · intro k u hu
    obtain ⟨hold, hne⟩ := hpresent k u hu
    obtain ⟨z, hz, hzk, hheld, hlast⟩ := h.present k u hold
    have hlast' : ∀ v y, Function.update l.ticket t (some x') v = some y → y.key = k → v ≤ u := by
      intro v y hy hyk
      obtain ⟨w, hw, hyw, -⟩ := hcases v y hy
      exact hlast v w hw (hyw ▸ hyk)
    by_cases hut : u = t
    · rw [hut, hx] at hz
      cases hz
      exact ⟨x', hut ▸ hself, hkey.trans hzk, hne hut, hlast'⟩
    · exact ⟨z, (Function.update_of_ne hut ..).trans hz, hzk, hheld, hlast'⟩
  · intro u y hy hyprev
    obtain ⟨z, hz, hyz, hyp, -⟩ := hcases u y hy
    rw [hyz]
    exact hbelow (h.first u z hz (hyp ▸ hyprev))
  · intro u y p hy hyprev v w hw hwk hlt
    obtain ⟨z, hz, hyz, hyp, -⟩ := hcases u y hy
    obtain ⟨w', hw', hww, -⟩ := hcases v w hw
    exact h.next u z p hz (hyp ▸ hyprev) v w' hw' (hww.symm.trans (hwk.trans hyz)) hlt
  · intro u y p hy hyprev
    obtain ⟨z, hz, hyz, hyp, -⟩ := hcases u y hy
    obtain ⟨w, hw, hwk⟩ := h.same u z p hz (hyp ▸ hyprev)
    by_cases hpt : p = t
    · rw [hpt, hx] at hw
      cases hw
      exact ⟨x', hpt ▸ hself, hkey.trans (hwk.trans hyz.symm)⟩
    · exact ⟨w, (Function.update_of_ne hpt ..).trans hw, hwk.trans hyz.symm⟩
  · intro u y hy hys
    obtain ⟨z, hz, hyz, -, -, rfl | ⟨rfl, rfl⟩⟩ := hcases u y hy
    · exact hbelow (h.settled u y hz hys)
    · obtain ⟨hrel, hr⟩ := hsettled hys
      intro v w hw hwk hlt
      rcases Nat.lt_or_eq_of_le (Nat.le_of_lt_succ hlt) with hlt' | heq
      · exact hbelow hr v w hw (hwk.trans hkey) hlt'
      · subst heq
        exact Option.some.inj (hself.symm.trans hw) ▸ hrel
  · intro u y hy hyh
    obtain ⟨z, hz, hyz, -, -, rfl | ⟨rfl, rfl⟩⟩ := hcases u y hy
    · exact hbelow (h.holding u y hz hyh)
    · rw [hkey]
      exact hbelow (hholding hyh)

theorem Ok.enter (h : l.Ok) (t : Nat) : (l.enter t).Ok := by
  unfold PromiseLock.enter
  split
  · rename_i x hx
    split
    · rename_i hw
      refine h.change hx rfl rfl (fun hr => absurd (hw.1.symm.trans hr) (by decide)) (fun hs => ?_)
        (fun _ => h.releasedBelow hx hw.2) (fun k u hu => ⟨hu, fun _ => Hold.noConfusion⟩)
        (fun k hk => .inl hk)
      have hr := h.settled t x hx hs t x hx rfl (Nat.lt_succ_self t)
      exact absurd (hw.1.symm.trans hr) (by decide)
    · exact h
  · exact h

theorem Ok.settle (h : l.Ok) (t : Nat) : (l.settle t).Ok := by
  unfold PromiseLock.settle
  split
  · rename_i x hx
    split
    · rename_i hw
      have hr := h.releasedBelow hx hw.2
      refine h.change hx rfl rfl id (fun _ => ⟨hw.1, hr⟩)
        (fun hh => absurd (hw.1.symm.trans hh) (by decide)) (fun k u hu => ⟨hu, fun hut => ?_⟩)
        (fun k hk => .inl hk)
      obtain ⟨y, hy, -, hheld, -⟩ := h.present k u hu
      rw [hut, hx] at hy
      cases hy
      exact hheld
    · exact h
  · exact h

variable [DecidableEq κ]

@[simp] theorem acquire_issued (k : κ) : (l.acquire k).issued = l.issued + 1 := rfl

@[simp] theorem acquire_ticket_self (k : κ) :
    (l.acquire k).ticket l.issued = some ⟨k, l.tail k, .waiting, false⟩ := Function.update_self ..

theorem acquire_ticket_of_ne (k : κ) {t : Nat} (h : t ≠ l.issued) :
    (l.acquire k).ticket t = l.ticket t := Function.update_of_ne h ..

@[simp] theorem acquire_tail_self (k : κ) : (l.acquire k).tail k = some l.issued :=
  Function.update_self ..

theorem acquire_tail_of_ne {k k' : κ} (h : k' ≠ k) : (l.acquire k).tail k' = l.tail k' :=
  Function.update_of_ne h ..

theorem Ok.acquire (h : l.Ok) (k : κ) : (l.acquire k).Ok := by
  -- the new ticket has the highest number, so it is below no other
  have hcases : ∀ u x, (l.acquire k).ticket u = some x →
      (u = l.issued ∧ x = ⟨k, l.tail k, .waiting, false⟩) ∨ (u < l.issued ∧ l.ticket u = some x) := by
    intro u x hu
    by_cases hne : u = l.issued
    · rw [hne, acquire_ticket_self] at hu
      exact .inl ⟨hne, (Option.some.inj hu).symm⟩
    · rw [acquire_ticket_of_ne k hne] at hu
      exact .inr ⟨h.issued u x hu, hu⟩
  have hbelow : ∀ {k' n}, n ≤ l.issued → l.ReleasedBelow k' n → (l.acquire k).ReleasedBelow k' n := by
    intro k' n hn hr u x hu hkey hlt
    rcases hcases u x hu with ⟨rfl, -⟩ | ⟨-, hx⟩
    · exact absurd hlt (Nat.not_lt.mpr hn)
    · exact hr u x hx hkey hlt
  refine ⟨?_, ?_, ?_, ?_, ?_, ?_, ?_, ?_⟩
  · intro t x hx
    rcases hcases t x hx with ⟨rfl, -⟩ | ⟨hlt, -⟩
    · exact Nat.lt_succ_self _
    · exact Nat.lt_succ_of_lt hlt
  · intro k' hk'
    by_cases heq : k' = k
    · rw [heq, acquire_tail_self] at hk'
      cases hk'
    · rw [acquire_tail_of_ne heq] at hk'
      intro u x hu hkey _
      rcases hcases u x hu with ⟨-, rfl⟩ | ⟨hlt, hx⟩
      · exact absurd hkey.symm heq
      · exact h.absent k' hk' u x hx hkey hlt
  · intro k' t ht
    by_cases heq : k' = k
    · rw [heq, acquire_tail_self] at ht
      cases ht
      refine ⟨_, acquire_ticket_self k, heq.symm, Hold.noConfusion, fun u y hy _ => ?_⟩
      rcases hcases u y hy with ⟨rfl, -⟩ | ⟨hlt, -⟩
      · exact Nat.le_refl _
      · exact Nat.le_of_lt hlt
    · rw [acquire_tail_of_ne heq] at ht
      obtain ⟨x, hx, hkey, hheld, hlast⟩ := h.present k' t ht
      have hne : t ≠ l.issued := Nat.ne_of_lt (h.issued t x hx)
      refine ⟨x, ?_, hkey, hheld, fun u y hy hykey => ?_⟩
      · rwa [acquire_ticket_of_ne k hne]
      · rcases hcases u y hy with ⟨-, rfl⟩ | ⟨-, hy'⟩
        · exact absurd hykey.symm heq
        · exact hlast u y hy' hykey
  · intro t x hx hprev
    rcases hcases t x hx with ⟨rfl, rfl⟩ | ⟨hlt, hx'⟩
    · exact hbelow (Nat.le_refl _) (h.absent k hprev)
    · exact hbelow (Nat.le_of_lt hlt) (h.first t x hx' hprev)
  · intro t x p hx hprev u y hy hkey hlt
    rcases hcases u y hy with ⟨rfl, -⟩ | ⟨hu, hy'⟩
    · rcases hcases t x hx with ⟨rfl, -⟩ | ⟨ht, -⟩
      · exact absurd hlt (Nat.lt_irrefl _)
      · exact absurd ht (Nat.not_lt.mpr (Nat.le_of_lt hlt))
    · rcases hcases t x hx with ⟨rfl, rfl⟩ | ⟨-, hx'⟩
      · obtain ⟨-, -, -, -, hlast⟩ := h.present k p hprev
        exact hlast u y hy' hkey
      · exact h.next t x p hx' hprev u y hy' hkey hlt
  · intro t x p hx hprev
    have hexists : ∃ y, l.ticket p = some y ∧ y.key = x.key := by
      rcases hcases t x hx with ⟨-, rfl⟩ | ⟨-, hx'⟩
      · obtain ⟨y, hy, hkey, -⟩ := h.present k p hprev
        exact ⟨y, hy, hkey⟩
      · exact h.same t x p hx' hprev
    obtain ⟨y, hy, hkey⟩ := hexists
    exact ⟨y, by rwa [acquire_ticket_of_ne k (Nat.ne_of_lt (h.issued p y hy))], hkey⟩
  · intro t x hx hsettled
    rcases hcases t x hx with ⟨rfl, rfl⟩ | ⟨hlt, hx'⟩
    · cases hsettled
    · exact hbelow hlt (h.settled t x hx' hsettled)
  · intro t x hx hholding
    rcases hcases t x hx with ⟨rfl, rfl⟩ | ⟨hlt, hx'⟩
    · cases hholding
    · exact hbelow (Nat.le_of_lt hlt) (h.holding t x hx' hholding)

theorem Ok.letGo (h : l.Ok) (t : Nat) : (l.letGo t).Ok := by
  unfold PromiseLock.letGo
  split
  · rename_i x hx
    split
    · rename_i hw
      have hr := h.holding t x hx hw
      refine h.change hx rfl rfl (fun _ => rfl) (fun _ => ⟨rfl, hr⟩) (fun hh => Hold.noConfusion hh)
        (fun k u hu => ?_) (fun k hk => ?_)
      · by_cases hown : l.tail x.key = some t
        · rw [if_pos hown] at hu
          by_cases hk : k = x.key
          · rw [hk, Function.update_self] at hu
            cases hu
          · rw [Function.update_of_ne hk] at hu
            refine ⟨hu, fun hut => ?_⟩
            obtain ⟨y, hy, hyk, -⟩ := h.present k u hu
            rw [hut, hx] at hy
            cases hy
            exact absurd hyk.symm hk
        · rw [if_neg hown] at hu
          refine ⟨hu, fun hut => ?_⟩
          obtain ⟨y, hy, hyk, -⟩ := h.present k u hu
          rw [hut, hx] at hy
          cases hy
          exact absurd (hyk ▸ hut ▸ hu) hown
      · by_cases hown : l.tail x.key = some t
        · rw [if_pos hown] at hk
          by_cases hkx : k = x.key
          · exact .inr ⟨hkx, rfl, hkx ▸ hown, hr⟩
          · rw [Function.update_of_ne hkx] at hk
            exact .inl hk
        · rw [if_neg hown] at hk
          exact .inl hk
    · exact h
  · exact h

/-! ## The tickets that are not released -/

theorem acquire_held (k : κ) {u : Nat} {x : Ticket κ} (h : l.Ok) (hx : l.ticket u = some x) :
    (l.acquire k).ticket u = some x := by
  rwa [acquire_ticket_of_ne k (Nat.ne_of_lt (h.issued u x hx))]

theorem letGo_ticket_of_ne {t u : Nat} (h : u ≠ t) : (l.letGo t).ticket u = l.ticket u := by
  unfold PromiseLock.letGo
  split
  · split
    · exact Function.update_of_ne h ..
    · rfl
  · rfl

omit [DecidableEq κ] in
theorem enter_held {t u : Nat} {x : Ticket κ} (hx : l.ticket u = some x)
    (hheld : x.hold ≠ .released) :
    ∃ y, (l.enter t).ticket u = some y ∧ y.key = x.key ∧ y.hold ≠ .released := by
  unfold PromiseLock.enter
  split
  · rename_i z hz
    split
    · by_cases hu : u = t
      · subst hu
        cases hx.symm.trans hz
        exact ⟨_, Function.update_self .., rfl, Hold.noConfusion⟩
      · exact ⟨x, (Function.update_of_ne hu ..).trans hx, rfl, hheld⟩
    · exact ⟨x, hx, rfl, hheld⟩
  · exact ⟨x, hx, rfl, hheld⟩

omit [DecidableEq κ] in
theorem settle_held {t u : Nat} {x : Ticket κ} (hx : l.ticket u = some x)
    (hheld : x.hold ≠ .released) :
    ∃ y, (l.settle t).ticket u = some y ∧ y.key = x.key ∧ y.hold ≠ .released := by
  unfold PromiseLock.settle
  split
  · rename_i z hz
    split
    · by_cases hu : u = t
      · subst hu
        cases hx.symm.trans hz
        exact ⟨_, Function.update_self .., rfl, hheld⟩
      · exact ⟨x, (Function.update_of_ne hu ..).trans hx, rfl, hheld⟩
    · exact ⟨x, hx, rfl, hheld⟩
  · exact ⟨x, hx, rfl, hheld⟩

end PromiseLock

end Base
