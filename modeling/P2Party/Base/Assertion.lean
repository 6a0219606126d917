import P2Party.Base.Simulation

/-!
# From one assertion to another

`Leads P Q m`: from a state with `P`, `m` leaves a state with `Q`, whether it returns or
throws. The rules follow the statements of a method, so that an invariant may be broken
and repaired inside it; `Keeps P m` is the case of one assertion.
-/

namespace Base

variable {ε σ α β : Type}

/-- From a state with `P`, `m` leaves a state with `Q`. -/
def Leads (P Q : σ → Prop) (m : EStateM ε σ α) : Prop := ∀ s, P s → Q (finalState (m.run s))

namespace Leads

variable {P P' Q R : σ → Prop}

theorem mono {m : EStateM ε σ α} (h : Leads P Q m) (hP : ∀ s, P' s → P s) (hQ : ∀ s, Q s → R s) :
    Leads P' R m := fun s hs => hQ _ (h s (hP s hs))

theorem pure (a : α) (h : ∀ s, P s → Q s) : Leads P Q (pure a : EStateM ε σ α) :=
  fun s hs => h s hs

theorem bind {m : EStateM ε σ α} {f : α → EStateM ε σ β} (hQR : ∀ s, Q s → R s) (hm : Leads P Q m)
    (hf : ∀ a, Leads Q R (f a)) : Leads P R (m >>= f) := by
  intro s hs
  have hms := hm s hs
  rw [EStateM.run_bind]
  cases hx : m.run s with
  | ok a s' =>
    rw [hx] at hms
    exact hf a s' hms
  | error e s' =>
    rw [hx] at hms
    exact hQR s' hms

/-- A first statement that does not throw may break what the rest repairs. -/
theorem seq {m : EStateM ε σ α} {f : α → EStateM ε σ β} (hok : ∀ s, ∃ a s', m.run s = .ok a s')
    (hm : Leads P Q m) (hf : ∀ a, Leads Q R (f a)) : Leads P R (m >>= f) := by
  intro s hs
  have hms := hm s hs
  obtain ⟨a, s', hx⟩ := hok s
  rw [hx] at hms
  rw [EStateM.run_bind, hx]
  exact hf a s' hms

/-- What follows a read knows the state that was read. -/
theorem read {f : σ → EStateM ε σ β} (h : ∀ s, P s → Leads (fun s' => P s' ∧ s' = s) Q (f s)) :
    Leads P Q (get >>= f) := fun s hs => by
  rw [run_get_bind]
  exact h s hs s ⟨hs, rfl⟩

/-- A change of state, then the rest. -/
theorem change {f : σ → σ} {m : EStateM ε σ α} (hf : ∀ s, P s → Q (f s)) (hm : Leads Q R m) :
    Leads P R (modify f >>= fun _ => m) := fun s hs => hm (f s) (hf s hs)

/-- A change of state at the end. -/
theorem change_last {f : σ → σ} (hf : ∀ s, P s → Q (f s)) :
    Leads P Q (modify f : EStateM ε σ PUnit) := fun s hs => hf s hs

theorem attempt {x : Except ε α} {f : α → EStateM ε σ β} (hPQ : ∀ s, P s → Q s)
    (hf : ∀ a, x = .ok a → Leads P Q (f a)) : Leads P Q (attempt x >>= f) := fun s hs => by
  rw [run_attempt_bind]
  cases x with
  | ok a => exact hf a rfl s hs
  | error e => exact hPQ s hs

theorem ensure {p : Prop} [Decidable p] {e : ε} {f : Unit → EStateM ε σ β} (hPQ : ∀ s, P s → Q s)
    (hf : p → Leads P Q (f ())) : Leads P Q (ensure p e >>= f) := fun s hs => by
  rw [run_ensure_bind]
  split
  case isTrue hp => exact hf hp s hs
  case isFalse => exact hPQ s hs

theorem ite {p : Prop} [Decidable p] {m n : EStateM ε σ α} (hm : p → Leads P Q m)
    (hn : ¬ p → Leads P Q n) : Leads P Q (if p then m else n) := by
  split
  case isTrue hp => exact hm hp
  case isFalse hp => exact hn hp

theorem recover {m handler : EStateM ε σ Unit} (hm : Leads P Q m) (hhandler : Leads Q Q handler) :
    Leads P Q (recover m handler) := by
  intro s hs
  have hms := hm s hs
  refine recover_final (fun u s' hx => ?_) fun e s' hx => hhandler s' ?_
  · rw [hx] at hms
    exact hms
  · rw [hx] at hms
    exact hms

end Leads

end Base
