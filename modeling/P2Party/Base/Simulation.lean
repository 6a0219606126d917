import P2Party.Base.Exec

/-!
# Code that simulates code

`Simulates P Q m n`: from states related by `P`, `m` and `n` return the same or throw
the same and leave states related by `Q`. The rules follow the structure of the code,
so that the simulation of a method is put together from those of its statements;
`silent` is for a statement of `m` that `n` does not have.
-/

namespace Base

variable {ε σ τ α β : Type}

/-- Two runs ended alike. -/
def Alike (Q : σ → τ → Prop) : EStateM.Result ε σ α → EStateM.Result ε τ α → Prop
  | .ok a s, .ok b t => a = b ∧ Q s t
  | .error e s, .error f t => e = f ∧ Q s t
  | _, _ => False

/-- From states related by `P`, `m` and `n` end alike, in states related by `Q`. -/
def Simulates (P Q : σ → τ → Prop) (m : EStateM ε σ α) (n : EStateM ε τ α) : Prop :=
  ∀ s t, P s t → Alike Q (m.run s) (n.run t)

theorem Alike.mono {Q R : σ → τ → Prop} (hQR : ∀ s t, Q s t → R s t)
    {x : EStateM.Result ε σ α} {y : EStateM.Result ε τ α} (h : Alike Q x y) : Alike R x y := by
  cases x <;> cases y
  case ok.ok => exact ⟨h.1, hQR _ _ h.2⟩
  case ok.error => exact h.elim
  case error.ok => exact h.elim
  case error.error => exact ⟨h.1, hQR _ _ h.2⟩

/-- Runs that ended alike leave related states. -/
theorem Alike.final {Q : σ → τ → Prop} {x : EStateM.Result ε σ α} {y : EStateM.Result ε τ α}
    (h : Alike Q x y) : Q (finalState x) (finalState y) := by
  cases x <;> cases y
  case ok.ok => exact h.2
  case ok.error => exact h.elim
  case error.ok => exact h.elim
  case error.error => exact h.2

namespace Simulates

variable {P P' Q R : σ → τ → Prop}

theorem mono {m : EStateM ε σ α} {n : EStateM ε τ α} (h : Simulates P Q m n)
    (hP : ∀ s t, P' s t → P s t) (hQ : ∀ s t, Q s t → R s t) : Simulates P' R m n :=
  fun s t hst => (h s t (hP s t hst)).mono hQ

theorem pure (a : α) (h : ∀ s t, P s t → Q s t) :
    Simulates P Q (pure a : EStateM ε σ α) (pure a) := fun s t hst => ⟨rfl, h s t hst⟩

/-- `bind`, where the results of `n` are known to satisfy `p`. -/
theorem bind_of {m : EStateM ε σ α} {n : EStateM ε τ α} {f : α → EStateM ε σ β}
    {g : α → EStateM ε τ β} {p : α → Prop} (hQR : ∀ s t, Q s t → R s t) (hm : Simulates P Q m n)
    (hp : ∀ t a t', n.run t = .ok a t' → p a) (hf : ∀ a, p a → Simulates Q R (f a) (g a)) :
    Simulates P R (m >>= f) (n >>= g) := by
  intro s t h
  have hmn := hm s t h
  rw [EStateM.run_bind, EStateM.run_bind]
  cases hx : m.run s <;> cases hy : n.run t <;> rw [hx, hy] at hmn
  case ok.ok a s' b t' =>
    obtain ⟨rfl, h'⟩ := hmn
    exact hf a (hp t a t' hy) s' t' h'
  case ok.error => exact hmn.elim
  case error.ok => exact hmn.elim
  case error.error => exact ⟨hmn.1, hQR _ _ hmn.2⟩

theorem bind {m : EStateM ε σ α} {n : EStateM ε τ α} {f : α → EStateM ε σ β}
    {g : α → EStateM ε τ β} (hQR : ∀ s t, Q s t → R s t) (hm : Simulates P Q m n)
    (hf : ∀ a, Simulates Q R (f a) (g a)) : Simulates P R (m >>= f) (n >>= g) :=
  bind_of (p := fun _ => True) hQR hm (fun _ _ _ _ => trivial) fun a _ => hf a

/-- Both sides read their state; what follows knows which states were read. -/
theorem read {f : σ → EStateM ε σ β} {g : τ → EStateM ε τ β}
    (h : ∀ s t, P s t → Simulates (fun s' t' => P s' t' ∧ s' = s ∧ t' = t) Q (f s) (g t)) :
    Simulates P Q (get >>= f) (get >>= g) := fun s t hst => by
  rw [run_get_bind, run_get_bind]
  exact h s t hst s t ⟨hst, rfl, rfl⟩

/-- A change of state on both sides, then the rest. -/
theorem change {f : σ → σ} {g : τ → τ} {m : EStateM ε σ α} {n : EStateM ε τ α}
    (hfg : ∀ s t, P s t → Q (f s) (g t)) (hm : Simulates Q R m n) :
    Simulates P R (modify f >>= fun _ => m) (modify g >>= fun _ => n) :=
  fun s t h => hm (f s) (g t) (hfg s t h)

/-- A change of state on both sides at the end. -/
theorem change_last {f : σ → σ} {g : τ → τ} (hfg : ∀ s t, P s t → Q (f s) (g t)) :
    Simulates P Q (modify f : EStateM ε σ PUnit) (modify g) := fun s t h => ⟨rfl, hfg s t h⟩

/-- A change of state of `m` alone. -/
theorem silent {f : σ → σ} {m : EStateM ε σ α} {n : EStateM ε τ α}
    (hf : ∀ s t, P s t → Q (f s) t) (hm : Simulates Q R m n) :
    Simulates P R (modify f >>= fun _ => m) n := fun s t h => hm (f s) t (hf s t h)

theorem attempt {x : Except ε α} {f : α → EStateM ε σ β} {g : α → EStateM ε τ β}
    (hPQ : ∀ s t, P s t → Q s t) (hf : ∀ a, Simulates P Q (f a) (g a)) :
    Simulates P Q (attempt x >>= f) (attempt x >>= g) := fun s t h => by
  rw [run_attempt_bind, run_attempt_bind]
  cases x with
  | ok a => exact hf a s t h
  | error e => exact ⟨rfl, hPQ s t h⟩

theorem ensure {p : Prop} [Decidable p] {e : ε} {f : Unit → EStateM ε σ β}
    {g : Unit → EStateM ε τ β} (hPQ : ∀ s t, P s t → Q s t) (hf : p → Simulates P Q (f ()) (g ())) :
    Simulates P Q (ensure p e >>= f) (ensure p e >>= g) := fun s t h => by
  rw [run_ensure_bind, run_ensure_bind]
  split
  case isTrue hp => exact hf hp s t h
  case isFalse => exact ⟨rfl, hPQ s t h⟩

theorem ite {p : Prop} [Decidable p] {m m' : EStateM ε σ α} {n n' : EStateM ε τ α}
    (hm : p → Simulates P Q m n) (hm' : ¬ p → Simulates P Q m' n') :
    Simulates P Q (if p then m else m') (if p then n else n') := by
  split
  case isTrue hp => exact hm hp
  case isFalse hp => exact hm' hp

/-- A method of a component on both sides. -/
theorem zoom {υ υ' : Type} {p q : υ → υ' → Prop} {view : σ → υ} {put : υ → σ → σ} {view' : τ → υ'}
    {put' : υ' → τ → τ} {m : EStateM ε υ α} {n : EStateM ε υ' α} (hm : Simulates p q m n)
    (hview : ∀ s t, P s t → p (view s) (view' t))
    (hput : ∀ s t u v, P s t → q u v → Q (put u s) (put' v t)) :
    Simulates P Q (zoom view put m) (zoom view' put' n) := fun s t h => by
  have hmn := hm _ _ (hview s t h)
  rw [run_zoom, run_zoom]
  cases hx : m.run (view s) <;> cases hy : n.run (view' t) <;> rw [hx, hy] at hmn
  case ok.ok => exact ⟨hmn.1, hput s t _ _ h hmn.2⟩
  case ok.error => exact hmn.elim
  case error.ok => exact hmn.elim
  case error.error => exact ⟨hmn.1, hput s t _ _ h hmn.2⟩

end Simulates

/-- Run `m`, and `handler` in the state it left if it throws. -/
def recover (m handler : EStateM ε σ Unit) : EStateM ε σ Unit := fun s =>
  match m.run s with
  | .ok u s' => .ok u s'
  | .error _ s' => handler.run s'

/-- Either `m` returns, or its handler ends the run. -/
theorem recover_final {Q : σ → Prop} {m handler : EStateM ε σ Unit} {s : σ}
    (hok : ∀ u s', m.run s = .ok u s' → Q s')
    (herror : ∀ e s', m.run s = .error e s' → Q (finalState (handler.run s'))) :
    Q (finalState ((recover m handler).run s)) := by
  show Q (finalState (match m.run s with | .ok u s' => .ok u s' | .error _ s' => handler.run s'))
  cases hx : m.run s with
  | ok u s' => exact hok u s' hx
  | error e s' => exact herror e s' hx

theorem Keeps.recover {P : σ → Prop} {m handler : EStateM ε σ Unit} (hm : Keeps P m)
    (hhandler : Keeps P handler) : Keeps P (recover m handler) := by
  intro s hs
  have hms := hm s hs
  refine recover_final (fun u s' hx => ?_) fun e s' hx => hhandler s' ?_
  · rw [hx] at hms
    exact hms
  · rw [hx] at hms
    exact hms

theorem Simulates.recover {P Q : σ → τ → Prop} {m m' : EStateM ε σ Unit} {n n' : EStateM ε τ Unit}
    (hm : Simulates P Q m n) (hm' : Simulates Q Q m' n') :
    Simulates P Q (recover m m') (recover n n') := by
  intro s t h
  have hmn := hm s t h
  show Alike Q (match m.run s with | .ok u s' => .ok u s' | .error _ s' => m'.run s')
    (match n.run t with | .ok u t' => .ok u t' | .error _ t' => n'.run t')
  cases hx : m.run s <;> cases hy : n.run t <;> rw [hx, hy] at hmn
  case ok.ok => exact hmn
  case ok.error => exact hmn.elim
  case error.ok => exact hmn.elim
  case error.error => exact hm' _ _ hmn.2

end Base
