import Mathlib.Tactic.Common

/-!
# Stateful code that throws

A method that mutates its object and may throw is an `EStateM ε σ α`: the state
it leaves behind is visible whether it returned or threw. This module adds the
few combinators the models need and the equations that run them symbolically.

- `ensure`: throw unless a condition holds;
- `demand`: the same in code without state;
- `attempt`: call a pure function that may throw;
- `zoom`: run a method of a component inside its owner;
- `run_bind_of_ok`, `run_bind_of_error`: sequencing after a known result;
- `run_get_bind`, `run_modify_bind`, `run_ensure_bind`, `run_attempt_bind`: sequencing after a combinator;
- `mapM_ok`, `mapM_zipIdx_ok`, `mapM_eq_ok`: a pure loop every iteration of which returns;
- `bind_eq_ok`, `ensure_bind_eq_ok`, `attempt_bind_eq_ok`: a sequence returned exactly
  when its parts did;
- `Keeps`: what a method preserves whether it returns or throws;
- `Throws`: what code may throw;
-/

namespace Base

variable {ε σ τ α β : Type}

/-- Throw `e` unless `p` holds. -/
def ensure (p : Prop) [Decidable p] (e : ε) : EStateM ε σ Unit :=
  if p then pure () else throw e

/-- Throw `e` unless `p` holds, in code without state. -/
def demand (p : Prop) [Decidable p] (e : ε) : Except ε Unit :=
  if p then .ok () else .error e

/-- Call a pure computation that may throw. -/
def attempt : Except ε α → EStateM ε σ α
  | .ok a => pure a
  | .error e => throw e

/-- Run a method of a component of the state. -/
def zoom (view : σ → τ) (put : τ → σ → σ) (m : EStateM ε τ α) : EStateM ε σ α := fun s =>
  match m.run (view s) with
  | .ok a t => .ok a (put t s)
  | .error e t => .error e (put t s)

/-! ## Running the combinators -/

theorem demand_of {p : Prop} [Decidable p] {e : ε} (h : p) : demand p e = .ok () := if_pos h

theorem demand_eq_ok {p : Prop} [Decidable p] {e : ε} {u : Unit} : demand p e = .ok u ↔ p := by
  by_cases h : p <;> simp [demand, h]

@[simp] theorem demand_bind (p : Prop) [Decidable p] (e : ε) (f : Unit → Except ε β) :
    (demand p e >>= f) = if p then f () else .error e := by
  by_cases h : p <;> simp only [demand, h, if_true, if_false] <;> rfl

@[simp] theorem ok_bind (a : α) (f : α → Except ε β) : (Except.ok a >>= f) = f a := rfl

@[simp] theorem error_bind (e : ε) (f : α → Except ε β) :
    ((Except.error e : Except ε α) >>= f) = .error e := rfl

/-- A pure sequence returned exactly when both its parts did. -/
theorem except_bind_eq_ok {x : Except ε α} {f : α → Except ε β} {b : β} :
    (x >>= f) = .ok b ↔ ∃ a, x = .ok a ∧ f a = .ok b := by
  cases x with
  | ok a => simp
  | error e => simp

/-- A pure loop every iteration of which returns. -/
theorem mapM_ok {f : α → Except ε β} {g : α → β} {as : List α} (h : ∀ a ∈ as, f a = .ok (g a)) :
    as.mapM f = .ok (as.map g) := by
  induction as with
  | nil => rfl
  | cons a as ih =>
    rw [List.mapM_cons, h a List.mem_cons_self, ok_bind,
      ih fun b hb => h b (List.mem_cons_of_mem a hb)]
    rfl

/-- A pure loop over a list and its indices. -/
theorem mapM_zipIdx_ok {f : Nat → α} {g : α × Nat → Except ε β} {h : Nat → β} {n : Nat}
    (hg : ∀ i < n, g (f i, i) = .ok (h i)) :
    ((List.range n).map f).zipIdx.mapM g = .ok ((List.range n).map h) := by
  have hzip : ((List.range n).map f).zipIdx = (List.range n).map fun i => (f i, i) := by
    refine List.ext_getElem (by simp) fun i h1 h2 => ?_
    simp
  have hall : ∀ p ∈ ((List.range n).map f).zipIdx, g p = .ok (h p.2) := by
    rw [hzip]
    intro p hp
    obtain ⟨i, hi, rfl⟩ := List.mem_map.mp hp
    exact hg i (List.mem_range.mp hi)
  rw [mapM_ok (g := fun p => h p.2) hall, hzip, List.map_map]
  rfl

/-- A pure loop returned exactly when every iteration returned. -/
theorem mapM_eq_ok {f : α → Except ε β} {as : List α} {bs : List β} (h : as.mapM f = .ok bs) :
    as.map f = bs.map .ok := by
  induction as generalizing bs with
  | nil =>
    cases h
    rfl
  | cons a as ih =>
    rw [List.mapM_cons] at h
    obtain ⟨b, hb, h⟩ := except_bind_eq_ok.mp h
    obtain ⟨rest, hrest, h⟩ := except_bind_eq_ok.mp h
    cases h
    rw [List.map_cons, List.map_cons, hb, ih hrest]

theorem mapM_isOk {f : α → Except ε β} {as : List α} {bs : List β} (h : as.mapM f = .ok bs) {a : α}
    (ha : a ∈ as) : ∃ b ∈ bs, f a = .ok b := by
  have hmem : f a ∈ bs.map .ok := mapM_eq_ok h ▸ List.mem_map_of_mem ha
  obtain ⟨b, hb, heq⟩ := List.mem_map.mp hmem
  exact ⟨b, hb, heq.symm⟩

@[simp] theorem except_pure_eq_ok {a b : α} : (pure a : Except ε α) = .ok b ↔ a = b := by
  show Except.ok a = Except.ok b ↔ a = b
  simp

@[simp] theorem run_throw_any (e : ε) (s : σ) :
    (throw e : EStateM ε σ α).run s = .error e s := rfl

@[simp] theorem run_map (f : α → β) (m : EStateM ε σ α) (s : σ) :
    (f <$> m).run s =
      match m.run s with
      | .ok a s' => .ok (f a) s'
      | .error e s' => .error e s' := by
  show EStateM.map f m s = _
  rw [EStateM.map]
  cases h : m.run s with
  | ok a s' => rw [show m s = .ok a s' from h]
  | error e s' => rw [show m s = .error e s' from h]

@[simp] theorem run_ite (c : Prop) [Decidable c] (m n : EStateM ε σ α) (s : σ) :
    (if c then m else n).run s = if c then m.run s else n.run s := by
  split <;> rfl

@[simp] theorem run_ensure (p : Prop) [Decidable p] (e : ε) (s : σ) :
    (ensure p e : EStateM ε σ Unit).run s = if p then .ok () s else .error e s := by
  rw [ensure, run_ite]
  rfl

@[simp] theorem run_attempt_ok (a : α) (s : σ) :
    (attempt (.ok a : Except ε α) : EStateM ε σ α).run s = .ok a s := rfl

@[simp] theorem run_attempt_error (e : ε) (s : σ) :
    (attempt (.error e : Except ε α) : EStateM ε σ α).run s = .error e s := rfl

@[simp] theorem run_zoom (view : σ → τ) (put : τ → σ → σ) (m : EStateM ε τ α) (s : σ) :
    (zoom view put m).run s =
      match m.run (view s) with
      | .ok a t => .ok a (put t s)
      | .error e t => .error e (put t s) := rfl

/-! ## Sequencing -/

/-- After a first part that returned, a sequence is its second part. -/
theorem run_bind_of_ok {x : EStateM ε σ α} {f : α → EStateM ε σ β} {s s' : σ} {a : α}
    (h : x.run s = .ok a s') : (x >>= f).run s = (f a).run s' := by
  rw [EStateM.run_bind, h]

/-- A first part that threw ends the sequence. -/
theorem run_bind_of_error {x : EStateM ε σ α} {f : α → EStateM ε σ β} {s s' : σ} {e : ε}
    (h : x.run s = .error e s') : (x >>= f).run s = .error e s' := by
  rw [EStateM.run_bind, h]

theorem run_get_bind (f : σ → EStateM ε σ β) (s : σ) :
    ((get : EStateM ε σ σ) >>= f).run s = (f s).run s := rfl

theorem run_modify_bind (g : σ → σ) (f : PUnit → EStateM ε σ β) (s : σ) :
    (modify g >>= f).run s = (f ⟨⟩).run (g s) := rfl

theorem run_ensure_bind (p : Prop) [Decidable p] (e : ε) (f : Unit → EStateM ε σ β) (s : σ) :
    (ensure p e >>= f).run s = if p then (f ()).run s else .error e s := by
  by_cases h : p
  · rw [if_pos h, run_bind_of_ok (by rw [run_ensure, if_pos h])]
  · rw [if_neg h, run_bind_of_error (by rw [run_ensure, if_neg h])]

theorem run_attempt_bind (x : Except ε α) (f : α → EStateM ε σ β) (s : σ) :
    (attempt x >>= f).run s =
      match x with
      | .ok a => (f a).run s
      | .error e => .error e s := by
  cases x <;> rfl

theorem run_ensure_of {p : Prop} [Decidable p] {e : ε} {f : Unit → EStateM ε σ β} {s : σ} (h : p) :
    (ensure p e >>= f).run s = (f ()).run s := by
  rw [run_ensure_bind, if_pos h]

theorem run_ensure_of_not {p : Prop} [Decidable p] {e : ε} {f : Unit → EStateM ε σ β} {s : σ}
    (h : ¬ p) : (ensure p e >>= f).run s = .error e s := by
  rw [run_ensure_bind, if_neg h]

theorem run_attempt_of_ok {x : Except ε α} {f : α → EStateM ε σ β} {s : σ} {a : α} (h : x = .ok a) :
    (attempt x >>= f).run s = (f a).run s := by
  rw [h, run_attempt_bind]

theorem run_attempt_of_error {x : Except ε α} {f : α → EStateM ε σ β} {s : σ} {e : ε}
    (h : x = .error e) : (attempt x >>= f).run s = .error e s := by
  rw [h, run_attempt_bind]

/-- A sequence returned exactly when its first part did and its second part did
from there. -/
theorem bind_eq_ok {x : EStateM ε σ α} {f : α → EStateM ε σ β} {s s'' : σ} {b : β} :
    (x >>= f).run s = .ok b s'' ↔
      ∃ a s', x.run s = .ok a s' ∧ (f a).run s' = .ok b s'' := by
  rw [EStateM.run_bind]
  cases hx : x.run s with
  | ok a s' => simp
  | error e s' => simp

theorem run_ensure_eq_ok {p : Prop} [Decidable p] {e : ε} {s s' : σ} {u : Unit} :
    (ensure p e : EStateM ε σ Unit).run s = .ok u s' ↔ p ∧ s' = s := by
  rw [run_ensure]
  by_cases h : p
  · simp [h, eq_comm]
  · simp [h]

theorem run_attempt_eq_ok {x : Except ε α} {s s' : σ} {a : α} :
    (attempt x : EStateM ε σ α).run s = .ok a s' ↔ x = .ok a ∧ s' = s := by
  cases x with
  | ok b => simp [eq_comm]
  | error e => simp

theorem ensure_bind_eq_ok {p : Prop} [Decidable p] {e : ε} {f : Unit → EStateM ε σ β} {s s' : σ}
    {b : β} : (ensure p e >>= f).run s = .ok b s' ↔ p ∧ (f ()).run s = .ok b s' := by
  rw [run_ensure_bind]
  by_cases h : p
  · simp [h]
  · simp [h]

theorem attempt_bind_eq_ok {x : Except ε α} {f : α → EStateM ε σ β} {s s' : σ} {b : β} :
    (attempt x >>= f).run s = .ok b s' ↔ ∃ a, x = .ok a ∧ (f a).run s = .ok b s' := by
  rw [run_attempt_bind]
  cases x <;> simp

/-- The state a run leaves behind, returned or thrown. -/
def finalState : EStateM.Result ε σ α → σ
  | .ok _ s => s
  | .error _ s => s

@[simp] theorem finalState_ok (a : α) (s : σ) :
    finalState (.ok a s : EStateM.Result ε σ α) = s := rfl

@[simp] theorem finalState_error (e : ε) (s : σ) :
    finalState (.error e s : EStateM.Result ε σ α) = s := rfl

/-- `m` keeps `P`: from a state with `P` it leaves a state with `P`, whether it
returns or throws. -/
def Keeps (P : σ → Prop) (m : EStateM ε σ α) : Prop :=
  ∀ s, P s → P (finalState (m.run s))

theorem Keeps.of_ok {P : σ → Prop} {m : EStateM ε σ α} (h : Keeps P m) {s s' : σ} {a : α} (hs : P s)
    (hrun : m.run s = .ok a s') : P s' := by
  have hfinal := h s hs
  rw [hrun] at hfinal
  exact hfinal

theorem Keeps.bind {P : σ → Prop} {m : EStateM ε σ α} {f : α → EStateM ε σ β}
    (hm : Keeps P m) (hf : ∀ a, Keeps P (f a)) : Keeps P (m >>= f) := by
  intro s hs
  have hms := hm s hs
  rw [EStateM.run_bind]
  cases hx : m.run s with
  | ok a s' =>
    rw [hx] at hms
    exact hf a s' hms
  | error e s' =>
    rw [hx] at hms
    exact hms

theorem Keeps.pure {P : σ → Prop} (a : α) : Keeps P (pure a : EStateM ε σ α) := fun _ h => h

theorem Keeps.throw {P : σ → Prop} (e : ε) : Keeps P (throw e : EStateM ε σ α) := fun _ h => h

/-- A pure call leaves the state alone. -/
theorem Keeps.attempt {P : σ → Prop} (x : Except ε α) : Keeps P (attempt x : EStateM ε σ α) := by
  intro s hs
  cases x <;> exact hs

theorem Keeps.ensure {P : σ → Prop} (p : Prop) [Decidable p] (e : ε) :
    Keeps P (ensure p e : EStateM ε σ Unit) := by
  intro s hs
  rw [run_ensure]
  split <;> exact hs

theorem Keeps.change {P : σ → Prop} {f : σ → σ} (h : ∀ s, P s → P (f s)) :
    Keeps P (modify f : EStateM ε σ PUnit) := fun s hs => h s hs

/-- What follows a read knows the state that was read. -/
theorem Keeps.read {P : σ → Prop} {f : σ → EStateM ε σ β}
    (h : ∀ s, P s → P (finalState ((f s).run s))) : Keeps P (get >>= f) := h

theorem Keeps.ite {P : σ → Prop} {p : Prop} [Decidable p] {m n : EStateM ε σ α} (hm : Keeps P m)
    (hn : Keeps P n) : Keeps P (if p then m else n) := by
  split
  · exact hm
  · exact hn

/-! ## What code may throw -/

/-- Whatever `m` throws satisfies `P`. -/
def Throws (P : ε → Prop) (m : EStateM ε σ α) : Prop :=
  ∀ s e s', m.run s = .error e s' → P e

namespace Throws

variable {P : ε → Prop}

theorem pure (a : α) : Throws P (pure a : EStateM ε σ α) := by
  rintro s e s' ⟨⟩

theorem bind {m : EStateM ε σ α} {f : α → EStateM ε σ β} (hm : Throws P m)
    (hf : ∀ a, Throws P (f a)) : Throws P (m >>= f) := by
  intro s e s' h
  rw [EStateM.run_bind] at h
  cases hx : m.run s with
  | ok a s₁ =>
    rw [hx] at h
    exact hf a s₁ e s' h
  | error e₁ s₁ =>
    rw [hx] at h
    cases h
    exact hm s e s' hx

theorem ensure {e : ε} (h : P e) (p : Prop) [Decidable p] :
    Throws P (ensure p e : EStateM ε σ Unit) := by
  intro s e' s' hrun
  rw [run_ensure] at hrun
  split at hrun
  · cases hrun
  · cases hrun
    exact h

theorem attempt {x : Except ε α} (h : ∀ e, x = .error e → P e) :
    Throws P (attempt x : EStateM ε σ α) := by
  intro s e s' hrun
  cases x with
  | ok a => cases hrun
  | error e₁ =>
    cases hrun
    exact h e rfl

end Throws

end Base
