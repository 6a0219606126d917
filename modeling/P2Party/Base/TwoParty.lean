import Mathlib.Logic.Relation
import Mathlib.Tactic.Common

/-!
# Two parties and their runs

A protocol between two parties is a state with one component per party and a
step relation on it. `Role` names the parties, `upd` changes one component,
and a run is the reflexive-transitive closure of the step relation.

- `Role.eq_or_eq_peer`: a second role is the first or its peer;
- `upd_self`, `upd_peer`: what an update of one component leaves to each party;
- `Runs.invariant`: a property every step keeps holds along every run.
-/

namespace Base

/-- The two parties. -/
inductive Role
  | initiator
  | responder
deriving DecidableEq, Repr

namespace Role

/-- The other party. -/
def peer : Role → Role
  | initiator => responder
  | responder => initiator

@[simp] theorem peer_peer (r : Role) : r.peer.peer = r := by
  cases r <;> rfl

@[simp] theorem peer_ne (r : Role) : r.peer ≠ r := by
  cases r <;> decide

@[simp] theorem ne_peer (r : Role) : r ≠ r.peer := (peer_ne r).symm

theorem eq_or_eq_peer (r q : Role) : q = r ∨ q = r.peer := by
  cases r <;> cases q <;> simp [peer]

end Role

variable {α : Type}

/-- Change one party's component. -/
def upd (f : Role → α) (r : Role) (a : α) : Role → α := fun q => if q = r then a else f q

@[simp] theorem upd_self (f : Role → α) (r : Role) (a : α) : upd f r a r = a :=
  if_pos rfl

@[simp] theorem upd_peer (f : Role → α) (r : Role) (a : α) : upd f r a r.peer = f r.peer :=
  if_neg (Role.peer_ne r)

@[simp] theorem upd_peer_self (f : Role → α) (r : Role) (a : α) : upd f r.peer a r = f r :=
  if_neg (Role.ne_peer r)

@[simp] theorem upd_same (f : Role → α) (r : Role) : upd f r (f r) = f := by
  funext q
  unfold upd
  split
  · rename_i h
    rw [h]
  · rfl

/-- A run: any number of steps. -/
abbrev Runs {σ : Type} (step : σ → σ → Prop) : σ → σ → Prop := Relation.ReflTransGen step

/-- Moves that are computed make a run. -/
theorem Runs.of_moves {σ α : Type} {step : σ → σ → Prop} {move : σ → α → Option σ} {moves : List α}
    (h : ∀ a ∈ moves, ∀ s s', move s a = some s' → step s s') {s s' : σ} (hmoves : moves.foldlM move s = some s') :
    Runs step s s' := by
  induction moves generalizing s with
  | nil =>
    cases hmoves
    exact .refl
  | cons a moves ih =>
    rw [List.foldlM_cons] at hmoves
    obtain ⟨next, hmove, hrest⟩ := Option.bind_eq_some_iff.mp hmoves
    exact .head (h a List.mem_cons_self s next hmove) (ih (fun b hb => h b (List.mem_cons_of_mem a hb)) hrest)

/-- What every step keeps, every run keeps. -/
theorem Runs.invariant {σ : Type} {step : σ → σ → Prop} {P : σ → Prop}
    (hstep : ∀ s s', P s → step s s' → P s') {s s' : σ} (hs : P s) (hrun : Runs step s s') :
    P s' := by
  induction hrun with
  | refl => exact hs
  | tail _ hlast ih => exact hstep _ _ ih hlast

end Base
