import Mathlib.Logic.Function.Basic
import P2Party.Base.TwoParty

/-!
# Sparse healing as an abstract protocol

What a healing exchange is for, without records, frames or keys: two parties
extend one shared sequence of roots, one epoch at a time. The owner of an epoch's
turn offers, its peer answers by committing the next root and waits, the offerer
commits the same root and acknowledges. A party remembers every root it
committed, so "the same root at equal epochs" is agreement of two sequences.

- `owner`: who may offer at an epoch;
- `Party`, `Msg`: a party's committed roots and phase, and the three flights;
- `LocalStep`, `Receives`: what a party can do alone and on receipt of a message;
- `Sent`: what a message a party once sent still says about its state, kept by
  every step (`Sent.step`);
- `Pair`: how the states of the two parties relate, kept when one of them offers
  (`Pair.offer`) or receives a message of the other (`Pair.receive`).
-/

namespace P2Party

open Base

namespace Healing

variable {ρ ω : Type}

/-! ## Turns -/

/-- The party that may offer at an epoch, when `first` may at epoch zero. -/
def owner (first : Role) : Nat → Role
  | 0 => first
  | k + 1 => (owner first k).peer

@[simp] theorem owner_succ (first : Role) (k : Nat) : owner first (k + 1) = (owner first k).peer :=
  rfl

/-! ## States and messages -/

/-- Where a party is in an exchange. -/
inductive Phase (ω : Type)
  | idle
  | offering (o : ω)
  | awaiting (o : ω)

/-- A party: its epoch, the root it committed at each epoch, and its phase. -/
structure Party (ρ ω : Type) where
  epoch : Nat
  roots : Nat → ρ
  phase : Phase ω

/-- What a message says. -/
inductive Body (ρ ω : Type)
  | offer (o : ω)
  | advance (o : ω) (next : ρ)
  | ack

/-- A message, the epoch it is sealed for and the root it is sealed under. -/
structure Msg (ρ ω : Type) where
  epoch : Nat
  root : ρ
  body : Body ρ ω

namespace Party

/-- The current root. -/
def root (x : Party ρ ω) : ρ := x.roots x.epoch

/-- Commit the next root. -/
def commit (x : Party ρ ω) (next : ρ) (phase : Phase ω) : Party ρ ω where
  epoch := x.epoch + 1
  roots := Function.update x.roots (x.epoch + 1) next
  phase := phase

/-- Change the phase only. -/
def withPhase (x : Party ρ ω) (phase : Phase ω) : Party ρ ω := { x with phase }

/-- Only the owner of the turn is busy; a party that waits has committed a root. -/
def Valid (first r : Role) (x : Party ρ ω) : Prop :=
  match x.phase with
  | .idle => True
  | .offering _ => owner first x.epoch = r
  | .awaiting _ => owner first x.epoch = r ∧ 0 < x.epoch

@[simp] theorem commit_epoch (x : Party ρ ω) (next : ρ) (phase : Phase ω) :
    (x.commit next phase).epoch = x.epoch + 1 := rfl

@[simp] theorem commit_roots_self (x : Party ρ ω) (next : ρ) (phase : Phase ω) :
    (x.commit next phase).roots (x.epoch + 1) = next := Function.update_self ..

@[simp] theorem commit_root (x : Party ρ ω) (next : ρ) (phase : Phase ω) :
    (x.commit next phase).root = next := x.commit_roots_self next phase

theorem commit_roots_of_le (x : Party ρ ω) (next : ρ) (phase : Phase ω) {k : Nat}
    (h : k ≤ x.epoch) : (x.commit next phase).roots k = x.roots k :=
  Function.update_of_ne (Nat.ne_of_lt (Nat.lt_succ_of_le h)) ..

end Party

/-! ## Steps -/

/-- A step of party `r`. -/
inductive LocalStep (first r : Role) : Party ρ ω → Party ρ ω → Prop
  | offer {x : Party ρ ω} (o : ω) (idle : x.phase = .idle) (turn : owner first x.epoch = r) :
      LocalStep first r x (x.withPhase (.offering o))
  | answer {x : Party ρ ω} (o : ω) (next : ρ) (idle : x.phase = .idle)
      (turn : owner first x.epoch = r.peer) :
      LocalStep first r x (x.commit next (.awaiting o))
  | finish {x : Party ρ ω} (o : ω) (next : ρ) (offering : x.phase = .offering o) :
      LocalStep first r x (x.commit next .idle)
  | acked {x : Party ρ ω} (o : ω) (awaiting : x.phase = .awaiting o) :
      LocalStep first r x (x.withPhase .idle)

/-- Party `r` receives a message of its peer. -/
inductive Receives (first r : Role) (x : Party ρ ω) : Msg ρ ω → Party ρ ω → Prop
  | answer {root : ρ} (o : ω) (next : ρ) (idle : x.phase = .idle)
      (turn : owner first x.epoch = r.peer) :
      Receives first r x ⟨x.epoch, root, .offer o⟩ (x.commit next (.awaiting o))
  | finish {root : ρ} (o : ω) (next : ρ) (offering : x.phase = .offering o) :
      Receives first r x ⟨x.epoch, root, .advance o next⟩ (x.commit next .idle)
  | acked {root : ρ} (o : ω) (awaiting : x.phase = .awaiting o) :
      Receives first r x ⟨x.epoch, root, .ack⟩ (x.withPhase .idle)

theorem Receives.localStep {first r : Role} {x x' : Party ρ ω} {m : Msg ρ ω}
    (h : Receives first r x m x') : LocalStep first r x x' := by
  cases h with
  | answer o next idle turn => exact .answer o next idle turn
  | finish o next offering => exact .finish o next offering
  | acked o awaiting => exact .acked o awaiting

theorem LocalStep.valid {first r : Role} {x x' : Party ρ ω} (h : LocalStep first r x x') :
    x'.Valid first r := by
  cases h with
  | offer o idle turn => exact turn
  | answer o next idle turn =>
    refine ⟨?_, Nat.succ_pos _⟩
    show (owner first x.epoch).peer = r
    rw [turn, Role.peer_peer]
  | finish o next offering => trivial
  | acked o awaiting => trivial

/-! ## What a sent message still says -/

/-- Party `r` in state `x` once sent `m`: it is at or past the message's epoch,
remembers its root, and is where the message put it or beyond. -/
def Sent (first r : Role) (x : Party ρ ω) (m : Msg ρ ω) : Prop :=
  m.epoch ≤ x.epoch ∧ m.root = x.roots m.epoch ∧
    match m.body with
    | .offer o => owner first m.epoch = r ∧ (x.epoch = m.epoch → x.phase = .offering o)
    | .advance _ next =>
      owner first m.epoch = r.peer ∧ m.epoch < x.epoch ∧ x.roots (m.epoch + 1) = next
    | .ack => owner first m.epoch = r.peer

/-- Every step of a party keeps what its messages say. -/
theorem Sent.step {first r : Role} {x x' : Party ρ ω} {m : Msg ρ ω}
    (hs : Sent first r x m) (h : LocalStep first r x x') : Sent first r x' m := by
  obtain ⟨hle, hroot, hbody⟩ := hs
  -- a step that only changes the phase starts from another phase than an offer leaves
  have hphase : ∀ phase : Phase ω, (∀ o, x.phase ≠ .offering o) →
      Sent first r (x.withPhase phase) m := by
    intro phase hne
    refine ⟨hle, hroot, ?_⟩
    cases hm : m.body with
    | offer o =>
      rw [hm] at hbody
      exact ⟨hbody.1, fun heq => absurd (hbody.2 heq) (hne o)⟩
    | advance o next =>
      rw [hm] at hbody
      exact hbody
    | ack =>
      rw [hm] at hbody
      exact hbody
  have hcommit : ∀ (next : ρ) (phase : Phase ω), Sent first r (x.commit next phase) m := by
    intro next phase
    refine ⟨Nat.le_succ_of_le hle, ?_, ?_⟩
    · rw [x.commit_roots_of_le next phase hle]
      exact hroot
    · cases hm : m.body with
      | offer o =>
        rw [hm] at hbody
        exact ⟨hbody.1, fun heq => absurd (heq ▸ hle) (Nat.not_succ_le_self _)⟩
      | advance o next' =>
        rw [hm] at hbody
        refine ⟨hbody.1, Nat.lt_succ_of_lt hbody.2.1, ?_⟩
        rw [x.commit_roots_of_le next phase hbody.2.1]
        exact hbody.2.2
      | ack =>
        rw [hm] at hbody
        exact hbody
  cases h with
  | offer o idle turn => exact hphase _ (by simp [idle])
  | answer o next idle turn => exact hcommit _ _
  | finish o next offering => exact hcommit _ _
  | acked o awaiting => exact hphase _ (by simp [awaiting])

/-- The messages the steps send. -/
theorem sent_offer {first r : Role} {x : Party ρ ω} {o : ω} (turn : owner first x.epoch = r) :
    Sent first r (x.withPhase (.offering o)) ⟨x.epoch, x.root, .offer o⟩ :=
  ⟨Nat.le_refl _, rfl, turn, fun _ => rfl⟩

theorem sent_advance {first r : Role} {x : Party ρ ω} {o : ω} {next : ρ}
    (turn : owner first x.epoch = r.peer) :
    Sent first r (x.commit next (.awaiting o)) ⟨x.epoch, x.root, .advance o next⟩ :=
  ⟨Nat.le_succ _, (x.commit_roots_of_le next _ (Nat.le_refl _)).symm, turn, Nat.lt_succ_self _,
    x.commit_roots_self next _⟩

theorem sent_ack {first r : Role} {x : Party ρ ω} {next : ρ} (turn : owner first x.epoch = r) :
    Sent first r (x.commit next .idle) ⟨x.epoch + 1, next, .ack⟩ := by
  refine ⟨Nat.le_refl _, (x.commit_roots_self next _).symm, ?_⟩
  show (owner first x.epoch).peer = r.peer
  rw [turn]

/-! ## The two parties together -/

/-- The two parties agree on every root both committed, and are at one epoch, or
one has answered the other's current offer. -/
structure Pair (x y : Party ρ ω) : Prop where
  agree : ∀ k, k ≤ x.epoch → k ≤ y.epoch → x.roots k = y.roots k
  shape : x.epoch = y.epoch ∨
    (y.epoch = x.epoch + 1 ∧ ∃ o, x.phase = .offering o ∧ y.phase = .awaiting o) ∨
    (x.epoch = y.epoch + 1 ∧ ∃ o, y.phase = .offering o ∧ x.phase = .awaiting o)

theorem Pair.symm {x y : Party ρ ω} (h : Pair x y) : Pair y x := by
  refine ⟨fun k hy hx => (h.agree k hx hy).symm, ?_⟩
  rcases h.shape with h | h | h
  · exact .inl h.symm
  · exact .inr (.inr h)
  · exact .inr (.inl h)

/-- The epochs differ by at most one. -/
theorem Pair.epochs {x y : Party ρ ω} (h : Pair x y) :
    x.epoch ≤ y.epoch + 1 ∧ y.epoch ≤ x.epoch + 1 := by
  rcases h.shape with h | ⟨h, -⟩ | ⟨h, -⟩ <;> omega

/-- Equal epochs, equal roots. -/
theorem Pair.roots_eq {x y : Party ρ ω} (h : Pair x y) (heq : x.epoch = y.epoch) :
    x.root = y.root := by
  unfold Party.root
  rw [← heq]
  exact h.agree x.epoch (Nat.le_refl _) (Nat.le_of_eq heq)

/-- An idle party that offers. -/
theorem Pair.offer {x y : Party ρ ω} (h : Pair x y) (idle : y.phase = .idle) (o : ω) :
    Pair x (y.withPhase (.offering o)) := by
  refine ⟨h.agree, ?_⟩
  rcases h.shape with heq | ⟨-, o', -, hy⟩ | ⟨-, o', hy, -⟩
  · exact .inl heq
  · rw [idle] at hy
    cases hy
  · rw [idle] at hy
    cases hy

/-- A message sealed for the receiver's epoch is sealed under the receiver's root. -/
theorem Pair.root_of_sent {first r : Role} {x y : Party ρ ω} {m : Msg ρ ω} (h : Pair x y)
    (hs : Sent first r x m) (hepoch : m.epoch = y.epoch) : m.root = y.root := by
  unfold Party.root
  rw [hs.2.1, hepoch]
  exact h.agree y.epoch (hepoch ▸ hs.1) (Nat.le_refl _)

/-- A party that receives a message its peer sent. -/
theorem Pair.receive {first r : Role} {x y y' : Party ρ ω} {m : Msg ρ ω} (h : Pair x y)
    (hs : Sent first r.peer x m) (hr : Receives first r y m y') : Pair x y' := by
  cases hr with
  | answer o next idle turn =>
    obtain ⟨hle, -, -, hoffering⟩ := hs
    have heq : x.epoch = y.epoch := by
      rcases h.shape with heq | ⟨-, o', -, hy⟩ | ⟨-, o', hy, -⟩
      · exact heq
      · rw [idle] at hy
        cases hy
      · rw [idle] at hy
        cases hy
    refine ⟨fun k hx hy => ?_, .inr (.inl ⟨?_, o, hoffering heq, rfl⟩)⟩
    · rw [y.commit_roots_of_le next _ (heq ▸ hx)]
      exact h.agree k hx (heq ▸ hx)
    · show y.epoch + 1 = x.epoch + 1
      rw [heq]
  | finish o next offering =>
    obtain ⟨-, -, -, hlt, hnext⟩ := hs
    replace hlt : y.epoch < x.epoch := hlt
    have heq : x.epoch = y.epoch + 1 := by
      rcases h.shape with heq | ⟨heq, -⟩ | ⟨heq, -⟩
      · exact absurd heq (Nat.ne_of_gt hlt)
      · exact absurd hlt (by omega)
      · exact heq
    refine ⟨fun k hx hy => ?_, .inl heq⟩
    rcases Nat.lt_or_eq_of_le (show k ≤ y.epoch + 1 from hy) with hk | rfl
    · rw [y.commit_roots_of_le next _ (Nat.le_of_lt_succ hk)]
      exact h.agree k hx (Nat.le_of_lt_succ hk)
    · rw [y.commit_roots_self next _]
      exact hnext
  | acked o awaiting =>
    obtain ⟨hle, -, -⟩ := hs
    refine ⟨h.agree, ?_⟩
    rcases h.shape with heq | ⟨heq, -⟩ | ⟨-, o', hy, -⟩
    · exact .inl heq
    · exact absurd hle (by show ¬ y.epoch ≤ x.epoch; omega)
    · rw [awaiting] at hy
      cases hy

end Healing

end P2Party
