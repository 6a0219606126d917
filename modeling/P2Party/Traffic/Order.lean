import P2Party.PqHealing.Protocol

/-!
# Traffic around healing exchanges

Two parties that heal send application traffic over the same ordered channels as their
flights. A party is silent while it is busy, and it is busy from its own OFFER or ADVANCE on until
the other end has caught up. So no traffic ever stands behind a flight that moves its
receiver to another epoch, and all traffic in flight is of the receiver's epoch.

- `Flight`: what is in flight, in terms of the protocol;
- `Ordered`: the traffic is the receiver's, and nothing stands behind a flight that commits;
- `Ordered.receive`: receiving the oldest flight keeps it;
- `Ordered.send`: so does new traffic of an idle sender;
- `Ordered.sublist`: so does a loss.
-/

namespace P2Party

open Base

namespace Healing

variable {ρ ω : Type}

/-- What is in flight: traffic sealed under an epoch and its root, or a flight of an exchange. -/
inductive Flight (ρ ω : Type)
  | traffic (epoch : Nat) (root : ρ)
  | control (m : Msg ρ ω)

/-- A party at this epoch commits when it takes the flight. -/
def Msg.Commits (m : Msg ρ ω) (epoch : Nat) : Prop := m.epoch = epoch ∧ m.body ≠ .ack

/-- There is no traffic among the flights. -/
def Quiet (flights : List (Flight ρ ω)) : Prop := ∀ epoch root, Flight.traffic epoch root ∉ flights

/-- The flights to a party at this epoch and root, oldest first: their traffic is of that epoch and
root, and none of it stands behind a flight that commits. -/
def Ordered (epoch : Nat) (root : ρ) : List (Flight ρ ω) → Prop
  | [] => True
  | .traffic e s :: rest => (e = epoch ∧ s = root) ∧ Ordered epoch root rest
  | .control m :: rest => (m.Commits epoch → Quiet rest) ∧ Ordered epoch root rest

variable {epoch : Nat} {root : ρ} {flights rest : List (Flight ρ ω)} {m : Msg ρ ω}

theorem Quiet.tail {flight : Flight ρ ω} (h : Quiet (flight :: rest)) : Quiet rest :=
  fun e s hmem => h e s (List.mem_cons_of_mem _ hmem)

theorem Quiet.sublist {flights' : List (Flight ρ ω)} (h : Quiet flights)
    (hsub : List.Sublist flights' flights) : Quiet flights' :=
  fun e s hmem => h e s (hsub.subset hmem)

theorem Quiet.snoc_control (h : Quiet flights) (m : Msg ρ ω) : Quiet (flights ++ [.control m]) := by
  intro e s hmem
  rcases List.mem_append.mp hmem with hmem | hmem
  · exact h e s hmem
  · cases List.mem_singleton.mp hmem

/-- Without traffic there is nothing to keep in order. -/
theorem Quiet.ordered (h : Quiet flights) (epoch : Nat) (root : ρ) : Ordered epoch root flights := by
  induction flights with
  | nil => trivial
  | cons flight rest ih =>
    cases flight with
    | traffic e s => exact absurd List.mem_cons_self (h e s)
    | control m => exact ⟨fun _ => h.tail, ih h.tail⟩

/-- What is left of the flights when some are lost is in order. -/
theorem Ordered.sublist {flights' : List (Flight ρ ω)} (h : Ordered epoch root flights)
    (hsub : List.Sublist flights' flights) : Ordered epoch root flights' := by
  induction hsub with
  | slnil => trivial
  | cons flight hsub ih =>
    cases flight with
    | traffic e s => exact ih h.2
    | control m => exact ih h.2
  | cons_cons flight hsub ih =>
    cases flight with
    | traffic e s => exact ⟨h.1, ih h.2⟩
    | control m => exact ⟨fun hcommits => (h.1 hcommits).sublist hsub, ih h.2⟩

/-- A flight of an exchange joins at the end. -/
theorem Ordered.snoc_control (h : Ordered epoch root flights) (m : Msg ρ ω) :
    Ordered epoch root (flights ++ [.control m]) := by
  induction flights with
  | nil => exact ⟨fun _ _ _ hmem => absurd hmem List.not_mem_nil, trivial⟩
  | cons flight rest ih =>
    cases flight with
    | traffic e s => exact ⟨h.1, ih h.2⟩
    | control m' => exact ⟨fun hcommits => (h.1 hcommits).snoc_control m, ih h.2⟩

/-- Traffic of the receiver's epoch joins where no flight commits. -/
theorem Ordered.snoc_traffic (h : Ordered epoch root flights)
    (hnone : ∀ m, Flight.control m ∈ flights → ¬ m.Commits epoch) :
    Ordered epoch root (flights ++ [.traffic epoch root]) := by
  induction flights with
  | nil => exact ⟨⟨rfl, rfl⟩, trivial⟩
  | cons flight rest ih =>
    have hrest := fun m hmem => hnone m (List.mem_cons_of_mem _ hmem)
    cases flight with
    | traffic e s => exact ⟨h.1, ih h.2 hrest⟩
    | control m' =>
      exact ⟨fun hcommits => absurd hcommits (hnone m' List.mem_cons_self), ih h.2 hrest⟩

/-- The party that receives the oldest flight finds the rest in order. -/
theorem Ordered.receive {first r : Role} {y y' : Party ρ ω}
    (h : Ordered y.epoch y.root (.control m :: rest)) (hr : Receives first r y m y') :
    Ordered y'.epoch y'.root rest := by
  obtain ⟨hquiet, hrest⟩ := h
  cases hr with
  | answer o next idle turn =>
    exact (hquiet ⟨rfl, by rintro ⟨⟩⟩).ordered _ _
  | finish o next offering =>
    exact (hquiet ⟨rfl, by rintro ⟨⟩⟩).ordered _ _
  | acked o awaiting => exact hrest

/-- No flight of an idle party commits its peer, if they are at one epoch. -/
theorem Sent.not_commits {first r : Role} {x : Party ρ ω} (h : Sent first r x m)
    (idle : x.phase = .idle) : ¬ m.Commits x.epoch := by
  rintro ⟨hepoch, hbody⟩
  obtain ⟨-, -, hsent⟩ := h
  cases hm : m.body with
  | offer o =>
    rw [hm] at hsent
    have hoffering := hsent.2 hepoch.symm
    rw [idle] at hoffering
    cases hoffering
  | advance o next =>
    rw [hm] at hsent
    exact absurd hepoch (Nat.ne_of_lt hsent.2.1)
  | ack => exact hbody hm

/-- An idle party and its peer are at one epoch and root. -/
theorem Pair.of_idle {x y : Party ρ ω} (h : Pair x y) (idle : x.phase = .idle) :
    x.epoch = y.epoch ∧ x.root = y.root := by
  have heq : x.epoch = y.epoch := by
    rcases h.shape with heq | ⟨-, o, hx, -⟩ | ⟨-, o, -, hx⟩
    · exact heq
    · rw [idle] at hx
      cases hx
    · rw [idle] at hx
      cases hx
  exact ⟨heq, h.roots_eq heq⟩

/-- An idle party sends traffic. -/
theorem Ordered.send {first r : Role} {x y : Party ρ ω} (h : Ordered y.epoch y.root flights)
    (hpair : Pair x y) (idle : x.phase = .idle)
    (hsent : ∀ m, Flight.control m ∈ flights → Sent first r x m) :
    Ordered y.epoch y.root (flights ++ [.traffic x.epoch x.root]) := by
  obtain ⟨hepoch, hroot⟩ := hpair.of_idle idle
  rw [hepoch, hroot]
  refine h.snoc_traffic fun m hmem => ?_
  rw [← hepoch]
  exact (hsent m hmem).not_commits idle

end Healing

end P2Party
