import Mathlib.Data.List.Induction
import Mathlib.Tactic.Common

/-!
# Runs of a step function

A system that answers events: its state after a list of them, a condition that every event of
a run meets in the state it finds, and the rule by which what a step keeps is kept by a run.

- `runs`, `Along`: a run, and a condition along it;
- `runs_append`, `along_append`: a run in two parts;
- `Along.invariant`: induction over a run;
- `Once`, `Along.history`: what was the case at some point of a run, and induction over a run
  that looks back at it.
-/

namespace Base

variable {σ ε : Type} (step : ε → σ → σ)

/-- The state after a list of events. -/
def runs (events : List ε) (s : σ) : σ := events.foldl (fun s event => step event s) s

/-- Every event meets the condition in the state it finds. -/
def Along (p : ε → σ → Prop) : List ε → σ → Prop
  | [], _ => True
  | event :: events, s => p event s ∧ Along p events (step event s)

variable {step} {p : ε → σ → Prop} {s : σ}

theorem runs_append (before after : List ε) :
    runs step (before ++ after) s = runs step after (runs step before s) :=
  List.foldl_append

theorem along_append {before after : List ε} (h : Along step p (before ++ after) s) :
    Along step p before s := by
  induction before generalizing s with
  | nil => trivial
  | cons event before ih => exact ⟨h.1, ih h.2⟩

theorem Along.and {q : ε → σ → Prop} {events : List ε} (h : Along step p events s) (h' : Along step q events s) :
    Along step (fun event s => p event s ∧ q event s) events s := by
  induction events generalizing s with
  | nil => trivial
  | cons event events ih => exact ⟨⟨h.1, h'.1⟩, ih h.2 h'.2⟩

/-- What every step keeps is kept by a run. -/
theorem Along.invariant {I : σ → Prop} (hstep : ∀ event s, p event s → I s → I (step event s))
    {events : List ε} (h : Along step p events s) (hs : I s) : I (runs step events s) := by
  induction events generalizing s with
  | nil => exact hs
  | cons event events ih => exact ih h.2 (hstep event s h.1 hs)

/-- What every event keeps is kept by a run. -/
theorem runs_invariant {I : σ → Prop} (hstep : ∀ event s, I s → I (step event s)) (events : List ε)
    (hs : I s) : I (runs step events s) := by
  induction events generalizing s with
  | nil => exact hs
  | cons event events ih => exact ih (hstep event s hs)

/-! ## Looking back -/

theorem along_append_iff {before after : List ε} :
    Along step p (before ++ after) s ↔ Along step p before s ∧ Along step p after (runs step before s) := by
  induction before generalizing s with
  | nil => exact ⟨fun h => ⟨trivial, h⟩, fun h => h.2⟩
  | cons event before ih =>
    rw [List.cons_append]
    constructor
    · intro h
      exact ⟨⟨h.1, (ih.mp h.2).1⟩, (ih.mp h.2).2⟩
    · intro h
      exact ⟨h.1.1, ih.mpr ⟨h.1.2, h.2⟩⟩

theorem runs_snoc (events : List ε) (event : ε) :
    runs step (events ++ [event]) s = step event (runs step events s) := by
  rw [runs_append]
  rfl

variable (step s) in
/-- Something was the case at some point of a run. -/
def Once (events : List ε) (φ : σ → Prop) : Prop :=
  ∃ before, before <+: events ∧ φ (runs step before s)

theorem Once.now {events : List ε} {φ : σ → Prop} (h : φ (runs step events s)) : Once step s events φ :=
  ⟨events, List.prefix_rfl, h⟩

theorem Once.mono {events : List ε} {φ : σ → Prop} (event : ε) (h : Once step s events φ) :
    Once step s (events ++ [event]) φ := by
  obtain ⟨before, hbefore, hφ⟩ := h
  exact ⟨before, hbefore.trans (List.prefix_append _ _), hφ⟩

/-- Induction over a run, by its last event, of what may look back at the run. -/
theorem Along.history {I : List ε → σ → Prop} (hs : I [] s)
    (hstep : ∀ event events, p event (runs step events s) → I events (runs step events s) →
      I (events ++ [event]) (step event (runs step events s)))
    {events : List ε} (h : Along step p events s) : I events (runs step events s) := by
  induction events using List.reverseRecOn with
  | nil => exact hs
  | append_singleton before event ih =>
    obtain ⟨hbefore, hlast⟩ := along_append_iff.mp h
    rw [runs_snoc]
    exact hstep event before hlast.1 (ih hbefore)

end Base
