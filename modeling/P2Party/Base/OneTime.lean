import Mathlib.Data.List.Nodup
import Mathlib.Logic.Function.Basic
import Mathlib.Order.Basic
import Mathlib.Tactic.Common

/-!
# Things that are handed out once

A supply of labels in increasing order: whoever draws the next one hands it out at once or keeps
it under a slot, from where it may be handed out later, thrown away, or pushed out by another.

- `Supply`: the next label, the kept ones, and those handed out so far;
- `give`, `keep`, `take`, `skip`: the four moves;
- `Once`: no label has been handed out twice, nor is a kept one handed out or kept elsewhere;
- `Once.give`, `Once.keep`, `Once.take`, `Once.skip`: every move keeps it.
-/

namespace Base

/-- The next label, what is kept under each slot, and what has been handed out. -/
structure Supply (σ ο : Type) where
  next : ο
  kept : σ → Option ο
  out : List ο

namespace Supply

variable {σ ο : Type}

/-- The next label is handed out. -/
def give (s : Supply σ ο) (next : ο) : Supply σ ο :=
  { s with next, out := s.out ++ [s.next] }

/-- The next label is kept under a slot; what was there is lost. -/
def keep [DecidableEq σ] (s : Supply σ ο) (slot : σ) (next : ο) : Supply σ ο :=
  { s with next, kept := Function.update s.kept slot (some s.next) }

/-- A kept label is handed out. -/
def take [DecidableEq σ] (s : Supply σ ο) (slot : σ) (label : ο) : Supply σ ο :=
  { s with kept := Function.update s.kept slot none, out := s.out ++ [label] }

/-- Labels are passed over. -/
def skip (s : Supply σ ο) (next : ο) : Supply σ ο := { s with next }

variable [Preorder ο]

/-- Every label is in one place at most. -/
structure Once (s : Supply σ ο) : Prop where
  keptBelow : ∀ slot label, s.kept slot = some label → label < s.next
  outBelow : ∀ label ∈ s.out, label < s.next
  apart : ∀ slot label, s.kept slot = some label → label ∉ s.out
  own : ∀ slot slot' label, s.kept slot = some label → s.kept slot' = some label → slot = slot'
  nodup : s.out.Nodup

theorem once_start (next : ο) : (⟨next, fun _ => none, []⟩ : Supply σ ο).Once where
  keptBelow _ _ h := nomatch h
  outBelow _ h := nomatch h
  apart _ _ h := nomatch h
  own _ _ _ h := nomatch h
  nodup := List.nodup_nil

variable {s : Supply σ ο} {next : ο}

/-- The next label is nowhere yet. -/
theorem Once.next_notMem (h : s.Once) : s.next ∉ s.out := fun hin =>
  lt_irrefl _ (h.outBelow s.next hin)

theorem Once.skip (h : s.Once) (hnext : s.next ≤ next) : (s.skip next).Once where
  keptBelow slot label hk := lt_of_lt_of_le (h.keptBelow slot label hk) hnext
  outBelow label hin := lt_of_lt_of_le (h.outBelow label hin) hnext
  apart := h.apart
  own := h.own
  nodup := h.nodup

theorem Once.give (h : s.Once) (hnext : s.next < next) : (s.give next).Once where
  keptBelow slot label hk := lt_trans (h.keptBelow slot label hk) hnext
  outBelow label hin := by
    rcases List.mem_append.mp hin with hold | hnew
    · exact lt_trans (h.outBelow label hold) hnext
    · rw [List.mem_singleton.mp hnew]
      exact hnext
  apart slot label hk hin := by
    rcases List.mem_append.mp hin with hold | hnew
    · exact h.apart slot label hk hold
    · have hlt := h.keptBelow slot label hk
      rw [List.mem_singleton.mp hnew] at hlt
      exact lt_irrefl _ hlt
  own := h.own
  nodup := List.nodup_append.mpr ⟨h.nodup, List.nodup_singleton _, fun a ha b hb hab =>
    h.next_notMem (List.mem_singleton.mp hb ▸ hab ▸ ha)⟩

variable [DecidableEq σ]

theorem Once.keep (h : s.Once) (slot : σ) (hnext : s.next < next) : (s.keep slot next).Once := by
  have hcases : ∀ slot' label, (s.keep slot next).kept slot' = some label →
      slot' = slot ∧ label = s.next ∨ slot' ≠ slot ∧ s.kept slot' = some label := by
    intro slot' label hk
    by_cases hslot : slot' = slot
    · subst hslot
      have hself : some s.next = some label := (Function.update_self slot' _ s.kept).symm.trans hk
      exact Or.inl ⟨rfl, (Option.some.inj hself).symm⟩
    · exact Or.inr ⟨hslot, (Function.update_of_ne hslot _ s.kept).symm.trans hk⟩
  refine ⟨fun slot' label hk => ?_, fun label hin => lt_trans (h.outBelow label hin) hnext,
    fun slot' label hk hin => ?_, fun a b label ha hb => ?_, h.nodup⟩
  · rcases hcases slot' label hk with ⟨-, rfl⟩ | ⟨-, hold⟩
    · exact hnext
    · exact lt_trans (h.keptBelow slot' label hold) hnext
  · rcases hcases slot' label hk with ⟨-, rfl⟩ | ⟨-, hold⟩
    · exact h.next_notMem hin
    · exact h.apart slot' label hold hin
  · rcases hcases a label ha with ⟨rfl, hla⟩ | ⟨-, haold⟩ <;>
      rcases hcases b label hb with ⟨rfl, hlb⟩ | ⟨-, hbold⟩
    · rfl
    · exact absurd (h.keptBelow b label hbold) (hla ▸ lt_irrefl _)
    · exact absurd (h.keptBelow a label haold) (hlb ▸ lt_irrefl _)
    · exact h.own a b label haold hbold

theorem Once.take (h : s.Once) {slot : σ} {label : ο} (hk : s.kept slot = some label) :
    (s.take slot label).Once := by
  have hold : ∀ slot' label', (s.take slot label).kept slot' = some label' →
      slot' ≠ slot ∧ s.kept slot' = some label' := by
    intro slot' label' hk'
    have hslot : slot' ≠ slot := by
      rintro rfl
      have hself : none = some label' := (Function.update_self slot' _ s.kept).symm.trans hk'
      cases hself
    exact ⟨hslot, (Function.update_of_ne hslot _ s.kept).symm.trans hk'⟩
  refine ⟨fun slot' label' hk' => h.keptBelow slot' label' (hold slot' label' hk').2,
    fun label' hin => ?_, fun slot' label' hk' hin => ?_,
    fun a b label' ha hb => h.own a b label' (hold a label' ha).2 (hold b label' hb).2, ?_⟩
  · rcases List.mem_append.mp hin with hin | hnew
    · exact h.outBelow label' hin
    · rw [List.mem_singleton.mp hnew]
      exact h.keptBelow slot label hk
  · obtain ⟨hslot, hkept⟩ := hold slot' label' hk'
    rcases List.mem_append.mp hin with hin | hnew
    · exact h.apart slot' label' hkept hin
    · -- the label taken was kept under its own slot only
      obtain rfl := List.mem_singleton.mp hnew
      exact hslot (h.own slot' slot label' hkept hk)
  · exact List.nodup_append.mpr ⟨h.nodup, List.nodup_singleton _, fun a ha b hb hab =>
      h.apart slot label hk (List.mem_singleton.mp hb ▸ hab ▸ ha)⟩

end Supply

end Base
