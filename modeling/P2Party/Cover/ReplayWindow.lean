import Mathlib.Order.Interval.Finset.Nat
import Mathlib.Tactic.Common

/-!
# The replay window of the cover cells (`handlers/coverRuntime.ts`)

Cover cells arrive on independent lanes, so their counters are not in order. The runtime
remembers the counters it accepted behind the highest one and refuses what it remembers
and what is too old to be remembered. Counters are 64-bit unsigned values of the
authenticated cell.

- `ReplayWindow.Tracks`: the window of a list of accepted counters;
- `offer_tracks`, `offers_tracks`: one counter, a sequence of counters;
- `replay_window`: every counter is accepted at most once, and a new one that is not too
  old is accepted.
-/

namespace P2Party

namespace Cover

/-- `#REPLAY_WINDOW` (coverRuntime.ts:129). -/
abbrev REPLAY_WINDOW : Nat := 1024

/-- `#inboundHighestCounter` and `#inboundSeenCounters` (coverRuntime.ts:127-128). -/
structure ReplayWindow where
  inboundHighestCounter : Option Nat
  inboundSeenCounters : Finset Nat
deriving DecidableEq

namespace ReplayWindow

/-- Nothing accepted yet. -/
def empty : ReplayWindow := ⟨none, ∅⟩

/-- Is the counter behind the window? (coverRuntime.ts:323-329) -/
def tooOld (window : ReplayWindow) (counter : Nat) : Bool :=
  match window.inboundHighestCounter with
  | none => false
  | some highest => highest ≥ REPLAY_WINDOW ∧ counter ≤ highest - REPLAY_WINDOW

/-- `#admitInboundCounter` (coverRuntime.ts:321-339). -/
def admitInboundCounter (window : ReplayWindow) (counter : Nat) : Bool × ReplayWindow :=
  if window.tooOld counter then (false, window)
  else if counter ∈ window.inboundSeenCounters then (false, window)
  else
    let seen := insert counter window.inboundSeenCounters
    if window.inboundHighestCounter.all (counter > ·) then
      (true, {
        inboundHighestCounter := some counter
        inboundSeenCounters := if counter ≥ REPLAY_WINDOW
          then seen.filter fun old => ¬ old ≤ counter - REPLAY_WINDOW else seen })
    else (true, { window with inboundSeenCounters := seen })

/-- A window with the counters it accepted so far. -/
abbrev Log := ReplayWindow × List Nat

/-- Offer a counter. -/
def offer (log : Log) (counter : Nat) : Log :=
  let (accepted, window) := log.1.admitInboundCounter counter
  (window, if accepted then log.2 ++ [counter] else log.2)

/-- Offer counters one after the other to a new window. -/
def offers (counters : List Nat) : Log := counters.foldl offer (empty, [])

/-! ## The window of the accepted counters -/

/-- The window knows the highest accepted counter and remembers exactly the accepted
counters within `REPLAY_WINDOW` of it. -/
structure Tracks (window : ReplayWindow) (accepted : List Nat) : Prop where
  nodup : accepted.Nodup
  unset : window.inboundHighestCounter = none → accepted = []
  highest : ∀ highest, window.inboundHighestCounter = some highest →
    highest ∈ accepted ∧ ∀ counter ∈ accepted, counter ≤ highest
  seen : ∀ counter, counter ∈ window.inboundSeenCounters ↔
    counter ∈ accepted ∧ ∀ highest ∈ accepted, highest < counter + REPLAY_WINDOW

variable {window : ReplayWindow} {accepted : List Nat} {counter : Nat}

theorem empty_tracks : Tracks empty [] := by
  refine ⟨List.nodup_nil, fun _ => rfl, nofun, fun counter => ?_⟩
  simp [empty]

/-- A counter is too old when some accepted one is a window or more ahead of it. -/
theorem Tracks.tooOld_iff (h : Tracks window accepted) :
    window.tooOld counter = true ↔ ∃ highest ∈ accepted, counter + REPLAY_WINDOW ≤ highest := by
  unfold tooOld
  cases hhighest : window.inboundHighestCounter with
  | none =>
    rw [h.unset hhighest]
    simp
  | some highest =>
    obtain ⟨hmem, hmax⟩ := h.highest highest hhighest
    simp only [decide_eq_true_eq]
    constructor
    · rintro ⟨hwindow, hold⟩
      exact ⟨highest, hmem, by omega⟩
    · rintro ⟨other, hother, hold⟩
      have := hmax other hother
      omega

/-- The window remembers at most `REPLAY_WINDOW` counters. -/
theorem Tracks.card_le (h : Tracks window accepted) :
    window.inboundSeenCounters.card ≤ REPLAY_WINDOW := by
  cases hhighest : window.inboundHighestCounter with
  | none =>
    have hempty : window.inboundSeenCounters = ∅ := by
      refine Finset.eq_empty_of_forall_notMem fun counter hcounter => ?_
      have hmem := ((h.seen counter).mp hcounter).1
      rw [h.unset hhighest] at hmem
      cases hmem
    rw [hempty]
    exact Nat.zero_le _
  | some highest =>
    obtain ⟨hmem, hmax⟩ := h.highest highest hhighest
    -- the remembered counters lie in the window that ends at the highest one
    have hsub : window.inboundSeenCounters ⊆
        Finset.Ico (highest + 1 - REPLAY_WINDOW) (highest + 1) := by
      intro counter hcounter
      obtain ⟨haccepted, hnear⟩ := (h.seen counter).mp hcounter
      have hbelow := hmax counter haccepted
      have habove := hnear highest hmem
      exact Finset.mem_Ico.mpr ⟨by omega, by omega⟩
    have hcard := Finset.card_le_card hsub
    rw [Nat.card_Ico] at hcard
    omega

/-! ## One counter -/

/-- What becomes of a counter. -/
theorem Tracks.admit_iff (h : Tracks window accepted) :
    (window.admitInboundCounter counter).1 = true ↔
      counter ∉ accepted ∧ ∀ highest ∈ accepted, highest < counter + REPLAY_WINDOW := by
  have hold : window.tooOld counter = true ↔ _ := h.tooOld_iff
  unfold admitInboundCounter
  by_cases htooOld : window.tooOld counter = true
  · rw [if_pos htooOld]
    obtain ⟨highest, hmem, hfar⟩ := hold.mp htooOld
    refine ⟨nofun, fun hnew => ?_⟩
    exact absurd (hnew.2 highest hmem) (Nat.not_lt.mpr hfar)
  · have hnear : ∀ highest ∈ accepted, highest < counter + REPLAY_WINDOW := fun highest hmem =>
      Nat.lt_of_not_le fun hfar => htooOld (hold.mpr ⟨highest, hmem, hfar⟩)
    rw [if_neg htooOld]
    by_cases hseen : counter ∈ window.inboundSeenCounters
    · rw [if_pos hseen]
      exact ⟨nofun, fun hnew => absurd ((h.seen counter).mp hseen).1 hnew.1⟩
    · rw [if_neg hseen]
      have hnew : counter ∉ accepted := fun hmem => hseen ((h.seen counter).mpr ⟨hmem, hnear⟩)
      refine ⟨fun _ => ⟨hnew, hnear⟩, fun _ => ?_⟩
      dsimp only
      split <;> rfl

/-- A refused counter leaves the window as it was. -/
theorem admit_refused (h : (window.admitInboundCounter counter).1 = false) :
    (window.admitInboundCounter counter).2 = window := by
  unfold admitInboundCounter at h ⊢
  split
  · rfl
  · rename_i htooOld
    rw [if_neg htooOld] at h
    split
    · rfl
    · rename_i hseen
      rw [if_neg hseen] at h
      dsimp only at h
      split at h <;> cases h

/-- The window after an accepted counter. -/
theorem admit_eq (h : (window.admitInboundCounter counter).1 = true) :
    (window.admitInboundCounter counter).2 =
      if window.inboundHighestCounter.all (counter > ·) then ⟨some counter,
        if counter ≥ REPLAY_WINDOW
          then (insert counter window.inboundSeenCounters).filter fun old => ¬ old ≤ counter - REPLAY_WINDOW
          else insert counter window.inboundSeenCounters⟩
      else ⟨window.inboundHighestCounter, insert counter window.inboundSeenCounters⟩ := by
  unfold admitInboundCounter at h ⊢
  split
  · rename_i htooOld
    rw [if_pos htooOld] at h
    cases h
  · rename_i htooOld
    rw [if_neg htooOld] at h
    split
    · rename_i hseen
      rw [if_pos hseen] at h
      cases h
    · dsimp only
      split <;> rfl

theorem Tracks.admits (h : Tracks window accepted)
    (hfits : (window.admitInboundCounter counter).1 = true) :
    Tracks (window.admitInboundCounter counter).2 (accepted ++ [counter]) := by
  obtain ⟨hnew, hnear⟩ := h.admit_iff.mp hfits
  have hnodup : (accepted ++ [counter]).Nodup := by
    refine List.nodup_append.mpr ⟨h.nodup, List.nodup_singleton _, fun a ha b hb hab => hnew ?_⟩
    rw [List.mem_singleton.mp hb] at hab
    exact hab ▸ ha
  have hmem : ∀ other, other ∈ accepted ++ [counter] ↔ other ∈ accepted ∨ other = counter := by simp
  have hseen : ∀ other, other ∈ insert counter window.inboundSeenCounters ↔ other = counter ∨
      other ∈ accepted ∧ ∀ highest ∈ accepted, highest < other + REPLAY_WINDOW := by
    intro other
    rw [Finset.mem_insert, h.seen]
  rw [admit_eq hfits]
  by_cases hhighest : window.inboundHighestCounter.all (counter > ·) = true
  · -- a new maximum: what is a window behind it is forgotten
    have hmax : ∀ other ∈ accepted, other < counter := by
      cases hcase : window.inboundHighestCounter with
      | none =>
        rw [h.unset hcase]
        nofun
      | some highest =>
        rw [hcase] at hhighest
        intro other hother
        exact Nat.lt_of_le_of_lt ((h.highest highest hcase).2 other hother) (of_decide_eq_true hhighest)
    rw [if_pos hhighest]
    refine ⟨hnodup, nofun, fun highest hsome => ?_, fun other => ?_⟩
    · cases hsome
      refine ⟨(hmem _).mpr (.inr rfl), fun other hother => ?_⟩
      rcases (hmem other).mp hother with hother | rfl
      · exact Nat.le_of_lt (hmax other hother)
      · exact Nat.le_refl _
    · have hkept : other ∈ (if counter ≥ REPLAY_WINDOW
          then (insert counter window.inboundSeenCounters).filter fun old => ¬ old ≤ counter - REPLAY_WINDOW
          else insert counter window.inboundSeenCounters) ↔
          other ∈ insert counter window.inboundSeenCounters ∧ counter < other + REPLAY_WINDOW := by
        split
        · rw [Finset.mem_filter]
          refine and_congr_right fun _ => ?_
          omega
        · refine ⟨fun h => ⟨h, ?_⟩, And.left⟩
          omega
      dsimp only
      rw [hkept, hseen, hmem]
      constructor
      · rintro ⟨rfl | ⟨hother, hfar⟩, hwindow⟩
        · refine ⟨.inr rfl, fun highest hhigh => ?_⟩
          rcases (hmem highest).mp hhigh with hhigh | rfl
          · exact hnear highest hhigh
          · exact hwindow
        · refine ⟨.inl hother, fun highest hhigh => ?_⟩
          rcases (hmem highest).mp hhigh with hhigh | rfl
          · exact hfar highest hhigh
          · exact hwindow
      · rintro ⟨hother, hfar⟩
        refine ⟨?_, hfar counter ((hmem _).mpr (.inr rfl))⟩
        rcases hother with hother | rfl
        · exact .inr ⟨hother, fun highest hhigh => hfar highest ((hmem _).mpr (.inl hhigh))⟩
        · exact .inl rfl
  · -- a counter inside the window: the highest one stays
    obtain ⟨highest, hcase, hbelow⟩ : ∃ highest, window.inboundHighestCounter = some highest ∧
        counter ≤ highest := by
      cases hcase : window.inboundHighestCounter with
      | none =>
        rw [hcase] at hhighest
        exact absurd rfl hhighest
      | some highest =>
        rw [hcase] at hhighest
        exact ⟨highest, rfl, Nat.le_of_not_lt fun hlt => hhighest (decide_eq_true hlt)⟩
    obtain ⟨hin, hmax⟩ := h.highest highest hcase
    rw [if_neg hhighest]
    refine ⟨hnodup, fun hnone => ?_, fun highest' hsome => ?_, fun other => ?_⟩
    · rw [hcase] at hnone
      cases hnone
    · rw [hcase] at hsome
      cases hsome
      refine ⟨(hmem _).mpr (.inl hin), fun other hother => ?_⟩
      rcases (hmem other).mp hother with hother | rfl
      · exact hmax other hother
      · exact hbelow
    · dsimp only
      rw [hseen, hmem]
      constructor
      · rintro (rfl | ⟨hother, hfar⟩)
        · refine ⟨.inr rfl, fun high hhigh => ?_⟩
          rcases (hmem high).mp hhigh with hhigh | rfl
          · exact hnear high hhigh
          · exact Nat.lt_add_of_pos_right (by decide)
        · refine ⟨.inl hother, fun high hhigh => ?_⟩
          rcases (hmem high).mp hhigh with hhigh | rfl
          · exact hfar high hhigh
          · exact Nat.lt_of_le_of_lt hbelow (hfar highest hin)
      · rintro ⟨hother | rfl, hfar⟩
        · exact .inr ⟨hother, fun high hhigh => hfar high ((hmem _).mpr (.inl hhigh))⟩
        · exact .inl rfl

/-! ## Sequences of counters -/

theorem offer_tracks {log : Log} (h : Tracks log.1 log.2) (counter : Nat) :
    Tracks (offer log counter).1 (offer log counter).2 := by
  unfold offer
  cases hfits : (log.1.admitInboundCounter counter).1 with
  | true =>
    have htracks := h.admits hfits
    generalize log.1.admitInboundCounter counter = result at hfits htracks
    obtain ⟨accepted, window⟩ := result
    cases hfits
    exact htracks
  | false =>
    have hsame := admit_refused hfits
    generalize log.1.admitInboundCounter counter = result at hfits hsame
    obtain ⟨accepted, window⟩ := result
    cases hfits
    cases hsame
    exact h

theorem offers_tracks (counters : List Nat) : Tracks (offers counters).1 (offers counters).2 := by
  unfold offers
  generalize hstart : ((empty, []) : Log) = log
  have htracks : Tracks log.1 log.2 := hstart ▸ empty_tracks
  clear hstart
  induction counters generalizing log with
  | nil => exact htracks
  | cons counter counters ih => exact ih _ (offer_tracks htracks counter)

/-- What is accepted was offered. -/
theorem offers_subset (counters : List Nat) : ∀ counter ∈ (offers counters).2, counter ∈ counters := by
  induction counters using List.reverseRecOn with
  | nil => nofun
  | append_singleton counters last ih =>
    intro counter hmem
    have hoffers : offers (counters ++ [last]) = offer (offers counters) last := List.foldl_append ..
    rw [hoffers] at hmem
    unfold offer at hmem
    dsimp only at hmem
    split at hmem
    · rcases List.mem_append.mp hmem with hmem | hmem
      · exact List.mem_append_left _ (ih counter hmem)
      · exact List.mem_append_right _ hmem
    · exact List.mem_append_left _ (ih counter hmem)

/-- Over every sequence of counters: none is accepted twice; one that was never offered
before is accepted when it is greater than every accepted counter minus the window; and
the window never remembers more than `REPLAY_WINDOW` counters. -/
theorem replay_window (counters : List Nat) :
    (offers counters).2.Nodup ∧
      (∀ counter, counter ∉ counters →
        (∀ highest ∈ (offers counters).2, highest < counter + REPLAY_WINDOW) →
        ((offers counters).1.admitInboundCounter counter).1 = true) ∧
      (offers counters).1.inboundSeenCounters.card ≤ REPLAY_WINDOW := by
  have htracks := offers_tracks counters
  refine ⟨htracks.nodup, fun counter hnew hnear => ?_, htracks.card_le⟩
  exact htracks.admit_iff.mpr ⟨fun hmem => hnew (offers_subset counters counter hmem), hnear⟩

theorem replay_window_jump :
    (offers [5, 2000]).2.Nodup ∧ ((offers [5, 2000]).1.admitInboundCounter 977).1 = true ∧
      (offers [5, 2000]).1.inboundSeenCounters.card ≤ REPLAY_WINDOW :=
  ⟨(replay_window [5, 2000]).1, (replay_window [5, 2000]).2.1 977 (by decide) (by decide),
    (replay_window [5, 2000]).2.2⟩

example : (offers [5, 2000, 5, 977, 976, 977]).2 = [5, 2000, 977] := by decide

end ReplayWindow

end Cover

end P2Party
