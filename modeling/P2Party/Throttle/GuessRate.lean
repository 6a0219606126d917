import Mathlib.Algebra.BigOperators.Group.Finset.Basic
import P2Party.Throttle.PinAttempts

/-!
# How fast PINs can be guessed

Two bounds along every run. In a room, whoever sends the guesses: a window of five minutes has at most
29 wrong guesses more than there are attempts side by side. From one identity, whose attempts follow
each other: wrong guesses in a row are apart by the backoff of their number. A wrong guess is an attempt
that ends in a failure of the key confirmation, and the clock does not go back.

- `Trace`: a run with the wrong guesses of a room and of an identity written down;
- `Counted`, `counted_step`: the window of the room has what is written down;
- `Spaced`, `spaced_step`: the row of the identity has its last guess and their number;
- `pin_guess_rate`: along every run.
-/

namespace P2Party

open Base

namespace PinAttempts

/-! ## What is written down -/

/-- The recorded wrong guesses of an identity since its row was dropped: the first, the last and how
many. -/
structure Guesses where
  first : Nat
  last : Nat
  count : Nat
deriving DecidableEq

/-- One more. -/
def Guesses.failed (now : Nat) : Option Guesses → Guesses
  | none => ⟨now, now, 1⟩
  | some g => ⟨g.first, now, g.count + 1⟩

/-- A state, the times of the wrong guesses in a room since its window was cleared, and those of an
identity. -/
structure Trace where
  state : State
  recorded : List Nat
  guesses : Option Guesses

def Trace.start : Trace := ⟨State.start, [], none⟩

section Trace

variable (roomId identity : JsString)

/-- The wrong guesses of the room after an event. -/
def recordedAfter (event : Event) (t : Trace) : List Nat :=
  match event with
  | .finish k .keyConfirmationFailed now =>
    match t.state.attempts[k]? with
    | some a => if a.phase = .running ∧ a.roomId = roomId then t.recorded ++ [now] else t.recorded
    | none => t.recorded
  | .clearRoom r => if r = roomId then [] else t.recorded
  | .reload => []
  | _ => t.recorded

/-- The wrong guesses of the identity after an event. -/
def guessesAfter (event : Event) (t : Trace) : Option Guesses :=
  match event with
  | .write k true =>
    match t.state.attempts[k]? with
    | some a =>
      if a.roomId = roomId ∧ a.peerIdentityEd25519 = identity then
        match a.phase with
        | .recording now => some (Guesses.failed now t.guesses)
        | .clearing => none
        | _ => t.guesses
      else t.guesses
    | none => t.guesses
  | .clearRows r true => if r = roomId then none else t.guesses
  | _ => t.guesses

def Trace.step (event : Event) (t : Trace) : Trace :=
  ⟨PinAttempts.step event t.state, recordedAfter roomId event t, guessesAfter roomId identity event t⟩

/-- The clock goes on, within what the worker accepts, and rooms have UUIDs, in which there is no `:`. -/
def Timely : Event → Trace → Prop
  | .begin _ _ now, t | .finish _ _ now, t => t.state.clock ≤ now ∧ now ≤ MAX_SAFE_INTEGER
  | .clearRows r _, _ => r ≠ [] ∧ colon ∉ r
  | _, _ => True

/-- An attempt whose guess is not counted yet. -/
def Attempt.pending (a : Attempt) : Bool :=
  match a.phase with
  | .reading _ | .running => true
  | .recording _ | .clearing => false

/-- The attempts of the room that are not counted yet. -/
def pendingIn (s : State) : Nat := s.attempts.countP fun a => decide (a.roomId = roomId) && a.pending

/-- At most so many attempts of the room run side by side. -/
def Crowd (c : Nat) : Event → Trace → Prop
  | .begin r _ _, t => r = roomId → pendingIn roomId t.state < c
  | _, _ => True

/-- An attempt of the identity in the room. -/
def Attempt.mine (a : Attempt) : Bool := decide (a.roomId = roomId) && decide (a.peerIdentityEd25519 = identity)

/-- The attempts of the identity in the room follow each other. -/
def Alone : Event → Trace → Prop
  | .begin r id _, t => r = roomId → id = identity → t.state.attempts.countP (Attempt.mine roomId identity) = 0
  | _, _ => True

end Trace

variable {roomId identity : JsString} {t : Trace} {c : Nat}

theorem mine_iff {a : Attempt} :
    a.mine roomId identity = true ↔ a.roomId = roomId ∧ a.peerIdentityEd25519 = identity := by
  simp [Attempt.mine]

theorem trace_state (events : List Event) (t : Trace) :
    (runs (Trace.step roomId identity) events t).state = runs step events t.state := by
  induction events generalizing t with
  | nil => rfl
  | cons event events ih => exact ih _

/-- A list around one of its entries. -/
theorem around {α : Type} {l : List α} {k : Nat} {a : α} (h : l[k]? = some a) :
    ∃ before after, l = before ++ a :: after ∧ (∀ b, l.set k b = before ++ b :: after) ∧
      l.eraseIdx k = before ++ after := by
  obtain ⟨hk, rfl⟩ := List.getElem?_eq_some_iff.mp h
  refine ⟨l.take k, l.drop (k + 1), ?_, fun b => ?_, ?_⟩
  · rw [← List.drop_eq_getElem_cons hk, List.take_append_drop]
  · rw [List.set_eq_take_append_cons_drop, if_pos hk]
  · exact List.eraseIdx_eq_take_drop_succ _ _

theorem countP_set_of {α : Type} {l : List α} {k : Nat} {a : α} (h : l[k]? = some a) (p : α → Bool) (b : α) :
    (l.set k b).countP p + (if p a = true then 1 else 0) = l.countP p + (if p b = true then 1 else 0) := by
  obtain ⟨before, after, rfl, hset, -⟩ := around h
  rw [hset]
  simp only [List.countP_append, List.countP_cons]
  omega

theorem countP_eraseIdx_of {α : Type} {l : List α} {k : Nat} {a : α} (h : l[k]? = some a) (p : α → Bool) :
    (l.eraseIdx k).countP p + (if p a = true then 1 else 0) = l.countP p := by
  obtain ⟨before, after, rfl, -, herase⟩ := around h
  rw [herase]
  simp only [List.countP_append, List.countP_cons]
  omega

/-! ## The window of the room -/

theorem inWindow_inWindow {now now' : Nat} (h : now ≤ now') (times : List Nat) :
    inWindow now' (inWindow now times) = inWindow now' times := by
  unfold inWindow
  rw [List.filter_filter]
  refine List.filter_congr fun timestamp _ => ?_
  rw [Bool.eq_iff_iff, Bool.and_eq_true, decide_eq_true_eq, decide_eq_true_eq]
  constructor
  · exact fun hboth => hboth.1
  · intro hlate
    exact ⟨hlate, by omega⟩

theorem length_inWindow_le {now now' : Nat} (h : now ≤ now') (times : List Nat) :
    (inWindow now' times).length ≤ (inWindow now times).length := by
  rw [← inWindow_inWindow h times]
  exact List.length_filter_le _ _

theorem length_inWindow_append (now at' : Nat) (times : List Nat) :
    (inWindow now (times ++ [at'])).length ≤ (inWindow now times).length + 1 := by
  unfold inWindow
  rw [List.filter_append, List.length_append]
  exact Nat.add_le_add_left (List.length_filter_le _ [at']) _

/-- The times of a room in the windows. -/
def timesIn (roomId : JsString) (windows : Windows) : List Nat := (windows.get roomId).getD []

theorem timesIn_currentRoomFailures (r : JsString) (now : Nat) (windows : Windows) :
    timesIn roomId (currentRoomFailures r now windows).2 =
      if r = roomId then inWindow now (timesIn roomId windows) else timesIn roomId windows := by
  unfold timesIn currentRoomFailures
  dsimp only
  by_cases hr : r = roomId
  · subst hr
    rw [if_pos rfl]
    split
    case isTrue hempty =>
      rw [OrdMap.get_delete_self, List.length_eq_zero_iff.mp hempty]
      rfl
    case isFalse => rw [OrdMap.get_set_self, Option.getD_some]
  · rw [if_neg hr]
    split
    · rw [OrdMap.get_delete_ne _ (Ne.symm hr)]
    · rw [OrdMap.get_set_ne _ _ (Ne.symm hr)]

theorem timesIn_recordRoomPinAggregateFailure (r : JsString) (now : Nat) (windows : Windows) :
    timesIn roomId (recordRoomPinAggregateFailure r now windows) =
      if r = roomId then inWindow now (timesIn roomId windows) ++ [now] else timesIn roomId windows := by
  unfold recordRoomPinAggregateFailure
  dsimp only
  by_cases hr : r = roomId
  · subst hr
    rw [if_pos rfl, timesIn, OrdMap.get_set_self, Option.getD_some]
    rfl
  · have hother := @timesIn_currentRoomFailures roomId r now windows
    rw [if_neg hr] at hother ⊢
    rw [timesIn, OrdMap.get_set_ne _ _ (Ne.symm hr)]
    exact hother

/-- The window of the room has the wrong guesses that are written down. -/
def Counted (roomId : JsString) (t : Trace) : Prop :=
  ∀ now, t.state.clock ≤ now → inWindow now (timesIn roomId t.state.windows) = inWindow now t.recorded

theorem counted_step {event : Event} (htimely : Timely event t) (h : Counted roomId t) :
    Counted roomId (Trace.step roomId identity event t) := by
  cases event with
  | begin r id at' =>
    intro now hnow
    have hold := h now (Nat.le_trans htimely.1 hnow)
    show inWindow now (timesIn roomId (currentRoomFailures r at' t.state.windows).2) = inWindow now t.recorded
    rw [timesIn_currentRoomFailures]
    split
    · exact (inWindow_inWindow hnow _).trans hold
    · exact hold
  | read k done =>
    unfold Counted
    simp only [Trace.step, PinAttempts.step, recordedAfter]
    split
    · split
      · split <;> exact h
      · exact h
    · exact h
  | finish k outcome at' =>
    have hlate : ∀ now, at' ≤ now → inWindow now (timesIn roomId t.state.windows) = inWindow now t.recorded :=
      fun now hnow => h now (Nat.le_trans htimely.1 hnow)
    unfold Counted
    cases hget : t.state.attempts[k]? with
    | none => cases outcome <;> (simp only [Trace.step, PinAttempts.step, recordedAfter, hget]; exact h)
    | some a =>
      by_cases hrunning : a.phase = .running
      · cases outcome with
        | authenticated =>
          simp only [Trace.step, PinAttempts.step, recordedAfter, hget, if_pos hrunning]
          exact hlate
        | failed =>
          simp only [Trace.step, PinAttempts.step, recordedAfter, hget, if_pos hrunning]
          exact hlate
        | keyConfirmationFailed =>
          simp only [Trace.step, PinAttempts.step, recordedAfter, hget, if_pos hrunning]
          intro now hnow
          have hold := hlate now hnow
          rw [timesIn_recordRoomPinAggregateFailure]
          by_cases hr : a.roomId = roomId
          · rw [if_pos hr, if_pos ⟨hrunning, hr⟩]
            unfold inWindow at hold ⊢
            rw [List.filter_append, List.filter_append, ← hold]
            exact congrArg (· ++ _) (inWindow_inWindow hnow _)
          · rw [if_neg hr, if_neg fun hboth => hr hboth.2]
            exact hold
      · have hnot : ¬ (a.phase = .running ∧ a.roomId = roomId) := fun hboth => hrunning hboth.1
        cases outcome <;>
          (simp only [Trace.step, PinAttempts.step, recordedAfter, hget, if_neg hrunning, if_neg hnot]; exact h)
  | write k done =>
    unfold Counted
    simp only [Trace.step, PinAttempts.step, recordedAfter]
    split
    · split <;> exact h
    · exact h
  | clearRoom r =>
    intro now hnow
    show inWindow now (timesIn roomId (t.state.windows.delete r)) = inWindow now (if r = roomId then [] else t.recorded)
    unfold timesIn
    by_cases hr : r = roomId
    · rw [if_pos hr, hr, OrdMap.get_delete_self]
      rfl
    · rw [if_neg hr, OrdMap.get_delete_ne _ (Ne.symm hr)]
      exact h now hnow
  | clearRows r done => exact h
  | reload => exact fun _ _ => rfl

/-- Together with those to come, they are not many. -/
def Bounded (roomId : JsString) (c : Nat) (t : Trace) : Prop :=
  (inWindow t.state.clock t.recorded).length + pendingIn roomId t.state ≤ MAX_ROOM_PIN_FAILURES_PER_WINDOW - 1 + c

/-- A step that records nothing and starts nothing. -/
theorem Bounded.mono {t' : Trace} (h : Bounded roomId c t) (hclock : t.state.clock ≤ t'.state.clock)
    (hrecorded : t'.recorded = t.recorded) (hpending : pendingIn roomId t'.state ≤ pendingIn roomId t.state) :
    Bounded roomId c t' := by
  unfold Bounded at h ⊢
  rw [hrecorded]
  have hwindow := length_inWindow_le hclock t.recorded
  omega

theorem pendingIn_leave (s : State) (k : Nat) : pendingIn roomId (s.leave k) ≤ pendingIn roomId s :=
  List.Sublist.countP_le (List.eraseIdx_sublist _ _)

theorem pendingIn_advance {s : State} {k : Nat} {a : Attempt} (hget : s.attempts[k]? = some a)
    (hpending : a.pending = true) (phase : Phase) : pendingIn roomId (s.advance k a phase) ≤ pendingIn roomId s := by
  have hset := countP_set_of hget (fun a => decide (a.roomId = roomId) && a.pending) { a with phase }
  unfold pendingIn State.advance
  rw [hpending, Bool.and_true] at hset
  dsimp only at hset ⊢
  have hle : (if (decide (a.roomId = roomId) && Attempt.pending { a with phase }) = true then 1 else 0) ≤
      if decide (a.roomId = roomId) = true then 1 else 0 := by
    by_cases hr : a.roomId = roomId
    · rw [if_pos (decide_eq_true hr)]
      split <;> omega
    · rw [decide_eq_false hr]
      exact Nat.le_refl _
  omega

theorem bounded_step {event : Event} (htimely : Timely event t) (hcrowd : Crowd roomId c event t)
    (hcounted : Counted roomId t) (h : Bounded roomId c t) : Bounded roomId c (Trace.step roomId identity event t) := by
  cases event with
  | begin r id at' =>
    by_cases hfew : (currentRoomFailures r at' t.state.windows).1.length < MAX_ROOM_PIN_FAILURES_PER_WINDOW
    · by_cases hr : r = roomId
      · -- the new attempt has seen less than thirty
        subst hr
        have hseen : (inWindow at' t.recorded).length < MAX_ROOM_PIN_FAILURES_PER_WINDOW := by
          rw [← hcounted at' htimely.1]
          exact hfew
        have hroom := hcrowd rfl
        simp only [Bounded, Trace.step, PinAttempts.step, recordedAfter, if_pos hfew]
        unfold pendingIn at hroom ⊢
        rw [List.countP_append, List.countP_singleton]
        split <;> omega
      · refine h.mono htimely.1 rfl ?_
        simp only [pendingIn, Trace.step, PinAttempts.step, if_pos hfew, List.countP_append, List.countP_singleton]
        rw [decide_eq_false hr]
        exact Nat.le_refl _
    · refine h.mono htimely.1 rfl ?_
      simp only [pendingIn, Trace.step, PinAttempts.step, if_neg hfew]
      exact Nat.le_refl _
  | read k done =>
    refine h.mono ?_ rfl ?_ <;> simp only [Trace.step, PinAttempts.step]
    · split
      · split
        · split <;> exact Nat.le_refl _
        · exact Nat.le_refl _
      · exact Nat.le_refl _
    · split <;> rename_i a hget
      · split <;> rename_i hphase
        · split
          · exact pendingIn_advance hget (by rw [Attempt.pending, hphase]) _
          · exact pendingIn_leave _ _
        · exact Nat.le_refl _
      · exact Nat.le_refl _
  | finish k outcome at' =>
    cases hget : t.state.attempts[k]? with
    | none =>
      refine h.mono ?_ ?_ ?_ <;> cases outcome <;> simp only [Trace.step, PinAttempts.step, recordedAfter, hget] <;>
        exact Nat.le_refl _
    | some a =>
      by_cases hrunning : a.phase = .running
      · have hpending : a.pending = true := by rw [Attempt.pending, hrunning]
        cases outcome with
        | authenticated =>
          refine h.mono ?_ rfl ?_ <;> simp only [Trace.step, PinAttempts.step, hget, if_pos hrunning]
          · exact htimely.1
          · exact pendingIn_advance hget hpending _
        | failed =>
          refine h.mono ?_ rfl ?_ <;> simp only [Trace.step, PinAttempts.step, hget, if_pos hrunning]
          · exact htimely.1
          · exact pendingIn_leave _ _
        | keyConfirmationFailed =>
          by_cases hr : a.roomId = roomId
          · -- the attempt is counted, and no longer to come
            have hset := countP_set_of hget (fun a => decide (a.roomId = roomId) && a.pending)
              { a with phase := .recording at' }
            rw [hpending, Bool.and_true, if_pos (decide_eq_true hr)] at hset
            simp only [Bounded, Trace.step, PinAttempts.step, recordedAfter, hget, if_pos hrunning,
              if_pos (And.intro hrunning hr)]
            have hmore := length_inWindow_append at' at' t.recorded
            have hwindow := length_inWindow_le htimely.1 t.recorded
            unfold Bounded pendingIn at h
            unfold pendingIn State.advance
            rw [show (decide (({ a with phase := Phase.recording at' } : Attempt).roomId = roomId) &&
              Attempt.pending { a with phase := .recording at' }) = false from Bool.and_false _] at hset
            dsimp only at hset ⊢
            simp only [Bool.false_eq_true, if_false] at hset
            omega
          · refine h.mono ?_ ?_ ?_ <;> simp only [Trace.step, PinAttempts.step, recordedAfter, hget, if_pos hrunning]
            · exact htimely.1
            · rw [if_neg fun hboth => hr hboth.2]
            · exact pendingIn_advance hget hpending _
      · have hnot : ¬ (a.phase = .running ∧ a.roomId = roomId) := fun hboth => hrunning hboth.1
        refine h.mono ?_ ?_ ?_ <;> cases outcome <;>
          simp only [Trace.step, PinAttempts.step, recordedAfter, hget, if_neg hrunning, if_neg hnot] <;>
          exact Nat.le_refl _
  | write k done =>
    refine h.mono ?_ rfl ?_ <;> simp only [Trace.step, PinAttempts.step]
    · split
      · split <;> exact Nat.le_refl _
      · exact Nat.le_refl _
    · split
      · split
        · exact pendingIn_leave _ _
        · exact pendingIn_leave _ _
        · exact Nat.le_refl _
      · exact Nat.le_refl _
  | clearRoom r =>
    by_cases hr : r = roomId
    · simp only [Bounded, Trace.step, PinAttempts.step, recordedAfter, if_pos hr]
      unfold Bounded at h
      exact Nat.le_trans (Nat.add_le_add_right (Nat.zero_le _) _) h
    · refine h.mono (Nat.le_refl _) ?_ (Nat.le_refl _)
      simp only [Trace.step, recordedAfter, if_neg hr]
  | clearRows r done => exact h
  | reload => exact Nat.zero_le _

/-! ## The row of the identity -/

/-- What is known of an attempt of the identity, while it is where it is. -/
def Attempt.Ready (roomId identity : JsString) (guesses : Option Guesses) (clock : Nat) (a : Attempt) : Prop :=
  match a.phase with
  | .reading now => now ≤ clock
  | .running =>
    assertPinAttemptScope roomId (some identity) = .ok () ∧ ∀ g ∈ guesses, g.last + pinBackoffMs g.count ≤ clock
  | .recording now =>
    assertPinAttemptScope roomId (some identity) = .ok () ∧ now ≤ MAX_SAFE_INTEGER ∧
      ∀ g ∈ guesses, g.last + pinBackoffMs g.count ≤ now
  | .clearing => assertPinAttemptScope roomId (some identity) = .ok ()

/-- The row has the number of wrong guesses and the time of the next, and they are apart. -/
structure Spaced (roomId identity : JsString) (t : Trace) : Prop where
  row : t.state.rows.get (pinAttemptMetaId roomId identity) =
    t.guesses.map fun g => ⟨g.count, g.last + pinBackoffMs g.count⟩
  apart : ∀ g ∈ t.guesses, g.first + ∑ k ∈ Finset.range g.count, pinBackoffMs k ≤ g.last
  alone : t.state.attempts.countP (Attempt.mine roomId identity) ≤ 1
  ready : ∀ a ∈ t.state.attempts, a.mine roomId identity = true → a.Ready roomId identity t.guesses t.state.clock

theorem Attempt.Ready.mono {guesses guesses' : Option Guesses} {clock clock' : Nat} {a : Attempt}
    (h : a.Ready roomId identity guesses clock) (hclock : clock ≤ clock') (hguesses : ∀ g ∈ guesses', g ∈ guesses) :
    a.Ready roomId identity guesses' clock' := by
  unfold Attempt.Ready at h ⊢
  split at h
  · exact Nat.le_trans h hclock
  · exact ⟨h.1, fun g hg => Nat.le_trans (h.2 g (hguesses g hg)) hclock⟩
  · exact ⟨h.1, h.2.1, fun g hg => h.2.2 g (hguesses g hg)⟩
  · exact h

/-- A step that leaves the row, and keeps the attempts or lets one leave. -/
theorem Spaced.mono {s : State} {recorded : List Nat} (h : Spaced roomId identity t) (hclock : t.state.clock ≤ s.clock)
    (hrow : s.rows.get (pinAttemptMetaId roomId identity) = t.state.rows.get (pinAttemptMetaId roomId identity))
    (hattempts : s.attempts.Sublist t.state.attempts) : Spaced roomId identity ⟨s, recorded, t.guesses⟩ where
  row := hrow.trans h.row
  apart := h.apart
  alone := Nat.le_trans hattempts.countP_le h.alone
  ready := fun a ha hmine => (h.ready a (hattempts.subset ha) hmine).mono hclock fun _ hg => hg

/-- A step that changes nothing of it. -/
theorem Spaced.same {recorded : List Nat} (h : Spaced roomId identity t) :
    Spaced roomId identity ⟨t.state, recorded, t.guesses⟩ :=
  h.mono (Nat.le_refl _) rfl (List.Sublist.refl _)

/-- A step that moves one attempt on. -/
theorem Spaced.advance {s : State} {recorded : List Nat} {k : Nat} {a : Attempt} {phase : Phase}
    (h : Spaced roomId identity t) (hget : t.state.attempts[k]? = some a) (hclock : t.state.clock ≤ s.clock)
    (hrows : s.rows = t.state.rows) (hattempts : s.attempts = t.state.attempts.set k { a with phase })
    (hready : a.mine roomId identity = true → Attempt.Ready roomId identity t.guesses s.clock { a with phase }) :
    Spaced roomId identity ⟨s, recorded, t.guesses⟩ where
  row := hrows ▸ h.row
  apart := h.apart
  alone := by
    have hset := countP_set_of hget (Attempt.mine roomId identity) { a with phase }
    have hsame : Attempt.mine roomId identity { a with phase } = a.mine roomId identity := rfl
    rw [hsame] at hset
    have halone := h.alone
    dsimp only
    rw [hattempts]
    omega
  ready := by
    intro b hb hmine
    dsimp only at hb
    rw [hattempts] at hb
    rcases List.mem_or_eq_of_mem_set hb with hold | rfl
    · exact (h.ready b hold hmine).mono hclock fun _ hg => hg
    · exact hready hmine

theorem get_writeRows_ne {a : Attempt} (h : a.mine roomId identity = false) (rows : Meta) :
    (writeRows a rows).get (pinAttemptMetaId roomId identity) = rows.get (pinAttemptMetaId roomId identity) := by
  have hkey : pinAttemptMetaId roomId identity ≠ pinAttemptMetaId a.roomId a.peerIdentityEd25519 := by
    intro heq
    obtain ⟨hr, hid⟩ := pinAttemptMetaId_inj heq
    rw [Attempt.mine, decide_eq_true hr.symm, decide_eq_true hid.symm] at h
    cases h
  unfold writeRows fnIncrementPinAttemptState fnDeletePinAttemptState
  split
  · split
    · rfl
    · exact OrdMap.get_set_ne _ _ hkey
  · split
    · rfl
    · exact OrdMap.get_delete_ne _ hkey
  · rfl

theorem get_foldl_delete (keys : List JsString) (rows : Meta) (key : JsString) :
    (keys.foldl (fun rows key => rows.delete key) rows).get key = if key ∈ keys then none else rows.get key := by
  induction keys generalizing rows with
  | nil => rfl
  | cons first keys ih =>
    rw [List.foldl_cons, ih]
    by_cases hkey : key = first
    · rw [hkey, OrdMap.get_delete_self, if_pos List.mem_cons_self, ite_self]
    · rw [OrdMap.get_delete_ne _ hkey]
      simp only [List.mem_cons, hkey, false_or]

/-- Dropping the rows of a room drops the row if it is one of them, and no other. -/
theorem get_clearRows {r : JsString} (hr : r ≠ []) (hcolon : colon ∉ r) (rows : Meta) :
    ((fnDeletePinAttemptState r none rows).2).get (pinAttemptMetaId roomId identity) =
      if r = roomId then none else rows.get (pinAttemptMetaId roomId identity) := by
  have hscope : assertPinAttemptScope r none = .ok () := by
    unfold assertPinAttemptScope
    rw [demand_of hr, ok_bind, demand_of (by rintro _ ⟨⟩)]
  have hold : pinAttemptMetaId roomId identity ≠ JsString.ofString "pinAttempts:" ++ r := by
    have hprefix : PIN_ATTEMPT_META_PREFIX = JsString.ofString "pinAttempts:" ++ ([0x76, 0x32] ++ [colon]) := by
      decide +kernel
    intro heq
    rw [pinAttemptMetaId, pinAttemptRoomMetaPrefix, hprefix, List.append_assoc, List.append_assoc] at heq
    exact hcolon (List.append_cancel_left heq ▸ by simp)
  unfold fnDeletePinAttemptState
  rw [hscope]
  dsimp only
  rw [OrdMap.get_delete_ne _ hold, get_foldl_delete]
  by_cases hroom : r = roomId
  · subst hroom
    rw [if_pos rfl]
    split
    case isTrue => rfl
    case isFalse hkeep =>
      refine OrdMap.get_eq_none_iff.mpr fun hmem => hkeep (List.mem_filter.mpr ⟨hmem, ?_⟩)
      exact List.isPrefixOf_iff_prefix.mpr (List.prefix_append _ _)
  · rw [if_neg hroom, if_neg]
    intro hmem
    have hprefix := (List.mem_filter.mp hmem).2
    rw [not_prefix_metaId hroom] at hprefix
    cases hprefix

/-- A failure that the worker counts. -/
theorem Spaced.count {s : State} {recorded : List Nat} {k now : Nat} {a : Attempt} (h : Spaced roomId identity t)
    (hget : t.state.attempts[k]? = some a) (hmine : a.mine roomId identity = true) (hphase : a.phase = .recording now)
    (hrows : s.rows = writeRows a t.state.rows) (hattempts : s.attempts = t.state.attempts.eraseIdx k) :
    Spaced roomId identity ⟨s, recorded, some (Guesses.failed now t.guesses)⟩ := by
  have herase := countP_eraseIdx_of hget (Attempt.mine roomId identity)
  have halone := h.alone
  have hready := h.ready a (List.mem_of_getElem? hget) hmine
  rw [hmine, if_pos rfl] at herase
  rw [Attempt.Ready, hphase] at hready
  obtain ⟨hscope, hsafe, hlast⟩ := hready
  obtain ⟨hr, hid⟩ := mine_iff.mp hmine
  have hbackoff : ∀ n, (if n < MAX_PIN_ATTEMPTS then 0 else min (PIN_BACKOFF_BASE_MS * 2 ^ (n - MAX_PIN_ATTEMPTS))
      PIN_BACKOFF_MAX_MS) = pinBackoffMs n := fun _ => rfl
  constructor
  · dsimp only
    rw [hrows, writeRows, hphase, hr, hid]
    dsimp only
    unfold fnIncrementPinAttemptState
    rw [hscope, ok_bind, demand_of ⟨hsafe, by decide⟩]
    dsimp only
    rw [OrdMap.get_set_self, h.row, Option.map_some, nextPinAttemptState, hbackoff]
    cases t.guesses <;> rfl
  · intro g hg
    cases Option.some.inj hg
    cases hguesses : t.guesses with
    | none => exact Nat.le_refl _
    | some g =>
      have hold := h.apart g hguesses
      have hnext := hlast g hguesses
      dsimp only [Guesses.failed]
      rw [Finset.sum_range_succ]
      omega
  · dsimp only
    rw [hattempts]
    omega
  · intro b hb hmine'
    dsimp only at hb
    rw [hattempts] at hb
    have hpos := List.countP_pos_iff.mpr ⟨b, hb, hmine'⟩
    omega

/-- A row that is dropped. -/
theorem Spaced.drop {s : State} {recorded : List Nat} (h : Spaced roomId identity t)
    (hclock : t.state.clock ≤ s.clock) (hrow : s.rows.get (pinAttemptMetaId roomId identity) = none)
    (hattempts : s.attempts.Sublist t.state.attempts) : Spaced roomId identity ⟨s, recorded, none⟩ where
  row := hrow
  apart := by rintro g ⟨⟩
  alone := Nat.le_trans hattempts.countP_le h.alone
  ready := fun a ha hmine => (h.ready a (hattempts.subset ha) hmine).mono hclock (by rintro g ⟨⟩)

theorem spaced_step {event : Event} (htimely : Timely event t) (halone : Alone roomId identity event t)
    (h : Spaced roomId identity t) : Spaced roomId identity (Trace.step roomId identity event t) := by
  cases event with
  | begin r id now =>
    simp only [Trace.step, PinAttempts.step, guessesAfter]
    split
    · refine ⟨h.row, h.apart, ?_, ?_⟩
      · dsimp only
        rw [List.countP_append, List.countP_singleton]
        have hone := h.alone
        by_cases hmine : Attempt.mine roomId identity ⟨r, id, .reading now⟩ = true
        · obtain ⟨hr, hid⟩ := mine_iff.mp hmine
          rw [halone hr hid, if_pos hmine]
        · rw [if_neg hmine]
          exact hone
      · intro a ha hmine
        rcases List.mem_append.mp ha with hold | hnew
        · exact (h.ready a hold hmine).mono htimely.1 fun _ hg => hg
        · rw [List.mem_singleton.mp hnew]
          exact Nat.le_refl now
    · exact h.mono htimely.1 rfl (List.Sublist.refl _)
  | read k done =>
    simp only [Trace.step, PinAttempts.step, guessesAfter]
    cases hget : t.state.attempts[k]? with
    | none => exact h.same
    | some a =>
      dsimp only
      split <;> rename_i hphase
      · split <;> rename_i hallows
        · refine h.advance hget (Nat.le_refl _) rfl rfl fun hmine => ?_
          obtain ⟨hr, hid⟩ := mine_iff.mp hmine
          have hreading := h.ready a (List.mem_of_getElem? hget) hmine
          rw [Attempt.Ready, hphase] at hreading
          have hrow := hallows.2
          unfold rowAllows fnGetPinAttemptState at hrow
          rw [hr, hid, h.row] at hrow
          cases hscope : assertPinAttemptScope roomId (some identity) with
          | error e =>
            rw [hscope] at hrow
            cases hrow
          | ok u =>
            refine ⟨hscope, fun g hg => ?_⟩
            rw [hscope, ok_bind, show t.guesses = some g from hg] at hrow
            exact Nat.le_trans (of_decide_eq_true hrow) hreading
        · exact h.mono (Nat.le_refl _) rfl (List.eraseIdx_sublist _ _)
      · exact h.same
  | finish k outcome now =>
    simp only [Trace.step, PinAttempts.step, guessesAfter]
    cases hget : t.state.attempts[k]? with
    | none => exact h.same
    | some a =>
      dsimp only
      by_cases hrunning : a.phase = .running
      · rw [if_pos hrunning]
        have hready : a.mine roomId identity = true →
            assertPinAttemptScope roomId (some identity) = .ok () ∧
              ∀ g ∈ t.guesses, g.last + pinBackoffMs g.count ≤ now := by
          intro hmine
          have hold := h.ready a (List.mem_of_getElem? hget) hmine
          rw [Attempt.Ready, hrunning] at hold
          exact ⟨hold.1, fun g hg => Nat.le_trans (hold.2 g hg) htimely.1⟩
        cases outcome with
        | authenticated => exact h.advance hget htimely.1 rfl rfl fun hmine => (hready hmine).1
        | failed => exact h.mono htimely.1 rfl (List.eraseIdx_sublist _ _)
        | keyConfirmationFailed =>
          exact h.advance hget htimely.1 rfl rfl fun hmine => ⟨(hready hmine).1, htimely.2, (hready hmine).2⟩
      · rw [if_neg hrunning]
        exact h.same
  | write k done =>
    cases hget : t.state.attempts[k]? with
    | none => cases done <;>
        (simp only [Trace.step, PinAttempts.step, guessesAfter, hget]
         exact h.same)
    | some a =>
      have hleave : (t.state.attempts.eraseIdx k).Sublist t.state.attempts := List.eraseIdx_sublist _ _
      cases done with
      | false =>
        simp only [Trace.step, PinAttempts.step, guessesAfter, hget]
        split
        · exact h.mono (Nat.le_refl _) rfl hleave
        · exact h.mono (Nat.le_refl _) rfl hleave
        · exact h.same
      | true =>
        simp only [Trace.step, PinAttempts.step, guessesAfter, hget, ← mine_iff, if_true]
        cases hphase : a.phase with
        | reading at' => simpa only [ite_self] using h.same
        | running => simpa only [ite_self] using h.same
        | recording now =>
          dsimp only
          split
          case isTrue hm => exact h.count hget hm hphase rfl rfl
          case isFalse hm => exact h.mono (Nat.le_refl _) (get_writeRows_ne (Bool.not_eq_true _ ▸ hm) _) hleave
        | clearing =>
          dsimp only
          split
          case isTrue hm =>
            refine h.drop (Nat.le_refl _) ?_ hleave
            have hready := h.ready a (List.mem_of_getElem? hget) hm
            rw [Attempt.Ready, hphase] at hready
            obtain ⟨hr, hid⟩ := mine_iff.mp hm
            dsimp only
            rw [writeRows, hphase, hr, hid]
            dsimp only
            rw [fnDeletePinAttemptState, hready]
            exact OrdMap.get_delete_self _ _
          case isFalse hm => exact h.mono (Nat.le_refl _) (get_writeRows_ne (Bool.not_eq_true _ ▸ hm) _) hleave
  | clearRoom r => exact h.mono (Nat.le_refl _) rfl (List.Sublist.refl _)
  | clearRows r done =>
    cases done with
    | false => exact h.same
    | true =>
      have hget := @get_clearRows roomId identity r htimely.1 htimely.2 t.state.rows
      simp only [Trace.step, PinAttempts.step, guessesAfter, if_true]
      by_cases hr : r = roomId
      · rw [if_pos hr] at hget ⊢
        exact h.drop (Nat.le_refl _) hget (List.Sublist.refl _)
      · rw [if_neg hr] at hget ⊢
        exact ⟨hget.trans h.row, h.apart, h.alone, h.ready⟩
  | reload => exact h.mono (Nat.le_refl _) rfl (List.nil_sublist _)

/-! ## Along every run -/

/-- Along every run, whoever guesses and whatever the worker fails to do: the window of a room has its
wrong guesses of the last five minutes, and these are at most 29 more than there are attempts side by
side; and `n` recorded wrong guesses in a row of an identity whose attempts follow each other take
the backoffs of the first `n - 1`, and are in its row. -/
theorem pin_guess_rate {events : List Event}
    (htimely : Along (Trace.step roomId identity) Timely events Trace.start) :
    (∀ c, Along (Trace.step roomId identity) (Crowd roomId c) events Trace.start →
      ∀ now, (runs step events State.start).clock ≤ now →
        (currentRoomFailures roomId now (runs step events State.start).windows).1 =
          inWindow now (runs (Trace.step roomId identity) events Trace.start).recorded ∧
        (inWindow now (runs (Trace.step roomId identity) events Trace.start).recorded).length
          ≤ MAX_ROOM_PIN_FAILURES_PER_WINDOW - 1 + c) ∧
    (Along (Trace.step roomId identity) (Alone roomId identity) events Trace.start →
      (runs step events State.start).rows.get (pinAttemptMetaId roomId identity) =
        (runs (Trace.step roomId identity) events Trace.start).guesses.map
          (fun g => ⟨g.count, g.last + pinBackoffMs g.count⟩) ∧
      ∀ g ∈ (runs (Trace.step roomId identity) events Trace.start).guesses,
        g.first + ∑ k ∈ Finset.range g.count, pinBackoffMs k ≤ g.last) := by
  have hstate := @trace_state roomId identity events Trace.start
  constructor
  · intro c hcrowd now hnow
    obtain ⟨hcounted, hbounded⟩ : Counted roomId (runs (Trace.step roomId identity) events Trace.start) ∧
        Bounded roomId c (runs (Trace.step roomId identity) events Trace.start) := by
      refine (htimely.and hcrowd).invariant (I := fun t => Counted roomId t ∧ Bounded roomId c t) ?_
        ⟨fun _ _ => rfl, Nat.zero_le _⟩
      intro event t hp h
      exact ⟨counted_step hp.1 h.1, bounded_step hp.1 hp.2 h.1 h.2⟩
    unfold Counted Bounded at *
    rw [hstate] at hcounted hbounded
    refine ⟨hcounted now hnow, ?_⟩
    have hwindow := length_inWindow_le hnow (runs (Trace.step roomId identity) events Trace.start).recorded
    exact Nat.le_trans hwindow (Nat.le_trans (Nat.le_add_right _ _) hbounded)
  · intro halone
    have hspaced : Spaced roomId identity (runs (Trace.step roomId identity) events Trace.start) := by
      refine (htimely.and halone).invariant (I := Spaced roomId identity) ?_ ⟨rfl, by rintro g ⟨⟩, Nat.zero_le _, ?_⟩
      · exact fun event t hp h => spaced_step hp.1 hp.2 h
      · exact fun a ha => absurd ha List.not_mem_nil
    exact ⟨hstate ▸ hspaced.row, hspaced.apart⟩

/-- A wrong PIN. -/
def wrongPin (roomId identity : JsString) (started ended : Nat) : List Event :=
  [.begin roomId identity started, .read 0 true, .finish 0 .keyConfirmationFailed ended, .write 0 true]

/-- Three wrong PINs one after the other, a try before the backoff of the third is over, and two more
wrong PINs as soon as they are let in. -/
def wrongPins (roomId identity : JsString) : List Event :=
  wrongPin roomId identity 1000 2000 ++ (wrongPin roomId identity 2000 2500 ++
    (wrongPin roomId identity 2500 3000 ++ (.begin roomId identity 3200 :: .read 0 true ::
      (wrongPin roomId identity 3500 4000 ++ wrongPin roomId identity 5000 5500))))

/-- Five wrong guesses are in the window and in the row, and another must wait for two seconds. -/
theorem pin_guess_rate_five : (currentRoomFailures [0x72] 5500
      (runs step (wrongPins [0x72] (List.replicate 64 0x61)) State.start).windows).1 =
        [2000, 2500, 3000, 4000, 5500] ∧
    (runs step (wrongPins [0x72] (List.replicate 64 0x61)) State.start).rows.get
      (pinAttemptMetaId [0x72] (List.replicate 64 0x61)) = some ⟨5, 7500⟩ := by
  have htimely : Along (Trace.step [0x72] (List.replicate 64 0x61)) Timely
      (wrongPins [0x72] (List.replicate 64 0x61)) Trace.start := by
    repeat' apply And.intro
    all_goals first | exact True.intro | decide +kernel
  have hcrowd : Along (Trace.step [0x72] (List.replicate 64 0x61)) (Crowd [0x72] 1)
      (wrongPins [0x72] (List.replicate 64 0x61)) Trace.start := by
    repeat' apply And.intro
    all_goals first | exact True.intro | exact fun _ => by decide +kernel
  have halone : Along (Trace.step [0x72] (List.replicate 64 0x61)) (Alone [0x72] (List.replicate 64 0x61))
      (wrongPins [0x72] (List.replicate 64 0x61)) Trace.start := by
    repeat' apply And.intro
    all_goals first | exact True.intro | exact fun _ _ => by decide +kernel
  have hrate := @pin_guess_rate [0x72] (List.replicate 64 0x61) (wrongPins [0x72] (List.replicate 64 0x61)) htimely
  constructor
  · refine (hrate.1 1 hcrowd 5500 (by decide +kernel)).1.trans ?_
    decide +kernel
  · refine (hrate.2 halone).1.trans ?_
    decide +kernel

end PinAttempts

end P2Party
