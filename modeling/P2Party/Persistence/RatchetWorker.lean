import P2Party.Persistence.RatchetGuard
import P2Party.Base.Runs
import Mathlib.Logic.Function.Basic

/-!
# The worker's ratchet rows (`db/db.worker.ts`)

The worker reads, writes and deletes the ratchet rows of any number of edges. Calls for one
edge run one after the other under a lock, those of different edges interleave; a call awaits
the store, the browser's cryptography and SHA-256, and another context may change the stored
row at any time. Three maps are kept beside the store: the guard's watermarks, the stamp of the
last write, and the locks.

- `Slot.advance`: the next step of the call that holds the lock of an edge;
- `Worker.step`: the worker, with its maps under `ratchetWorkerKey`;
- `Entry`: what a run has done, and `lastWritten`, `untouched`, `lastAccepted`: what follows
  from it;
- `Inv`: what holds of an edge between any two steps;
- `ratchet_rows`: stamps increase, a saved row is read back, and no older row is returned.
-/

namespace P2Party

open Base

namespace RatchetWrap

/-! ## Calls -/

/-- An edge: a room and a peer's public key, the key path of the store. -/
abbrev Edge := JsString × JsString

/-- The edge of a row. -/
def RatchetSession.edge (s : RatchetSession) : Edge := (s.roomId, s.peerPublicKey)

/-- A call of the worker. -/
inductive Call
  | get (edge : Edge)
  | set (session : RatchetSession)
  | delete (edge : Edge)

/-- The edge whose lock a call takes. -/
def Call.edge : Call → Edge
  | .get edge => edge
  | .set session => session.edge
  | .delete edge => edge

/-- Where a call stands: it waits for the lock or has just got it, or it has come back from
something it awaited. -/
inductive Phase
  | start (call : Call)
  | put (session : RatchetSession) (updatedAt : Nat)
  | remember (session wrapped : RatchetSession)
  | mark (updatedAt : Nat)
  | authenticate (stored : RatchetSession)
  | note (updatedAt : Nat)
  | forget

/-- What happened on an edge. -/
inductive Entry
  /-- The row of a set is durable. -/
  | wrote (session row : RatchetSession)
  /-- The guard has remembered it; the set goes on to return. -/
  | saved (session row : RatchetSession)
  /-- A set failed before its row was durable. -/
  | refused (e : JsError)
  /-- A set failed afterwards. -/
  | unremembered (row : RatchetSession) (e : JsError)
  /-- A get found no row. -/
  | missing
  /-- A get goes on to return what it read. -/
  | returned (row restored : RatchetSession)
  /-- A get did not return the row it read. -/
  | rejected (row : RatchetSession) (e : JsError)
  /-- The row is gone by a delete. -/
  | deleted
  /-- Another context changed the stored row. -/
  | replaced
deriving DecidableEq

/-! ## One edge -/

/-- The stored row of an edge, its entries in the three maps, and the calls under its lock: the
first one holds it. -/
structure Slot where
  row : Option RatchetSession
  watermark : Option Watermark
  lastWrite : Option Nat
  calls : List Phase

/-- What the running call is given when it goes on: `Date.now()`, random draws, and whether the
store accepts a write. -/
structure Given where
  clock : Int
  draws : Draws
  durable : Bool

variable (W : WebCrypto) (key : Bytes)

/-- The stamp of a set (db.worker.ts:1856-1860). -/
def nextStamp (lastWrite : Option Nat) (clock : Int) (requested : Nat) : Nat :=
  let previous := lastWrite.getD 0
  let requested := (max clock (requested : Int)).toNat
  if requested > previous then requested else previous + 1

/-- The next step of the running call, with what it adds to the history; `waiting` are the calls
that wait for the lock. -/
def Slot.proceed (g : Given) (slot : Slot) (waiting : List Phase) : Phase → Slot × List Entry
  -- `fnGetRatchetSession` (db.worker.ts:1814-1846)
  | .start (.get _) =>
    match slot.row with
    | none => ({ slot with calls := waiting }, [.missing])
    | some stored => ({ slot with calls := .authenticate stored :: waiting }, [])
  | .authenticate stored =>
    match unwrapRatchetSession W stored key with
    | .error e => ({ slot with calls := waiting }, [.rejected stored e])
    | .ok restored =>
      match acceptRow W slot.watermark stored with
      | .error e => ({ slot with calls := waiting }, [.rejected stored e])
      | .ok watermark =>
        ({ slot with watermark := some watermark, calls := .note restored.updatedAt :: waiting },
          [.returned stored restored])
  | .note updatedAt =>
    ({ slot with lastWrite := some (max (slot.lastWrite.getD 0) updatedAt), calls := waiting }, [])
  -- `fnSetRatchetSession` (db.worker.ts:1848-1884)
  | .start (.set session) =>
    let updatedAt := nextStamp slot.lastWrite g.clock session.updatedAt
    if updatedAt ≤ MAX_SAFE_INTEGER then
      ({ slot with calls := .put session updatedAt :: waiting }, [])
    else
      ({ slot with calls := waiting }, [.refused (.error "Ratchet persistence timestamp exhausted")])
  | .put session updatedAt =>
    match wrapRatchetSession W { session with updatedAt } key g.draws with
    | .error e => ({ slot with calls := waiting }, [.refused e])
    | .ok wrapped =>
      if g.durable then
        ({ slot with row := some wrapped, calls := .remember session wrapped :: waiting },
          [.wrote session wrapped])
      else
        ({ slot with calls := waiting }, [.refused (.error "AbortError")])
  | .remember session wrapped =>
    match acceptRow W slot.watermark wrapped with
    | .error e => ({ slot with calls := waiting }, [.unremembered wrapped e])
    | .ok watermark =>
      ({ slot with watermark := some watermark, calls := .mark wrapped.updatedAt :: waiting },
        [.saved session wrapped])
  | .mark updatedAt => ({ slot with lastWrite := some updatedAt, calls := waiting }, [])
  -- `fnDeleteRatchetSession` (db.worker.ts:1886-1901), which swallows a failure
  | .start (.delete _) =>
    if g.durable then ({ slot with row := none, calls := .forget :: waiting }, [.deleted])
    else ({ slot with calls := waiting }, [])
  | .forget => ({ slot with watermark := none, lastWrite := none, calls := waiting }, [])

theorem proceed_note (g : Given) (slot : Slot) (waiting : List Phase) (updatedAt : Nat) :
    slot.proceed W key g waiting (.note updatedAt) =
      ({ slot with lastWrite := some (max (slot.lastWrite.getD 0) updatedAt), calls := waiting }, []) := by
  simp only [Slot.proceed]

/-- The call that holds the lock goes on. -/
def Slot.advance (g : Given) (slot : Slot) : Slot × List Entry :=
  match slot.calls with
  | [] => (slot, [])
  | phase :: waiting => slot.proceed W key g waiting phase

/-! ## The worker -/

/-- The worker: the store, its three maps, and what it has done so far. A row is stored under its
own edge, so the guard finds a stored row's watermark under the edge it was read from. -/
structure Worker where
  ratchetSessions : Edge → Option RatchetSession
  watermarks : JsString → Option Watermark
  ratchetLastWrite : JsString → Option Nat
  ratchetWorkerLocks : JsString → List Phase
  log : List (Edge × Entry)

/-- A worker that has just started on stored rows. -/
def Worker.start (rows : Edge → Option RatchetSession) : Worker where
  ratchetSessions := rows
  watermarks _ := none
  ratchetLastWrite _ := none
  ratchetWorkerLocks _ := []
  log := []

/-- What the worker keeps for an edge. -/
def Worker.slot (w : Worker) (edge : Edge) : Slot where
  row := w.ratchetSessions edge
  watermark := w.watermarks (ratchetWorkerKey edge.1 edge.2)
  lastWrite := w.ratchetLastWrite (ratchetWorkerKey edge.1 edge.2)
  calls := w.ratchetWorkerLocks (ratchetWorkerKey edge.1 edge.2)

/-- What happened on an edge, in order. -/
def Worker.history (w : Worker) (edge : Edge) : List Entry :=
  (w.log.filter fun e => e.1 = edge).map Prod.snd

/-- Keep a slot for an edge, and note what happened. -/
def Worker.keep (w : Worker) (edge : Edge) (slot : Slot × List Entry) : Worker where
  ratchetSessions := Function.update w.ratchetSessions edge slot.1.row
  watermarks := Function.update w.watermarks (ratchetWorkerKey edge.1 edge.2) slot.1.watermark
  ratchetLastWrite := Function.update w.ratchetLastWrite (ratchetWorkerKey edge.1 edge.2) slot.1.lastWrite
  ratchetWorkerLocks := Function.update w.ratchetWorkerLocks (ratchetWorkerKey edge.1 edge.2) slot.1.calls
  log := w.log ++ slot.2.map fun e => (edge, e)

/-- What can happen: a call arrives and queues for its lock, the call that holds the lock of an edge
goes on, or another context changes what is stored. -/
inductive Event
  | call (call : Call)
  | advance (edge : Edge) (given : Given)
  | replace (edge : Edge) (row : Option RatchetSession)

/-- The edge of an event. -/
def Event.edge : Event → Edge
  | .call c => c.edge
  | .advance edge _ => edge
  | .replace edge _ => edge

/-- The event on its edge. -/
def Slot.take (slot : Slot) : Event → Slot × List Entry
  | .call c => ({ slot with calls := slot.calls ++ [.start c] }, [])
  | .advance _ given => slot.advance W key given
  | .replace _ row => ({ slot with row }, [.replaced])

/-- One step of the worker. -/
def Worker.step (event : Event) (w : Worker) : Worker :=
  w.keep event.edge ((w.slot event.edge).take W key event)

/-! ## What a history says -/

/-- The last row this worker made durable since the edge was deleted, with the session it was given. -/
def lastWritten (history : List Entry) : Option (RatchetSession × RatchetSession) :=
  history.foldl (fun last entry =>
    match entry with
    | .wrote session row => some (session, row)
    | .deleted => none
    | _ => last) none

/-- The same, as long as no other context has changed the row. -/
def untouched (history : List Entry) : Option (RatchetSession × RatchetSession) :=
  history.foldl (fun last entry =>
    match entry with
    | .wrote session row => some (session, row)
    | .deleted | .replaced => none
    | _ => last) none

/-- The row the guard accepted last since the edge was deleted: one that was read, or one that was
written and remembered. -/
def lastAccepted (history : List Entry) : Option RatchetSession :=
  history.foldl (fun last entry =>
    match entry with
    | .saved _ row => some row
    | .returned row _ => some row
    | .deleted => none
    | _ => last) none

section Summaries

variable (history : List Entry) (session row : RatchetSession) (e : JsError)

@[simp] theorem lastWritten_snoc (entry : Entry) : lastWritten (history ++ [entry]) =
    match entry with
    | .wrote session row => some (session, row)
    | .deleted => none
    | _ => lastWritten history := by
  simp only [lastWritten, List.foldl_append, List.foldl_cons, List.foldl_nil]

@[simp] theorem untouched_snoc (entry : Entry) : untouched (history ++ [entry]) =
    match entry with
    | .wrote session row => some (session, row)
    | .deleted | .replaced => none
    | _ => untouched history := by
  simp only [untouched, List.foldl_append, List.foldl_cons, List.foldl_nil]

@[simp] theorem lastAccepted_snoc (entry : Entry) : lastAccepted (history ++ [entry]) =
    match entry with
    | .saved _ row => some row
    | .returned row _ => some row
    | .deleted => none
    | _ => lastAccepted history := by
  simp only [lastAccepted, List.foldl_append, List.foldl_cons, List.foldl_nil]

end Summaries

/-! ## What may happen next -/

/-- What an entry may be after a history. -/
def Allowed (history : List Entry) : Entry → Prop
  | .wrote _ row => ∀ p ∈ lastWritten history, p.2.updatedAt < row.updatedAt
  | .unremembered .. => False
  | .missing => untouched history = none
  | .rejected row _ => untouched history = none ∧
      ∀ p ∈ lastWritten history, p.2 = row → lastAccepted history ≠ some row
  | .returned row restored =>
      (∀ p ∈ untouched history, row = p.2 ∧ restored = { p.1 with updatedAt := row.updatedAt }) ∧
      ∀ r ∈ lastAccepted history, r.updatedAt ≤ row.updatedAt ∧ (r.updatedAt = row.updatedAt →
        r = row ∨ ∃ recordId recordId', W.Collide (digested r recordId) (digested row recordId'))
  | _ => True

/-- A history in which every entry was allowed after those before it. -/
def Sound (history : List Entry) : Prop :=
  ∀ before entry after, history = before ++ entry :: after → Allowed W before entry

variable {W key} {slot : Slot} {history : List Entry} {waiting : List Phase}

theorem Sound.nil : Sound W [] := by
  intro before entry after h
  cases before <;> cases h

theorem Sound.snoc {entry : Entry} (h : Sound W history) (hentry : Allowed W history entry) :
    Sound W (history ++ [entry]) := by
  intro before x after heq
  rcases List.eq_nil_or_concat after with rfl | ⟨after', last, rfl⟩
  · obtain ⟨rfl, hx⟩ := List.append_inj' heq rfl
    obtain rfl := List.singleton_inj.mp hx
    exact hentry
  · rw [List.concat_eq_append, ← List.cons_append, ← List.append_assoc] at heq
    obtain ⟨hfront, -⟩ := List.append_inj' heq rfl
    exact h before x after' hfront

/-! ## The invariant of an edge -/

/-- The watermark is that of the row accepted last. -/
def Tracks (W : WebCrypto) : Option Watermark → Option RatchetSession → Prop
  | none, none => True
  | some m, some r => Marks W m r
  | _, _ => False

/-- Between two calls: the last write is no older than what was accepted or written, and an
untouched row is the one accepted last. -/
structure Accounts (W : WebCrypto) (watermark : Option Watermark) (lastWrite : Option Nat)
    (history : List Entry) : Prop where
  tracks : Tracks W watermark (lastAccepted history)
  accepted_le : ∀ r ∈ lastAccepted history, r.updatedAt ≤ lastWrite.getD 0
  written_le : ∀ p ∈ lastWritten history, p.2.updatedAt ≤ lastWrite.getD 0
  remembered : ∀ p ∈ untouched history, lastAccepted history = some p.2

/-- What holds where a call stands. -/
def At (W : WebCrypto) (slot : Slot) (history : List Entry) : Phase → Prop
  | .start _ => Accounts W slot.watermark slot.lastWrite history
  | .put _ updatedAt => Accounts W slot.watermark slot.lastWrite history ∧
      slot.lastWrite.getD 0 < updatedAt
  | .remember session wrapped => Tracks W slot.watermark (lastAccepted history) ∧
      (∀ r ∈ lastAccepted history, r.updatedAt < wrapped.updatedAt) ∧
      lastWritten history = some (session, wrapped)
  | .mark updatedAt => Tracks W slot.watermark (lastAccepted history) ∧
      ∃ p, lastWritten history = some p ∧ p.2.updatedAt = updatedAt ∧ lastAccepted history = some p.2
  | .authenticate stored => Accounts W slot.watermark slot.lastWrite history ∧
      ∀ p ∈ untouched history, stored = p.2
  | .note updatedAt =>
      Accounts W slot.watermark (some (max (slot.lastWrite.getD 0) updatedAt)) history
  | .forget => lastWritten history = none ∧ lastAccepted history = none ∧ untouched history = none

/-- The call that holds the lock stands where it may, and the others wait. -/
def Running (W : WebCrypto) (slot : Slot) (history : List Entry) : List Phase → Prop
  | [] => Accounts W slot.watermark slot.lastWrite history
  | phase :: waiting => At W slot history phase ∧ ∀ q ∈ waiting, ∃ c, q = .start c

/-- A row that this worker wrote for a session. -/
def Own (W : WebCrypto) (key : Bytes) (p : RatchetSession × RatchetSession) : Prop :=
  ∃ recordId, Written W key { p.1 with updatedAt := p.2.updatedAt } p.2 recordId

/-- What holds of an edge between any two steps. -/
structure Inv (W : WebCrypto) (key : Bytes) (slot : Slot) (history : List Entry) : Prop where
  sound : Sound W history
  own : ∀ p ∈ lastWritten history, Own W key p
  stored : ∀ p ∈ untouched history, slot.row = some p.2 ∧ lastWritten history = some p
  running : Running W slot history slot.calls

/-- Once a call has ended the next one may begin. -/
theorem Accounts.running (h : Accounts W slot.watermark slot.lastWrite history)
    (hwaiting : ∀ q ∈ waiting, ∃ c, q = .start c) : Running W slot history waiting := by
  cases waiting with
  | nil => exact h
  | cons q waiting =>
    obtain ⟨c, rfl⟩ := hwaiting q List.mem_cons_self
    exact ⟨h, fun r hr => hwaiting r (List.mem_cons_of_mem _ hr)⟩

/-- An entry that says nothing of the row. -/
theorem Accounts.snoc {watermark : Option Watermark} {lastWrite : Option Nat} {entry : Entry}
    (h : Accounts W watermark lastWrite history)
    (hw : lastWritten (history ++ [entry]) = lastWritten history)
    (ha : lastAccepted (history ++ [entry]) = lastAccepted history)
    (hu : ∀ p ∈ untouched (history ++ [entry]), p ∈ untouched history) :
    Accounts W watermark lastWrite (history ++ [entry]) := by
  refine ⟨?_, ?_, ?_, ?_⟩
  · rw [ha]
    exact h.tracks
  · rw [ha]
    exact h.accepted_le
  · rw [hw]
    exact h.written_le
  · intro p hp
    rw [ha]
    exact h.remembered p (hu p hp)

/-- The stamp of a set is above the last write. -/
theorem lt_nextStamp (lastWrite : Option Nat) (clock : Int) (requested : Nat) :
    lastWrite.getD 0 < nextStamp lastWrite clock requested := by
  unfold nextStamp
  by_cases h : (max clock (requested : Int)).toNat > lastWrite.getD 0
  · simp only [if_pos h]
    exact h
  · simp only [if_neg h]
    exact Nat.lt_succ_self _

/-- A tracked watermark is that of the row accepted last. -/
theorem Tracks.marks {watermark : Option Watermark} {r : Option RatchetSession}
    (h : Tracks W watermark r) {p : Watermark} (hp : p ∈ watermark) : ∃ x ∈ r, Marks W p x := by
  cases hp
  cases r with
  | none => exact h.elim
  | some x => exact ⟨x, rfl, h⟩

theorem Tracks.watermark {watermark : Option Watermark} {x : RatchetSession}
    (h : Tracks W watermark (some x)) : ∃ p, watermark = some p ∧ Marks W p x := by
  cases watermark with
  | none => exact h.elim
  | some p => exact ⟨p, rfl, h⟩

/-- The guard accepts a row of this worker after older rows, and after itself. -/
theorem Own.accepted {p : RatchetSession × RatchetSession} (hp : Own W key p)
    {watermark : Option Watermark} {last : Option RatchetSession} (htracks : Tracks W watermark last)
    (h : ∀ r ∈ last, r.updatedAt < p.2.updatedAt ∨ r = p.2) :
    ∃ m, acceptRow W watermark p.2 = .ok m := by
  obtain ⟨recordId, hwritten⟩ := hp
  refine acceptRow_isOk hwritten.enveloped fun m hm => ?_
  obtain ⟨r, hr, hmarks⟩ := htracks.marks hm
  rcases h r hr with hlt | rfl
  · exact .inl (hmarks.1 ▸ hlt)
  · exact .inr hmarks

/-- A row of this worker unwraps to the session it was given. -/
theorem Own.unwrap (hW : WebCrypto.GcmLaws W) {p : RatchetSession × RatchetSession}
    (hp : Own W key p) :
    unwrapRatchetSession W p.2 key = .ok { p.1 with updatedAt := p.2.updatedAt } := by
  obtain ⟨recordId, hwritten⟩ := hp
  exact hwritten.unwrap hW

/-! ## Steps of a call -/

/-- What a step leaves is what may hold of an edge. -/
def Good (W : WebCrypto) (key : Bytes) (history : List Entry) (result : Slot × List Entry) : Prop :=
  Inv W key result.1 (history ++ result.2)

variable {session row restored stored wrapped : RatchetSession} {updatedAt : Nat} {edge : Edge}
  {e : JsError} {g : Given}

/-- A step that adds nothing to the history and keeps the row. -/
theorem Inv.silent (h : Inv W key slot history) {slot' : Slot} (hrow : slot'.row = slot.row)
    (hrunning : Running W slot' history slot'.calls) : Good W key history (slot', []) := by
  show Inv W key slot' (history ++ [])
  rw [List.append_nil]
  exact ⟨h.sound, h.own, fun p hp => hrow ▸ h.stored p hp, hrunning⟩

/-- A call ends with an entry that says nothing of the row. -/
theorem Inv.ends (h : Inv W key slot history) {entry : Entry} (hentry : Allowed W history entry)
    (hw : lastWritten (history ++ [entry]) = lastWritten history)
    (ha : lastAccepted (history ++ [entry]) = lastAccepted history)
    (hu : untouched (history ++ [entry]) = untouched history)
    (hwaiting : ∀ q ∈ waiting, ∃ c, q = .start c)
    (haccounts : Accounts W slot.watermark slot.lastWrite history) :
    Good W key history ({ slot with calls := waiting }, [entry]) := by
  refine ⟨h.sound.snoc hentry, ?_, ?_, ?_⟩
  · rw [hw]
    exact h.own
  · rw [hu, hw]
    exact h.stored
  · exact (haccounts.snoc hw ha fun p hp => hu ▸ hp).running hwaiting

theorem good_start_get (h : Inv W key slot history) (hat : At W slot history (.start (.get edge)))
    (hwaiting : ∀ q ∈ waiting, ∃ c, q = .start c) :
    Good W key history (slot.proceed W key g waiting (.start (.get edge))) := by
  have hstored : ∀ p ∈ untouched history, slot.row = some p.2 := fun p hp => (h.stored p hp).1
  obtain ⟨row, watermark, lastWrite, calls⟩ := slot
  cases row with
  | none =>
    have hallowed : Allowed W history .missing := by
      show untouched history = none
      cases hu : untouched history with
      | none => rfl
      | some p => cases hstored p hu
    exact h.ends hallowed (lastWritten_snoc _ _) (lastAccepted_snoc _ _) (untouched_snoc _ _)
      hwaiting hat
  | some stored =>
    exact h.silent rfl ⟨⟨hat, fun p hp => Option.some.inj (hstored p hp)⟩, hwaiting⟩

theorem good_authenticate (hW : WebCrypto.GcmLaws W) (h : Inv W key slot history)
    (hat : At W slot history (.authenticate stored))
    (hwaiting : ∀ q ∈ waiting, ∃ c, q = .start c) :
    Good W key history (slot.proceed W key g waiting (.authenticate stored)) := by
  obtain ⟨haccounts, huntouched⟩ := hat
  -- a row of this worker that is also the row accepted last passes both checks
  have hown : ∀ p ∈ lastWritten history, p.2 = stored → lastAccepted history = some stored →
      unwrapRatchetSession W stored key = .ok { p.1 with updatedAt := stored.updatedAt } ∧
        ∃ m, acceptRow W slot.watermark stored = .ok m := by
    rintro p hp rfl hlast
    refine ⟨(h.own p hp).unwrap hW, (h.own p hp).accepted haccounts.tracks fun r hr => .inr ?_⟩
    rw [hlast] at hr
    exact (Option.some.inj hr).symm
  have hrejected : ∀ e, (∀ restored, unwrapRatchetSession W stored key = .ok restored →
      ∀ m, acceptRow W slot.watermark stored ≠ .ok m) → Allowed W history (.rejected stored e) := by
    intro e hno
    constructor
    · cases hu : untouched history with
      | none => rfl
      | some p =>
        have hstored : stored = p.2 := huntouched p hu
        obtain ⟨hunwrap, m, haccept⟩ := hown p (h.stored p hu).2 hstored.symm
          (hstored ▸ haccounts.remembered p hu)
        exact absurd haccept (hno _ hunwrap m)
    · intro p hp hrow hlast
      obtain ⟨hunwrap, m, haccept⟩ := hown p hp hrow hlast
      exact hno _ hunwrap m haccept
  simp only [Slot.proceed]
  cases hunwrap : unwrapRatchetSession W stored key with
  | error e =>
    refine h.ends (hrejected e fun restored hok => ?_) (lastWritten_snoc _ _) (lastAccepted_snoc _ _)
      (untouched_snoc _ _) hwaiting haccounts
    rw [hunwrap] at hok
    cases hok
  | ok restored =>
    cases haccept : acceptRow W slot.watermark stored with
    | error e =>
      refine h.ends (hrejected e fun restored _ m hok => ?_) (lastWritten_snoc _ _)
        (lastAccepted_snoc _ _) (untouched_snoc _ _) hwaiting haccounts
      rw [haccept] at hok
      cases hok
    | ok m =>
      obtain ⟨hmarks, hprevious⟩ := acceptRow_eq_ok haccept
      have hstamp : restored.updatedAt = stored.updatedAt :=
        congrArg ClearFields.updatedAt (clear_of_unwrap hunwrap)
      have hallowed : Allowed W history (.returned stored restored) := by
        constructor
        · intro p hp
          have hstored : stored = p.2 := huntouched p hp
          obtain ⟨hown', -⟩ := hown p (h.stored p hp).2 hstored.symm
            (hstored ▸ haccounts.remembered p hp)
          exact ⟨hstored, Except.ok.inj (hunwrap.symm.trans hown')⟩
        · intro r hr
          have htracks := haccounts.tracks
          rw [show lastAccepted history = some r from hr] at htracks
          obtain ⟨p, hp, hmark⟩ := htracks.watermark
          obtain ⟨hle, hsame⟩ := hprevious p hp
          rw [hmark.1] at hle hsame
          exact ⟨hle, fun heq => hmark.eq_or_collide hmarks (hsame heq)⟩
      refine ⟨h.sound.snoc hallowed, ?_, ?_, ?_, hwaiting⟩
      · rw [lastWritten_snoc]
        exact h.own
      · rw [lastWritten_snoc, untouched_snoc]
        exact h.stored
      · refine ⟨?_, ?_, ?_, ?_⟩
        · rw [lastAccepted_snoc]
          exact hmarks
        · rw [lastAccepted_snoc]
          rintro r ⟨⟩
          rw [hstamp]
          exact Nat.le_max_right _ _
        · rw [lastWritten_snoc]
          exact fun p hp => Nat.le_trans (haccounts.written_le p hp) (Nat.le_max_left _ _)
        · rw [lastAccepted_snoc, untouched_snoc]
          exact fun p hp => congrArg some (huntouched p hp)

theorem good_note (h : Inv W key slot history) (hat : At W slot history (.note updatedAt))
    (hwaiting : ∀ q ∈ waiting, ∃ c, q = .start c) :
    Good W key history (slot.proceed W key g waiting (.note updatedAt)) := by
  rw [proceed_note]
  exact h.silent rfl (Accounts.running hat hwaiting)

theorem good_start_set (h : Inv W key slot history) (hat : At W slot history (.start (.set session)))
    (hwaiting : ∀ q ∈ waiting, ∃ c, q = .start c) :
    Good W key history (slot.proceed W key g waiting (.start (.set session))) := by
  simp only [Slot.proceed]
  split
  · exact h.silent rfl ⟨⟨hat, lt_nextStamp _ _ _⟩, hwaiting⟩
  · exact h.ends trivial (lastWritten_snoc _ _) (lastAccepted_snoc _ _) (untouched_snoc _ _)
      hwaiting hat

theorem good_put (h : Inv W key slot history) (hat : At W slot history (.put session updatedAt))
    (hwaiting : ∀ q ∈ waiting, ∃ c, q = .start c) :
    Good W key history (slot.proceed W key g waiting (.put session updatedAt)) := by
  obtain ⟨haccounts, hlt⟩ := hat
  have hrefused : ∀ e, Good W key history ({ slot with calls := waiting }, [.refused e]) := by
    intro e
    exact h.ends trivial (lastWritten_snoc _ _) (lastAccepted_snoc _ _) (untouched_snoc _ _)
      hwaiting haccounts
  simp only [Slot.proceed]
  cases hwrap : wrapRatchetSession W { session with updatedAt } key g.draws with
  | error e => exact hrefused e
  | ok wrapped =>
    by_cases hdurable : g.durable = true
    · simp only [hdurable, if_true]
      have hwritten := written_of_wrap hwrap
      have hstamp : wrapped.updatedAt = updatedAt :=
        congrArg ClearFields.updatedAt hwritten.sameClear
      have hallowed : Allowed W history (.wrote session wrapped) := by
        intro p hp
        rw [hstamp]
        exact Nat.lt_of_le_of_lt (haccounts.written_le p hp) hlt
      refine ⟨h.sound.snoc hallowed, ?_, ?_, ⟨?_, ?_, ?_⟩, hwaiting⟩
      · rw [lastWritten_snoc]
        rintro p ⟨⟩
        exact ⟨_, by rw [hstamp]; exact hwritten⟩
      · rw [lastWritten_snoc, untouched_snoc]
        rintro p ⟨⟩
        exact ⟨rfl, rfl⟩
      · rw [lastAccepted_snoc]
        exact haccounts.tracks
      · rw [lastAccepted_snoc]
        intro r hr
        rw [hstamp]
        exact Nat.lt_of_le_of_lt (haccounts.accepted_le r hr) hlt
      · rw [lastWritten_snoc]
    · simp only [hdurable]
      exact hrefused _

theorem good_remember (h : Inv W key slot history)
    (hat : At W slot history (.remember session wrapped))
    (hwaiting : ∀ q ∈ waiting, ∃ c, q = .start c) :
    Good W key history (slot.proceed W key g waiting (.remember session wrapped)) := by
  obtain ⟨htracks, haccepted, hlast⟩ := hat
  obtain ⟨m, hm⟩ := (h.own (session, wrapped) hlast).accepted htracks
    fun r hr => .inl (haccepted r hr)
  have haccept : acceptRow W slot.watermark wrapped = .ok m := hm
  simp only [Slot.proceed, haccept]
  refine ⟨h.sound.snoc trivial, ?_, ?_, ⟨?_, (session, wrapped), ?_, rfl, ?_⟩, hwaiting⟩
  · rw [lastWritten_snoc]
    exact h.own
  · rw [lastWritten_snoc, untouched_snoc]
    exact h.stored
  · rw [lastAccepted_snoc]
    exact (acceptRow_eq_ok haccept).1
  · rw [lastWritten_snoc]
    exact hlast
  · rw [lastAccepted_snoc]

theorem good_mark (h : Inv W key slot history) (hat : At W slot history (.mark updatedAt))
    (hwaiting : ∀ q ∈ waiting, ∃ c, q = .start c) :
    Good W key history (slot.proceed W key g waiting (.mark updatedAt)) := by
  obtain ⟨htracks, p, hlast, rfl, haccepted⟩ := hat
  simp only [Slot.proceed]
  refine h.silent rfl (Accounts.running ⟨htracks, ?_, ?_, ?_⟩ hwaiting)
  · intro r hr
    rw [haccepted] at hr
    cases hr
    exact Nat.le_refl _
  · intro q hq
    rw [hlast] at hq
    cases hq
    exact Nat.le_refl _
  · intro q hq
    have hsame := (h.stored q hq).2
    rw [hlast] at hsame
    cases hsame
    exact haccepted

theorem good_start_delete (h : Inv W key slot history)
    (hat : At W slot history (.start (.delete edge))) (hwaiting : ∀ q ∈ waiting, ∃ c, q = .start c) :
    Good W key history (slot.proceed W key g waiting (.start (.delete edge))) := by
  simp only [Slot.proceed]
  by_cases hdurable : g.durable = true
  · simp only [hdurable, if_true]
    refine ⟨h.sound.snoc trivial, ?_, ?_, ⟨?_, ?_, ?_⟩, hwaiting⟩
    · rw [lastWritten_snoc]
      rintro p ⟨⟩
    · rw [untouched_snoc]
      rintro p ⟨⟩
    · rw [lastWritten_snoc]
    · rw [lastAccepted_snoc]
    · rw [untouched_snoc]
  · simp only [hdurable]
    exact h.silent rfl (Accounts.running hat hwaiting)

theorem good_forget (h : Inv W key slot history) (hat : At W slot history .forget)
    (hwaiting : ∀ q ∈ waiting, ∃ c, q = .start c) :
    Good W key history (slot.proceed W key g waiting .forget) := by
  obtain ⟨hwritten, haccepted, huntouched⟩ := hat
  simp only [Slot.proceed]
  refine h.silent rfl (Accounts.running ⟨?_, ?_, ?_, ?_⟩ hwaiting)
  · rw [haccepted]
    trivial
  · rw [haccepted]
    rintro r ⟨⟩
  · rw [hwritten]
    rintro p ⟨⟩
  · rw [huntouched]
    rintro p ⟨⟩

/-- A change by another context leaves every call where it stands. -/
theorem At.replaced {newRow : Option RatchetSession} {phase : Phase} (h : At W slot history phase) :
    At W { slot with row := newRow } (history ++ [.replaced]) phase := by
  have hw := lastWritten_snoc history .replaced
  have ha := lastAccepted_snoc history .replaced
  have hu : untouched (history ++ [.replaced]) = none := untouched_snoc history .replaced
  have haccounts : ∀ {watermark : Option Watermark} {lastWrite : Option Nat},
      Accounts W watermark lastWrite history →
        Accounts W watermark lastWrite (history ++ [.replaced]) := by
    intro watermark lastWrite h
    refine h.snoc hw ha fun p hp => ?_
    rw [hu] at hp
    cases hp
  cases phase with
  | start c => exact haccounts h
  | put session updatedAt => exact ⟨haccounts h.1, h.2⟩
  | remember session wrapped =>
    show Tracks W _ (lastAccepted (history ++ [.replaced])) ∧ _
    rw [ha, hw]
    exact h
  | mark updatedAt =>
    show Tracks W _ (lastAccepted (history ++ [.replaced])) ∧ _
    rw [ha, hw]
    exact h
  | authenticate stored =>
    refine ⟨haccounts h.1, fun p hp => ?_⟩
    rw [hu] at hp
    cases hp
  | note updatedAt => exact haccounts h
  | forget => exact ⟨hw.trans h.1, ha.trans h.2.1, hu⟩

theorem Running.replaced {newRow : Option RatchetSession} {phases : List Phase}
    (h : Running W slot history phases) :
    Running W { slot with row := newRow } (history ++ [.replaced]) phases := by
  cases phases with
  | nil => exact @At.replaced W slot history newRow (.start (.get ([], []))) h
  | cons phase waiting => exact ⟨At.replaced h.1, h.2⟩

theorem good_replace (h : Inv W key slot history) (newRow : Option RatchetSession) :
    Good W key history ({ slot with row := newRow }, [.replaced]) := by
  refine ⟨h.sound.snoc trivial, ?_, ?_, h.running.replaced⟩
  · rw [lastWritten_snoc]
    exact h.own
  · rw [untouched_snoc]
    rintro p ⟨⟩

/-- **A step of an edge keeps the invariant.** -/
theorem Inv.take (hW : WebCrypto.GcmLaws W) (h : Inv W key slot history) (event : Event) :
    Good W key history (slot.take W key event) := by
  have hrunning := h.running
  cases event with
  | call c =>
    refine h.silent rfl ?_
    show Running W slot history (slot.calls ++ [.start c])
    revert hrunning
    cases slot.calls with
    | nil =>
      intro hrunning
      exact ⟨hrunning, fun q hq => absurd hq List.not_mem_nil⟩
    | cons phase waiting =>
      rintro ⟨hat, hwaiting⟩
      refine ⟨hat, fun q hq => ?_⟩
      rcases List.mem_append.mp hq with hq | hq
      · exact hwaiting q hq
      · exact ⟨c, List.mem_singleton.mp hq⟩
  | advance edge g =>
    simp only [Slot.take, Slot.advance]
    cases hcalls : slot.calls with
    | nil => exact h.silent rfl h.running
    | cons phase waiting =>
      rw [hcalls] at hrunning
      obtain ⟨hat, hwaiting⟩ := hrunning
      cases phase with
      | start c =>
        cases c with
        | get edge => exact good_start_get h hat hwaiting
        | set session => exact good_start_set h hat hwaiting
        | delete edge => exact good_start_delete h hat hwaiting
      | put session updatedAt => exact good_put h hat hwaiting
      | remember session wrapped => exact good_remember h hat hwaiting
      | mark updatedAt => exact good_mark h hat hwaiting
      | authenticate stored => exact good_authenticate hW h hat hwaiting
      | note updatedAt => exact good_note h hat hwaiting
      | forget => exact good_forget h hat hwaiting
  | replace edge row => exact good_replace h row

/-! ## The worker -/

theorem history_own (edge : Edge) (entries : List Entry) :
    ((entries.map fun e => (edge, e)).filter fun e => e.1 = edge).map Prod.snd = entries := by
  induction entries with
  | nil => rfl
  | cons e entries ih => simpa using ih

theorem history_other {edge edge' : Edge} (h : edge ≠ edge') (entries : List Entry) :
    ((entries.map fun e => (edge', e)).filter fun e => e.1 = edge).map Prod.snd = [] := by
  induction entries with
  | nil => rfl
  | cons e entries ih => simp [Ne.symm h]

/-- A step does to its own edge what the event does there. -/
theorem Worker.step_own (event : Event) (w : Worker) :
    ((w.step W key event).slot event.edge, (w.step W key event).history event.edge) =
      (((w.slot event.edge).take W key event).1,
        w.history event.edge ++ ((w.slot event.edge).take W key event).2) := by
  refine Prod.ext ?_ ?_
  · simp only [Worker.step, Worker.keep, Worker.slot, Function.update_self]
  · simp only [Worker.step, Worker.keep, Worker.history, List.filter_append, List.map_append,
      history_own]

/-- A step leaves the other edges as they are, since one key names one edge. -/
theorem Worker.step_other {event : Event} {edge : Edge} (h : edge ≠ event.edge) (w : Worker) :
    (w.step W key event).slot edge = w.slot edge ∧
      (w.step W key event).history edge = w.history edge := by
  have hkey : ratchetWorkerKey edge.1 edge.2 ≠ ratchetWorkerKey event.edge.1 event.edge.2 := by
    intro heq
    obtain ⟨hroom, hpeer⟩ := ratchetWorkerKey_inj heq
    exact h (Prod.ext hroom hpeer)
  constructor
  · simp only [Worker.step, Worker.keep, Worker.slot, Function.update_of_ne h,
      Function.update_of_ne hkey]
  · simp only [Worker.step, Worker.keep, Worker.history, List.filter_append, List.map_append,
      history_other h, List.append_nil]

/-- The invariant of every edge. -/
def Worker.Ok (W : WebCrypto) (key : Bytes) (w : Worker) : Prop :=
  ∀ edge, Inv W key (w.slot edge) (w.history edge)

theorem Worker.ok_start (rows : Edge → Option RatchetSession) : (Worker.start rows).Ok W key := by
  intro edge
  refine ⟨Sound.nil, ?_, ?_, ⟨trivial, ?_, ?_, ?_⟩⟩ <;> rintro p ⟨⟩

/-- **A step of the worker keeps the invariant.** -/
theorem Worker.Ok.step (hW : WebCrypto.GcmLaws W) {w : Worker} (h : w.Ok W key) (event : Event) :
    (w.step W key event).Ok W key := by
  intro edge
  by_cases hedge : edge = event.edge
  · subst hedge
    obtain ⟨hslot, hhistory⟩ := Prod.mk.inj (Worker.step_own event w)
    rw [hslot, hhistory]
    exact (h event.edge).take hW event
  · obtain ⟨hslot, hhistory⟩ := Worker.step_other hedge w
    rw [hslot, hhistory]
    exact h edge

theorem Worker.Ok.runs (hW : WebCrypto.GcmLaws W) {w : Worker} (h : w.Ok W key)
    (events : List Event) : (Base.runs (Worker.step W key) events w).Ok W key := by
  induction events generalizing w with
  | nil => exact h
  | cons event events ih => exact ih (h.step hW event)

/-- **The worker's rows.** In every run of calls on any edges, with any clock and with failing
writes, and also when other contexts change the stored rows:

- the stamps of the rows an edge is given increase from one to the next until it is deleted;
- a get that follows a set on the edge, with nothing done to the row since, finds the row and
  returns the session that was set, under its new stamp;
- the guard refuses neither the row a set has just written nor, when a get has read it, the row
  this worker wrote last, unless it has accepted another row since;
- a get returns no row that is older than the last accepted one, or another one with its stamp,
  unless SHA-256 collides on the two. -/
theorem ratchet_rows (hW : WebCrypto.GcmLaws W) (rows : Edge → Option RatchetSession)
    (events : List Event) (edge : Edge) (before after : List Entry) (entry : Entry)
    (h : (Base.runs (Worker.step W key) events (Worker.start rows)).history edge =
      before ++ entry :: after) :
    (∀ session row, entry = .wrote session row →
      ∀ p ∈ lastWritten before, p.2.updatedAt < row.updatedAt) ∧
    (∀ p ∈ untouched before, entry ≠ .missing ∧ (∀ row e, entry ≠ .rejected row e) ∧
      ∀ row restored, entry = .returned row restored →
        row = p.2 ∧ restored = { p.1 with updatedAt := row.updatedAt }) ∧
    (∀ row e, entry ≠ .unremembered row e) ∧
    (∀ row e, entry = .rejected row e →
      ∀ p ∈ lastWritten before, p.2 = row → lastAccepted before ≠ some row) ∧
    ∀ row restored, entry = .returned row restored → ∀ r ∈ lastAccepted before,
      r.updatedAt ≤ row.updatedAt ∧ (r.updatedAt = row.updatedAt → r = row ∨
        ∃ recordId recordId', W.Collide (digested r recordId) (digested row recordId')) := by
  have hallowed := (((Worker.ok_start rows).runs hW events) edge).sound before entry after h
  refine ⟨?_, ?_, ?_, ?_, ?_⟩
  · rintro session row rfl
    exact hallowed
  · intro p hp
    refine ⟨?_, ?_, ?_⟩
    · rintro rfl
      cases (show untouched before = none from hallowed).symm.trans hp
    · rintro row e rfl
      cases hallowed.1.symm.trans hp
    · rintro row restored rfl
      exact hallowed.1 p hp
  · rintro row e rfl
    exact hallowed
  · rintro row e rfl
    exact hallowed.2
  · rintro row restored rfl
    exact hallowed.2

/-- Two sets, the second with the clock set back, and a get. -/
def sampleEvents : List Event :=
  [.call (.set sampleRow), .call (.set sampleRow), .call (.get sampleRow.edge)] ++
    List.replicate 4 (.advance sampleRow.edge ⟨100, sampleDraws 0, true⟩) ++
    List.replicate 4 (.advance sampleRow.edge ⟨50, sampleDraws 1, true⟩) ++
    List.replicate 2 (.advance sampleRow.edge ⟨50, sampleDraws 1, true⟩)

/-- The row of such a set. -/
def sampleStamped (updatedAt : Nat) (b : UInt8) : RatchetSession :=
  (wrapRatchetSession .transparent { sampleRow with updatedAt } [] (sampleDraws b)).toOption.getD
    sampleRow

/-- What the run has done. -/
def sampleHistory : List Entry :=
  [.wrote sampleRow (sampleStamped 100 0), .saved sampleRow (sampleStamped 100 0),
    .wrote sampleRow (sampleStamped 101 1), .saved sampleRow (sampleStamped 101 1),
    .returned (sampleStamped 101 1) { sampleRow with updatedAt := 101 }]

theorem sampleHistory_eq : (Base.runs (Worker.step .transparent []) sampleEvents
    (Worker.start fun _ => none)).history sampleRow.edge = sampleHistory := by decide +kernel

/-- In that run the second row has the higher stamp, and the get returns what the second set was
given. -/
theorem ratchet_rows_sample :
    (sampleStamped 100 0).updatedAt < (sampleStamped 101 1).updatedAt ∧
      { sampleRow with updatedAt := 101 } =
        { sampleRow with updatedAt := (sampleStamped 101 1).updatedAt } := by
  obtain ⟨hstamps, -⟩ := ratchet_rows WebCrypto.transparent_gcmLaws (fun _ => none) sampleEvents
    sampleRow.edge (sampleHistory.take 2) (sampleHistory.drop 3) (sampleHistory.get ⟨2, by decide⟩)
    (sampleHistory_eq.trans rfl)
  obtain ⟨-, hget, -⟩ := ratchet_rows WebCrypto.transparent_gcmLaws (fun _ => none) sampleEvents
    sampleRow.edge (sampleHistory.take 4) (sampleHistory.drop 5) (sampleHistory.get ⟨4, by decide⟩)
    (sampleHistory_eq.trans rfl)
  exact ⟨hstamps _ _ rfl (sampleRow, sampleStamped 100 0) rfl,
    ((hget (sampleRow, sampleStamped 101 1) rfl).2.2 _ _ rfl).2⟩

end RatchetWrap

end P2Party
