import P2Party.Base.Exec
import P2Party.Base.HexUnits
import P2Party.Base.OrdMap
import P2Party.Base.Runs
import P2Party.Cryptography.LibCrypto

/-!
# Throttling of PIN attempts (`roomPinAttempts.ts`, `db.worker.ts:1904-2027`)

A wrong PIN is counted twice: in a window of the room, in memory, and in a row of the identity that
sent it, in the database. An attempt looks at both before its handshake starts; what it looks at may
be old when it fails, since attempts run side by side and the worker answers later.

- `pinBackoffMs`, `currentRoomFailures`: the two bounds;
- `pinAttemptMetaId`, `pinAttemptMetaId_inj`, `not_prefix_metaId`: the rows of the database;
- `Event`, `step`: attempts, the worker, and what clears the counts.
-/

namespace P2Party

open Base

namespace PinAttempts

/-! ## The window of a room -/

abbrev MAX_PIN_ATTEMPTS : Nat := 3
abbrev PIN_BACKOFF_BASE_MS : Nat := 500
abbrev PIN_BACKOFF_MAX_MS : Nat := 5 * 60000
abbrev ROOM_PIN_FAILURE_WINDOW_MS : Nat := 5 * 60000
abbrev MAX_ROOM_PIN_FAILURES_PER_WINDOW : Nat := 30

/-- `roomFailureWindows`: the times of the failures of a room. -/
abbrev Windows := OrdMap JsString (List Nat)

/-- The times after `now - ROOM_PIN_FAILURE_WINDOW_MS`. -/
def inWindow (now : Nat) (times : List Nat) : List Nat :=
  times.filter fun timestamp => now < timestamp + ROOM_PIN_FAILURE_WINDOW_MS

/-- `currentRoomFailures` (roomPinAttempts.ts:15-23). -/
def currentRoomFailures (roomId : JsString) (now : Nat) (windows : Windows) : List Nat × Windows :=
  let current := inWindow now ((windows.get roomId).getD [])
  (current, if current.length = 0 then windows.delete roomId else windows.set roomId current)

/-- `recordRoomPinAggregateFailure` (roomPinAttempts.ts:38-45). -/
def recordRoomPinAggregateFailure (roomId : JsString) (now : Nat) (windows : Windows) : Windows :=
  let (failures, windows) := currentRoomFailures roomId now windows
  windows.set roomId (failures ++ [now])

/-- `pinBackoffMs` (roomPinAttempts.ts:51-57). -/
def pinBackoffMs (failures : Nat) : Nat :=
  if failures < MAX_PIN_ATTEMPTS then 0
  else min (PIN_BACKOFF_BASE_MS * 2 ^ (failures - MAX_PIN_ATTEMPTS)) PIN_BACKOFF_MAX_MS

/-! ## The rows of the identities -/

/-- `PinAttemptState` (types.ts:235). -/
structure PinAttemptState where
  failures : Nat
  retryAfter : Nat
deriving DecidableEq

/-- The rows of the store `meta` that count attempts. -/
abbrev Meta := OrdMap JsString PinAttemptState

/-- The character `:`. -/
abbrev colon : UInt16 := 0x3a

/-- `PIN_ATTEMPT_META_PREFIX`. -/
def PIN_ATTEMPT_META_PREFIX : JsString := JsString.ofString "pinAttempts:v2:"

/-- `pinAttemptRoomMetaPrefix` (db.worker.ts:1922-1923). -/
def pinAttemptRoomMetaPrefix (roomId : JsString) : JsString :=
  PIN_ATTEMPT_META_PREFIX ++ (JsString.decimal roomId.length ++ colon :: (roomId ++ [colon]))

/-- `pinAttemptMetaId` (db.worker.ts:1925-1929). -/
def pinAttemptMetaId (roomId peerIdentityEd25519 : JsString) : JsString :=
  pinAttemptRoomMetaPrefix roomId ++ peerIdentityEd25519

/-- `assertPinAttemptScope` (db.worker.ts:1907-1917). -/
def assertPinAttemptScope (roomId : JsString) (peerIdentityEd25519 : Option JsString) : Except JsError Unit := do
  demand (roomId ≠ []) (.error "PIN attempt room ID must not be empty")
  demand (∀ id ∈ peerIdentityEd25519, id.length = 64 ∧ id.all isLowerHexUnit = true)
    (.error "PIN attempt peer identity must be 32-byte lowercase hexadecimal")

/-- `fnGetPinAttemptState` (db.worker.ts:1932-1948). -/
def fnGetPinAttemptState (roomId peerIdentityEd25519 : JsString) (rows : Meta) :
    Except JsError (Option PinAttemptState) := do
  assertPinAttemptScope roomId (some peerIdentityEd25519)
  return rows.get (pinAttemptMetaId roomId peerIdentityEd25519)

/-- What a failure writes (db.worker.ts:1979-1989). -/
def nextPinAttemptState (current : Option PinAttemptState) (now maxImmediateAttempts baseMs maxMs : Nat) :
    PinAttemptState :=
  let failures := ((current.map (·.failures)).getD 0) + 1
  let delay :=
    if failures < maxImmediateAttempts then 0 else min (baseMs * 2 ^ (failures - maxImmediateAttempts)) maxMs
  ⟨failures, now + delay⟩

/-- `fnIncrementPinAttemptState` (db.worker.ts:1950-1995): one transaction. -/
def fnIncrementPinAttemptState (roomId peerIdentityEd25519 : JsString)
    (now maxImmediateAttempts baseMs maxMs : Nat) (rows : Meta) : Except JsError PinAttemptState × Meta :=
  match (do
    assertPinAttemptScope roomId (some peerIdentityEd25519)
    demand (now ≤ MAX_SAFE_INTEGER ∧ maxImmediateAttempts ≤ MAX_SAFE_INTEGER ∧ baseMs ≤ MAX_SAFE_INTEGER ∧
        maxMs ≤ MAX_SAFE_INTEGER ∧ 1 ≤ maxImmediateAttempts ∧ 1 ≤ baseMs ∧ baseMs ≤ maxMs)
      (.error "Invalid PIN backoff parameters")) with
  | .error e => (.error e, rows)
  | .ok _ =>
    let key := pinAttemptMetaId roomId peerIdentityEd25519
    let next := nextPinAttemptState (rows.get key) now maxImmediateAttempts baseMs maxMs
    (.ok next, rows.set key next)

/-- `fnDeletePinAttemptState` (db.worker.ts:1997-2027): the row of an identity, or the rows of a room with
the one an older version has left. -/
def fnDeletePinAttemptState (roomId : JsString) (peerIdentityEd25519 : Option JsString) (rows : Meta) :
    Except JsError Unit × Meta :=
  match assertPinAttemptScope roomId peerIdentityEd25519 with
  | .error e => (.error e, rows)
  | .ok _ =>
    match peerIdentityEd25519 with
    | some id => (.ok (), rows.delete (pinAttemptMetaId roomId id))
    | none =>
      let keys := rows.keys.filter fun key => (pinAttemptRoomMetaPrefix roomId).isPrefixOf key
      (.ok (), (keys.foldl (fun rows key => rows.delete key) rows).delete (JsString.ofString "pinAttempts:" ++ roomId))

/-- The rooms and what follows them are told by the length in front. -/
theorem roomMetaPrefix_append_inj {roomId roomId' rest rest' : JsString}
    (h : pinAttemptRoomMetaPrefix roomId ++ rest = pinAttemptRoomMetaPrefix roomId' ++ rest') :
    roomId = roomId' ∧ rest = rest' := by
  simp only [pinAttemptRoomMetaPrefix, List.append_assoc, List.cons_append, List.append_cancel_left_eq] at h
  obtain ⟨hlength, h⟩ := append_sep_inj (JsString.colon_notMem_decimal _) (JsString.colon_notMem_decimal _) h
  obtain ⟨hroom, h⟩ := List.append_inj h (JsString.decimal_injective hlength)
  exact ⟨hroom, List.cons.inj h |>.2⟩

theorem pinAttemptMetaId_inj {roomId roomId' id id' : JsString}
    (h : pinAttemptMetaId roomId id = pinAttemptMetaId roomId' id') : roomId = roomId' ∧ id = id' :=
  roomMetaPrefix_append_inj h

/-- No room's prefix is one of another room's rows. -/
theorem not_prefix_metaId {roomId roomId' id : JsString} (h : roomId' ≠ roomId) :
    (pinAttemptRoomMetaPrefix roomId').isPrefixOf (pinAttemptMetaId roomId id) = false := by
  rw [Bool.eq_false_iff]
  intro hprefix
  obtain ⟨rest, hrest⟩ := List.isPrefixOf_iff_prefix.mp hprefix
  exact h (roomMetaPrefix_append_inj hrest).1

/-! ## Attempts -/

/-- How a handshake ends (handleOpenChannel.ts:775-883): a failure that is not one of the key confirmation
is not counted. -/
inductive Outcome
  | authenticated
  | keyConfirmationFailed
  | failed
deriving DecidableEq

/-- Where an attempt is: `assertPinAttemptAllowed` waits for the row; the handshake runs; `recordPinFailure`
or `clearPinAttempts` waits for the worker. -/
inductive Phase
  | reading (now : Nat)
  | running
  | recording (now : Nat)
  | clearing
deriving DecidableEq

/-- An attempt of a peer in a PIN room. -/
structure Attempt where
  roomId : JsString
  peerIdentityEd25519 : JsString
  phase : Phase
deriving DecidableEq

/-- The tab and its database. -/
structure State where
  windows : Windows
  rows : Meta
  attempts : List Attempt
  clock : Nat

/-- Nothing is counted yet. -/
def State.start : State := ⟨OrdMap.empty, OrdMap.empty, [], 0⟩

/-- What happens; `done` says whether the worker does it. -/
inductive Event
  /-- A main channel opens. -/
  | begin (roomId peerIdentityEd25519 : JsString) (now : Nat)
  /-- The row of an attempt is read. -/
  | read (k : Nat) (done : Bool)
  /-- The handshake of an attempt ends. -/
  | finish (k : Nat) (outcome : Outcome) (now : Nat)
  /-- The worker counts the failure of an attempt, or drops the row of a success. -/
  | write (k : Nat) (done : Bool)
  /-- `clearPinAttempts` for a room is called, and reaches the worker. -/
  | clearRoom (roomId : JsString)
  | clearRows (roomId : JsString) (done : Bool)
  /-- The page is loaded again. -/
  | reload

/-- The attempt at a position goes on. -/
def State.advance (s : State) (k : Nat) (a : Attempt) (phase : Phase) : State :=
  { s with attempts := s.attempts.set k { a with phase } }

/-- The attempt at a position is over. -/
def State.leave (s : State) (k : Nat) : State := { s with attempts := s.attempts.eraseIdx k }

/-- What an event does to the rows. -/
def writeRows (a : Attempt) (rows : Meta) : Meta :=
  match a.phase with
  | .recording now =>
    (fnIncrementPinAttemptState a.roomId a.peerIdentityEd25519 now MAX_PIN_ATTEMPTS PIN_BACKOFF_BASE_MS
      PIN_BACKOFF_MAX_MS rows).2
  | .clearing => (fnDeletePinAttemptState a.roomId (some a.peerIdentityEd25519) rows).2
  | _ => rows

/-- Whether `assertPinAttemptAllowed` lets an attempt go on with the row it has read. -/
def rowAllows (a : Attempt) (now : Nat) (rows : Meta) : Bool :=
  match fnGetPinAttemptState a.roomId a.peerIdentityEd25519 rows with
  | .ok (some row) => decide (row.retryAfter ≤ now)
  | .ok none => true
  | .error _ => false

/-- One event. -/
def step : Event → State → State
  | .begin roomId peerIdentityEd25519 now, s =>
    let (failures, windows) := currentRoomFailures roomId now s.windows
    { s with
      windows
      attempts :=
        if failures.length < MAX_ROOM_PIN_FAILURES_PER_WINDOW then
          s.attempts ++ [⟨roomId, peerIdentityEd25519, .reading now⟩]
        else s.attempts
      clock := now }
  | .read k done, s =>
    match s.attempts[k]? with
    | some a =>
      match a.phase with
      | .reading now => if done = true ∧ rowAllows a now s.rows = true then s.advance k a .running else s.leave k
      | _ => s
    | none => s
  | .finish k outcome now, s =>
    match s.attempts[k]? with
    | some a =>
      if a.phase = .running then
        match outcome with
        | .authenticated => { s.advance k a .clearing with clock := now }
        | .keyConfirmationFailed =>
          { s.advance k a (.recording now) with
            windows := recordRoomPinAggregateFailure a.roomId now s.windows
            clock := now }
        | .failed => { s.leave k with clock := now }
      else s
    | none => s
  | .write k done, s =>
    match s.attempts[k]? with
    | some a =>
      match a.phase with
      | .recording _ | .clearing => { s.leave k with rows := if done then writeRows a s.rows else s.rows }
      | _ => s
    | none => s
  | .clearRoom roomId, s => { s with windows := s.windows.delete roomId }
  | .clearRows roomId done, s => { s with rows := if done then (fnDeletePinAttemptState roomId none s.rows).2 else s.rows }
  | .reload, s => { s with windows := OrdMap.empty, attempts := [] }

end PinAttempts

end P2Party
