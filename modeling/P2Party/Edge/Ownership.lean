import Mathlib.Data.List.Basic
import P2Party.Base.Exec

/-!
# Who may write the row of an edge

The persistence of one room and peer identity (ratchetPersist.ts): connections claim the
edge, and their calls wait in one queue for the lock under which the row is written. The
worker that writes runs its jobs in the order they were posted, also those whose answer
nobody waits for any more.

- `Persistence`, `Event`, `step`, `runAll`: every interleaving of claims, calls and answers;
- `Fenced`: the order of ownership carries over to the row;
- `edge_ownership`: who writes, who is refused, and what a failed activation leaves.
-/

namespace P2Party

open Base

namespace Edge

/-! ## Calls and jobs -/

/-- A connection (`IRTCPeerConnection`); its token is its identity. -/
abbrev Connection := Nat

/-- What runs under the lock of the edge: `persistAndActivateClaimedRatchetState`,
`persistClaimedRatchetState`, or the write of `mutateRatchetDurably`. -/
inductive Operation
  | activation
  | claimed
  | mutation
deriving DecidableEq

/-- Why a call fails. -/
inductive Failure
  | staleOwner
  | liveStateChanged
  | serializer
  | worker
  | activation
  | rollback (cause : Failure)
deriving DecidableEq

/-- Where a call is: it waits for the lock, for the answer to its write or to its
rollback, or it has the answer. -/
inductive Phase
  | queued
  | writing (message : Nat)
  | written (resolved : Bool)
  | erasing (message : Nat) (cause : Failure)
  | erased (resolved : Bool) (cause : Failure)
deriving DecidableEq

/-- A call that has not settled. -/
structure Call where
  connection : Connection
  operation : Operation
  phase : Phase
deriving DecidableEq

/-- What is posted to the worker. -/
inductive Work
  | setRatchetSession
  | deleteRatchetSession
deriving DecidableEq

/-- A message in the worker's queue. -/
structure Job where
  message : Nat
  connection : Connection
  work : Work
deriving DecidableEq

/-- What has happened on the edge. -/
inductive Entry
  | posted (connection : Connection)
  | touched (connection : Connection) (work : Work)
  | settled (call : Call) (result : Except Failure Unit) (row : Option Connection)

/-- The edge: `edgeOwnerTokens`, `epcOwnerTokens` in the order of the claims, the queue of
`edgePersistenceTails` whose head has the lock, the worker's queue, the next `msgId`, and
the row with the connection whose state it holds. -/
structure Persistence where
  owner : Option Connection
  claims : List Connection
  queue : List Call
  jobs : List Job
  messages : Nat
  row : Option Connection
  history : List Entry

/-- Nothing claimed and nothing stored. -/
def Persistence.initial : Persistence := ⟨none, [], [], [], 0, none, []⟩

/-! ## The worker -/

/-- Where a job of the worker throws: before the row changes, after it, or nowhere. -/
inductive Fault
  | none
  | before
  | after
deriving DecidableEq

/-- `fnSetRatchetSession` (db.worker.ts:1850-1886): the row after it, and whether its
promise resolves. -/
def fnSetRatchetSession (fault : Fault) (connection : Connection) (row : Option Connection) :
    Option Connection × Bool :=
  match fault with
  | .none => (some connection, true)
  | .before => (row, false)
  | .after => (some connection, false)

/-- `fnDeleteRatchetSession` (db.worker.ts:1888-1902), which catches what it throws. -/
def fnDeleteRatchetSession (fault : Fault) (row : Option Connection) :
    Option Connection × Bool :=
  match fault with
  | .none => (none, true)
  | .before => (row, true)
  | .after => (none, true)

/-! ## The edge's code -/

namespace Persistence

/-- `claimRatchetPersistence` (ratchetPersist.ts:70-86). -/
def claimRatchetPersistence (connection : Connection) (s : Persistence) : Except Failure Persistence :=
  if connection ∈ s.claims then
    if s.owner ≠ some connection then .error .staleOwner else .ok s
  else .ok { s with owner := some connection, claims := s.claims ++ [connection] }

/-- Post a message of the head's connection and let it wait. -/
def post (s : Persistence) (call : Call) (rest : List Call) (work : Work) (waiting : Nat → Phase) : Persistence :=
  { s with
    queue := { call with phase := waiting s.messages } :: rest
    jobs := s.jobs ++ [⟨s.messages, call.connection, work⟩]
    messages := s.messages + 1
    history := s.history ++ if work = .setRatchetSession then [.posted call.connection] else [] }

/-- The head leaves the queue. -/
def settle (s : Persistence) (call : Call) (rest : List Call) (result : Except Failure Unit) : Persistence :=
  { s with queue := rest, history := s.history ++ [.settled call result s.row] }

/-- The head has the lock (ratchetPersist.ts:162-170, 207-222, 322-341): the checks before
the write. The live handle is compared in `mutateRatchetDurably` only. -/
def begin (s : Persistence) (call : Call) (rest : List Call) (liveChanged serializes : Bool) : Persistence :=
  if s.owner ≠ some call.connection then s.settle call rest (.error .staleOwner)
  else if call.operation = .mutation ∧ liveChanged = true then
    s.settle call rest (.error .liveStateChanged)
  else if serializes = false then s.settle call rest (.error .serializer)
  else s.post call rest .setRatchetSession .writing

/-- What `activate` and the checks after a write give (ratchetPersist.ts:178, 223-227, 343). -/
def checkWritten (s : Persistence) (call : Call) (resolved activates : Bool) : Except Failure Unit :=
  if resolved = false then .error .worker
  else if s.owner ≠ some call.connection then .error .staleOwner
  else if call.operation = .activation ∧ activates = false then .error .activation
  else .ok ()

/-- The head goes on after its write: an activation that fails posts the rollback
(ratchetPersist.ts:228-231). -/
def afterWrite (s : Persistence) (call : Call) (rest : List Call) (resolved activates : Bool) : Persistence :=
  match s.checkWritten call resolved activates, call.operation with
  | .error cause, .activation => s.post call rest .deleteRatchetSession (.erasing · cause)
  | result, _ => s.settle call rest result

/-- The head goes on after its rollback (ratchetPersist.ts:232-239). -/
def afterErase (s : Persistence) (call : Call) (rest : List Call) (resolved : Bool) (cause : Failure) :
    Persistence :=
  s.settle call rest (.error (if resolved then cause else .rollback cause))

/-- The answer to a message reaches the call that waits for it. -/
def answer (message : Nat) (resolved : Bool) : List Call → List Call
  | [] => []
  | call :: rest =>
    match call.phase with
    | .writing waiting =>
      if waiting = message then { call with phase := .written resolved } :: rest else call :: rest
    | .erasing waiting cause =>
      if waiting = message then { call with phase := .erased resolved cause } :: rest
      else call :: rest
    | _ => call :: rest

/-- The worker runs its next job. -/
def runJob (s : Persistence) (fault : Fault) : Persistence :=
  match s.jobs with
  | [] => s
  | job :: rest =>
    let (row, resolved) := match job.work with
      | .setRatchetSession => fnSetRatchetSession fault job.connection s.row
      | .deleteRatchetSession => fnDeleteRatchetSession fault s.row
    { s with
      jobs := rest
      row
      queue := answer job.message resolved s.queue
      history := s.history ++ [.touched job.connection job.work] }

/-- `rejectAllPending` (db/api.ts:46-50). -/
def rejectAllPending (s : Persistence) : Persistence :=
  match s.queue with
  | [] => s
  | call :: rest =>
    match call.phase with
    | .writing _ => { s with queue := { call with phase := .written false } :: rest }
    | .erasing _ cause => { s with queue := { call with phase := .erased false cause } :: rest }
    | _ => s

/-- The head of the queue runs until it waits again. -/
def resume (s : Persistence) (liveChanged serializes activates : Bool) : Persistence :=
  match s.queue with
  | [] => s
  | call :: rest =>
    match call.phase with
    | .queued => s.begin call rest liveChanged serializes
    | .written resolved => s.afterWrite call rest resolved activates
    | .erased resolved cause => s.afterErase call rest resolved cause
    | _ => s

end Persistence

/-! ## Runs -/

/-- What happens next: a claim, a call, the head of the queue runs (with what it finds),
the worker runs a job, or the worker fails and its answers are given up. -/
inductive Event
  | claim (connection : Connection)
  | call (connection : Connection) (operation : Operation)
  | resume (liveChanged serializes activates : Bool)
  | job (fault : Fault)
  | workerError

/-- One event. -/
def step (event : Event) (s : Persistence) : Persistence :=
  match event with
  | .claim connection =>
    match s.claimRatchetPersistence connection with
    | .ok s' => s'
    | .error _ => s
  | .call connection operation => { s with queue := s.queue ++ [⟨connection, operation, .queued⟩] }
  | .resume liveChanged serializes activates => s.resume liveChanged serializes activates
  | .job fault => s.runJob fault
  | .workerError => s.rejectAllPending

/-- A run. -/
def runAll (events : List Event) (s : Persistence) : Persistence := events.foldl (fun s event => step event s) s

/-- A run every event of which satisfies a condition in the state it meets. -/
def Throughout (p : Event → Persistence → Prop) : List Event → Persistence → Prop
  | [], _ => True
  | event :: events, s => p event s ∧ Throughout p events (step event s)

/-! ## The order of ownership -/

/-- The connection a change of the row comes from. -/
def Entry.touch? : Entry → Option Connection
  | .touched connection _ => some connection
  | _ => none

namespace Persistence

/-- The connections that changed the row, and those that will once the worker gets to it. -/
def touches (s : Persistence) : List Connection :=
  s.history.filterMap Entry.touch? ++ s.jobs.map Job.connection

/-- Whoever touches the row has claimed the edge no earlier than those before it. -/
def InOrder (s : Persistence) : Prop :=
  (s.history.filterMap Entry.touch?).Pairwise (fun c d => s.claims.idxOf c ≤ s.claims.idxOf d) ∧
    ∀ c ∈ s.history.filterMap Entry.touch?, c ∈ s.claims

/-- The order of the claims carries over to the row: only the head of the queue is past
the lock, and neither the row nor a job in the worker is from a later owner than it. -/
structure Fenced (s : Persistence) : Prop where
  distinct : s.claims.Nodup
  owner : s.owner = s.claims.getLast?
  waiting : ∀ call ∈ s.queue.tail, call.phase = .queued
  ordered : s.touches.Pairwise fun c d => s.claims.idxOf c ≤ s.claims.idxOf d
  known : ∀ c ∈ s.touches, c ∈ s.claims
  head : ∀ call ∈ s.queue.head?, call.phase ≠ .queued → call.connection ∈ s.claims ∧
    ∀ c ∈ s.touches, s.claims.idxOf c ≤ s.claims.idxOf call.connection

variable {s : Persistence}

theorem Fenced.inOrder (h : s.Fenced) : s.InOrder :=
  ⟨h.ordered.sublist (List.sublist_append_left _ _), fun c hc =>
    h.known c (List.mem_append_left _ hc)⟩

/-- The owner is the last to have claimed the edge. -/
theorem Fenced.le_owner (h : s.Fenced) {owner : Connection} (howner : s.owner = some owner) :
    owner ∈ s.claims ∧ ∀ c ∈ s.touches, s.claims.idxOf c ≤ s.claims.idxOf owner := by
  rw [h.owner] at howner
  obtain ⟨earlier, hclaims⟩ := List.getLast?_eq_some_iff.mp howner
  refine ⟨by rw [hclaims]; simp, fun c hc => ?_⟩
  have hlast : owner ∉ earlier := by
    have hd := h.distinct
    rw [hclaims, List.nodup_append] at hd
    exact fun hmem => hd.2.2 owner hmem owner (List.mem_singleton_self _) rfl
  have hidx : s.claims.idxOf owner = earlier.length := by
    rw [hclaims, List.idxOf_append_of_notMem hlast, List.idxOf_cons_self, Nat.add_zero]
  have hlt := List.idxOf_lt_length_of_mem (h.known c hc)
  rw [hclaims, List.length_append, List.length_singleton, ← hclaims] at hlt
  omega

@[simp] theorem touches_post (call : Call) (rest : List Call) (work : Work) (waiting : Nat → Phase) :
    (s.post call rest work waiting).touches = s.touches ++ [call.connection] := by
  have hposted : (if work = .setRatchetSession then [Entry.posted call.connection]
      else []).filterMap Entry.touch? = [] := by
    split <;> rfl
  simp only [touches, post, List.filterMap_append, hposted, List.append_nil, List.map_append,
    List.map_cons, List.map_nil, List.append_assoc]

@[simp] theorem touches_settle (call : Call) (rest : List Call) (result : Except Failure Unit) :
    (s.settle call rest result).touches = s.touches := by
  simp only [touches, settle, List.filterMap_append]
  rw [show [Entry.settled call result s.row].filterMap Entry.touch? = [] from rfl, List.append_nil]

/-- A message is posted by a head that no one before it outranks. -/
theorem Fenced.post (h : s.Fenced) {call : Call} {rest : List Call} (hqueue : s.queue = call :: rest)
    (hknown : call.connection ∈ s.claims)
    (hmax : ∀ c ∈ s.touches, s.claims.idxOf c ≤ s.claims.idxOf call.connection)
    (work : Work) (waiting : Nat → Phase) : (s.post call rest work waiting).Fenced where
  distinct := h.distinct
  owner := h.owner
  waiting other hother := by
    have hwaiting := h.waiting other
    rw [hqueue] at hwaiting
    exact hwaiting hother
  ordered := by
    rw [touches_post, List.pairwise_append]
    refine ⟨h.ordered, List.pairwise_singleton _ _, fun c hc d hd => ?_⟩
    rw [List.mem_singleton.mp hd]
    exact hmax c hc
  known c hc := by
    rw [touches_post, List.mem_append, List.mem_singleton] at hc
    rcases hc with hc | rfl
    · exact h.known c hc
    · exact hknown
  head other hother _ := by
    cases hother
    refine ⟨hknown, fun c hc => ?_⟩
    rw [touches_post, List.mem_append, List.mem_singleton] at hc
    rcases hc with hc | rfl
    · exact hmax c hc
    · exact Nat.le_refl _

theorem Fenced.settle (h : s.Fenced) {call : Call} {rest : List Call}
    (hqueue : s.queue = call :: rest) (result : Except Failure Unit) :
    (s.settle call rest result).Fenced where
  distinct := h.distinct
  owner := h.owner
  waiting other hother := by
    have hwaiting := h.waiting other
    rw [hqueue] at hwaiting
    exact hwaiting (List.mem_of_mem_tail hother)
  ordered := by
    rw [touches_settle]
    exact h.ordered
  known c hc := by
    rw [touches_settle] at hc
    exact h.known c hc
  head other hother hpast := by
    have hwaiting := h.waiting other
    rw [hqueue] at hwaiting
    exact absurd (hwaiting (List.mem_of_mem_head? hother)) hpast

/-- A new claim comes after the others. -/
theorem Fenced.claim (h : s.Fenced) {connection : Connection} (hnew : connection ∉ s.claims) :
    Fenced { s with owner := some connection, claims := s.claims ++ [connection] } where
  distinct := by
    rw [List.nodup_append]
    refine ⟨h.distinct, List.nodup_cons.mpr ⟨List.not_mem_nil, List.nodup_nil⟩, fun c hc d hd hcd => hnew ?_⟩
    rw [← List.mem_singleton.mp hd, ← hcd]
    exact hc
  owner := List.getLast?_concat.symm
  waiting := h.waiting
  ordered := by
    refine h.ordered.imp_of_mem fun hc hd hle => ?_
    rw [List.idxOf_append_of_mem (h.known _ hc), List.idxOf_append_of_mem (h.known _ hd)]
    exact hle
  known c hc := List.mem_append_left _ (h.known c hc)
  head call hcall hpast := by
    obtain ⟨hmem, hmax⟩ := h.head call hcall hpast
    refine ⟨List.mem_append_left _ hmem, fun c hc => ?_⟩
    rw [List.idxOf_append_of_mem (h.known c hc), List.idxOf_append_of_mem hmem]
    exact hmax c hc

/-- The head of the queue changes its phase past the lock. -/
theorem Fenced.rephase (h : s.Fenced) {call : Call} {rest : List Call}
    (hqueue : s.queue = call :: rest) (hpast : call.phase ≠ .queued) (phase : Phase) :
    Fenced { s with queue := { call with phase } :: rest } where
  distinct := h.distinct
  owner := h.owner
  waiting other hother := by
    have hwaiting := h.waiting other
    rw [hqueue] at hwaiting
    exact hwaiting hother
  ordered := h.ordered
  known := h.known
  head other hother _ := by
    cases hother
    refine h.head call ?_ hpast
    rw [hqueue]
    rfl

/-- An answer reaches at most the head. -/
theorem Fenced.answer (h : s.Fenced) (message : Nat) (resolved : Bool) :
    Fenced { s with queue := answer message resolved s.queue } := by
  cases hqueue : s.queue with
  | nil =>
    have hsame : { s with queue := Persistence.answer message resolved [] } = s := by
      rw [Persistence.answer, ← hqueue]
    rw [hsame]
    exact h
  | cons call rest =>
    have hsame : Fenced { s with queue := call :: rest } := by
      rw [← hqueue]
      exact h
    unfold Persistence.answer
    simp only
    split
    case h_1 waiting hphase =>
      split
      · exact h.rephase hqueue (by rw [hphase]; nofun) _
      · exact hsame
    case h_2 waiting cause hphase =>
      split
      · exact h.rephase hqueue (by rw [hphase]; nofun) _
      · exact hsame
    case h_3 => exact hsame

/-- A job that is done has touched the row. -/
theorem Fenced.touched (h : s.Fenced) {job : Job} {rest : List Job} (hjobs : s.jobs = job :: rest)
    (row : Option Connection) :
    Fenced { s with
      jobs := rest
      row
      history := s.history ++ [.touched job.connection job.work] } := by
  have htouches : touches { s with
      jobs := rest
      row
      history := s.history ++ [.touched job.connection job.work] } = s.touches := by
    simp only [touches, hjobs, List.filterMap_append, List.map_cons]
    rw [show [Entry.touched job.connection job.work].filterMap Entry.touch? = [job.connection] from
      rfl, List.append_assoc, List.singleton_append]
  refine ⟨h.distinct, h.owner, h.waiting, ?_, ?_, ?_⟩
  · rw [htouches]
    exact h.ordered
  · rw [htouches]
    exact h.known
  · rw [htouches]
    exact h.head

theorem Fenced.runJob (h : s.Fenced) (fault : Fault) : (s.runJob fault).Fenced := by
  unfold Persistence.runJob
  split
  · exact h
  case h_2 job rest hjobs => exact (h.answer _ _).touched hjobs _

/-- A call goes to the end of the queue. -/
theorem Fenced.call (h : s.Fenced) (connection : Connection) (operation : Operation) :
    Fenced { s with queue := s.queue ++ [⟨connection, operation, .queued⟩] } where
  distinct := h.distinct
  owner := h.owner
  waiting other hother := by
    have hwaiting := h.waiting other
    cases hqueue : s.queue with
    | nil =>
      rw [hqueue] at hother
      cases hother
    | cons call rest =>
      rw [hqueue] at hother hwaiting
      rcases List.mem_append.mp hother with hother | hother
      · exact hwaiting hother
      · rw [List.mem_singleton.mp hother]
  ordered := h.ordered
  known := h.known
  head other hother hpast := by
    cases hqueue : s.queue with
    | nil =>
      rw [hqueue] at hother
      cases hother
      exact absurd rfl hpast
    | cons call rest =>
      rw [hqueue] at hother
      refine h.head other ?_ hpast
      rw [hqueue]
      exact hother

theorem Fenced.rejectAllPending (h : s.Fenced) : s.rejectAllPending.Fenced := by
  unfold Persistence.rejectAllPending
  split
  · exact h
  case h_2 call rest hqueue =>
    split
    case h_1 message hphase => exact h.rephase hqueue (by rw [hphase]; nofun) _
    case h_2 message cause hphase => exact h.rephase hqueue (by rw [hphase]; nofun) _
    case h_3 => exact h

theorem Fenced.resume (h : s.Fenced) (liveChanged serializes activates : Bool) :
    (s.resume liveChanged serializes activates).Fenced := by
  unfold Persistence.resume
  split
  · exact h
  case h_2 call rest hqueue =>
    split
    case h_1 hphase =>
      unfold Persistence.begin
      split_ifs with howner _ _
      · exact h.settle hqueue _
      · exact h.settle hqueue _
      · exact h.settle hqueue _
      · obtain ⟨hknown, hmax⟩ := h.le_owner (not_not.mp howner)
        exact h.post hqueue hknown hmax _ _
    case h_2 resolved hphase =>
      unfold Persistence.afterWrite
      split
      · obtain ⟨hknown, hmax⟩ := h.head call (by rw [hqueue]; rfl) (by rw [hphase]; nofun)
        exact h.post hqueue hknown hmax _ _
      · exact h.settle hqueue _
    case h_3 resolved cause hphase => exact h.settle hqueue _
    case h_4 => exact h

end Persistence

theorem step_fenced {s : Persistence} (h : s.Fenced) (event : Event) : (step event s).Fenced := by
  cases event with
  | claim connection =>
    unfold step Persistence.claimRatchetPersistence
    simp only
    by_cases hmem : connection ∈ s.claims
    · rw [if_pos hmem]
      split_ifs
      · exact h
      · exact h
    · rw [if_neg hmem]
      exact h.claim hmem
  | call connection operation => exact h.call connection operation
  | resume liveChanged serializes activates => exact h.resume liveChanged serializes activates
  | job fault => exact h.runJob fault
  | workerError => exact h.rejectAllPending

theorem initial_fenced : Persistence.initial.Fenced :=
  ⟨List.nodup_nil, rfl, by simp [Persistence.initial], List.Pairwise.nil, by
    simp [Persistence.touches, Persistence.initial], by simp [Persistence.initial]⟩

/-! ## Stale connections -/

/-- What never happens again for a stale connection: a write is posted, a call
succeeds. -/
def Entry.Refuses (connection : Connection) : Entry → Prop
  | .posted poster => poster ≠ connection
  | .settled call (.ok _) _ => call.connection ≠ connection
  | _ => True

/-- A claimed connection that is not the owner. -/
def Persistence.Stale (s : Persistence) (connection : Connection) : Prop :=
  connection ∈ s.claims ∧ s.owner ≠ some connection

/-- From `s` on, `s'` has added only what refuses the connection. -/
def Refused (connection : Connection) (s s' : Persistence) : Prop :=
  ∃ added, s'.history = s.history ++ added ∧ ∀ entry ∈ added, entry.Refuses connection

theorem Refused.same {c : Connection} {s s' : Persistence} (h : s'.history = s.history) :
    Refused c s s' := ⟨[], by rw [h, List.append_nil], by simp⟩

theorem Refused.trans {c : Connection} {s s' s'' : Persistence} (h : Refused c s s')
    (h' : Refused c s' s'') : Refused c s s'' := by
  obtain ⟨added, hadded, hall⟩ := h
  obtain ⟨added', hadded', hall'⟩ := h'
  refine ⟨added ++ added', by rw [hadded', hadded, List.append_assoc], fun entry hentry => ?_⟩
  rcases List.mem_append.mp hentry with hentry | hentry
  · exact hall entry hentry
  · exact hall' entry hentry

section Stale

variable {c : Connection} {s : Persistence} {call : Call} {rest : List Call}

theorem post_refused (h : call.connection ≠ c) (work : Work) (waiting : Nat → Phase) :
    Refused c s (s.post call rest work waiting) := by
  refine ⟨_, rfl, fun entry hentry => ?_⟩
  split at hentry
  · rw [List.mem_singleton.mp hentry]
    exact h
  · cases hentry

theorem erase_refused (waiting : Nat → Phase) :
    Refused c s (s.post call rest .deleteRatchetSession waiting) :=
  Refused.same (by simp [Persistence.post])

theorem settle_refused {result : Except Failure Unit}
    (h : result = .ok () → call.connection ≠ c) : Refused c s (s.settle call rest result) := by
  refine ⟨_, rfl, fun entry hentry => ?_⟩
  rw [List.mem_singleton.mp hentry]
  cases result with
  | error e => trivial
  | ok u => exact h rfl

/-- A stale connection stays stale, and is refused. -/
theorem step_stale (h : s.Stale c) (event : Event) :
    (step event s).Stale c ∧ Refused c s (step event s) := by
  have hnot : ∀ {d}, s.owner = some d → d ≠ c := by
    rintro d howner rfl
    exact h.2 howner
  cases event with
  | claim connection =>
    unfold step Persistence.claimRatchetPersistence
    simp only
    by_cases hmem : connection ∈ s.claims
    · rw [if_pos hmem]
      split_ifs
      · exact ⟨h, Refused.same rfl⟩
      · exact ⟨h, Refused.same rfl⟩
    · rw [if_neg hmem]
      refine ⟨⟨List.mem_append_left _ h.1, fun howner => hmem ?_⟩, Refused.same rfl⟩
      cases howner
      exact h.1
  | call connection operation => exact ⟨h, Refused.same rfl⟩
  | resume liveChanged serializes activates =>
    unfold step Persistence.resume
    simp only
    split
    · exact ⟨h, Refused.same rfl⟩
    split
    · unfold Persistence.begin
      split_ifs with howner _ _
      · exact ⟨h, settle_refused nofun⟩
      · exact ⟨h, settle_refused nofun⟩
      · exact ⟨h, settle_refused nofun⟩
      · exact ⟨h, post_refused (hnot (not_not.mp howner)) _ _⟩
    · unfold Persistence.afterWrite
      split
      · exact ⟨h, erase_refused _⟩
      · refine ⟨h, settle_refused fun hok => ?_⟩
        unfold Persistence.checkWritten at hok
        split_ifs at hok with _ howner _
        exact hnot (not_not.mp howner)
    · exact ⟨h, settle_refused nofun⟩
    · exact ⟨h, Refused.same rfl⟩
  | job fault =>
    unfold step Persistence.runJob
    simp only
    split
    · exact ⟨h, Refused.same rfl⟩
    · refine ⟨h, ⟨_, rfl, fun entry hentry => ?_⟩⟩
      rw [List.mem_singleton.mp hentry]
      trivial
  | workerError =>
    unfold step Persistence.rejectAllPending
    simp only
    split
    · exact ⟨h, Refused.same rfl⟩
    split
    · exact ⟨h, Refused.same rfl⟩
    · exact ⟨h, Refused.same rfl⟩
    · exact ⟨h, Refused.same rfl⟩

theorem run_stale (events : List Event) (h : s.Stale c) :
    (runAll events s).Stale c ∧ Refused c s (runAll events s) := by
  induction events generalizing s with
  | nil => exact ⟨h, Refused.same rfl⟩
  | cons event events ih =>
    obtain ⟨hstale, hstep⟩ := step_stale h event
    obtain ⟨hstale', hrest⟩ := ih hstale
    exact ⟨hstale', hstep.trans hrest⟩

end Stale

/-! ## Rollbacks -/

/-- An activation that failed after its write was posted has left no row, or its error
reports the failed rollback. -/
def Persistence.RolledBack (s : Persistence) : Prop :=
  ∀ call failure row, Entry.settled call (.error failure) row ∈ s.history →
    call.operation = .activation → call.phase ≠ .queued →
    row = none ∨ ∃ cause, failure = .rollback cause

/-- No deletion fails in the worker before the row is gone. -/
def Event.Erases (event : Event) (s : Persistence) : Prop :=
  match event with
  | .job .before => ∀ job ∈ s.jobs.head?, job.work = .deleteRatchetSession → s.row = none
  | _ => True

/-- A rollback the head waits for is the worker's last job, and one it has the answer
to is done. -/
structure Tracked (s : Persistence) : Prop where
  messages : s.jobs.Pairwise fun job other => job.message < other.message
  fresh : ∀ job ∈ s.jobs, job.message < s.messages
  erasing : ∀ call ∈ s.queue.head?, ∀ message cause, call.phase = .erasing message cause →
    ∃ earlier, s.jobs = earlier ++ [⟨message, call.connection, .deleteRatchetSession⟩]
  erased : ∀ call ∈ s.queue.head?, ∀ cause, call.phase = .erased true cause →
    s.jobs = [] ∧ s.row = none
  rolledBack : s.RolledBack

theorem initial_tracked : Tracked Persistence.initial :=
  ⟨List.Pairwise.nil, by simp [Persistence.initial], by simp [Persistence.initial],
    by simp [Persistence.initial], fun _ _ _ h => absurd h List.not_mem_nil⟩

section Tracked

variable {s : Persistence} {call : Call} {rest : List Call}

/-- A message is posted. -/
theorem Tracked.post (h : Tracked s) (work : Work) {waiting : Nat → Phase}
    (hwaiting : ∀ message other cause, waiting message = .erasing other cause →
      message = other ∧ work = .deleteRatchetSession)
    (hanswer : ∀ message cause, waiting message ≠ .erased true cause) :
    Tracked (s.post call rest work waiting) where
  messages := by
    refine List.pairwise_append.mpr ⟨h.messages, List.pairwise_singleton _ _, fun job hjob other hother => ?_⟩
    rw [List.mem_singleton.mp hother]
    exact h.fresh job hjob
  fresh job hjob := by
    rcases List.mem_append.mp hjob with hjob | hjob
    · exact Nat.lt_succ_of_lt (h.fresh job hjob)
    · rw [List.mem_singleton.mp hjob]
      exact Nat.lt_succ_self _
  erasing other hother message cause hphase := by
    cases hother
    obtain ⟨rfl, rfl⟩ := hwaiting _ _ _ hphase
    exact ⟨s.jobs, rfl⟩
  erased other hother cause hphase := by
    cases hother
    exact absurd hphase (hanswer _ _)
  rolledBack other failure row hentry := by
    refine h.rolledBack other failure row ?_
    rcases List.mem_append.mp hentry with hentry | hentry
    · exact hentry
    · split at hentry
      · cases List.mem_singleton.mp hentry
      · cases hentry

/-- The head leaves, and what it reports is right. -/
theorem Tracked.settle (h : Tracked s) (hrest : ∀ other ∈ rest, other.phase = .queued)
    {result : Except Failure Unit}
    (hresult : ∀ failure, result = .error failure → call.operation = .activation →
      call.phase ≠ .queued → s.row = none ∨ ∃ cause, failure = .rollback cause) :
    Tracked (s.settle call rest result) where
  messages := h.messages
  fresh := h.fresh
  erasing other hother message cause hphase := by
    have hqueued := hrest other (List.mem_of_mem_head? hother)
    cases hqueued.symm.trans hphase
  erased other hother cause hphase := by
    have hqueued := hrest other (List.mem_of_mem_head? hother)
    cases hqueued.symm.trans hphase
  rolledBack other failure row hentry := by
    rcases List.mem_append.mp hentry with hentry | hentry
    · exact h.rolledBack other failure row hentry
    · cases List.mem_singleton.mp hentry
      exact hresult failure rfl

theorem Tracked.resume (h : Tracked s) (hfenced : s.Fenced)
    (liveChanged serializes activates : Bool) :
    Tracked (s.resume liveChanged serializes activates) := by
  unfold Persistence.resume
  split
  · exact h
  case h_2 call rest hqueue =>
    have hrest : ∀ other ∈ rest, other.phase = .queued := by
      have hwaiting := hfenced.waiting
      rw [hqueue] at hwaiting
      exact hwaiting
    have hhead : call ∈ s.queue.head? := by
      rw [hqueue]
      rfl
    split
    case h_1 hphase =>
      have hbefore : ∀ failure : Failure, Tracked (s.settle call rest (.error failure)) :=
        fun failure => h.settle hrest fun _ _ _ hpast => absurd hphase hpast
      unfold Persistence.begin
      split_ifs
      · exact hbefore _
      · exact hbefore _
      · exact hbefore _
      · exact h.post _ nofun nofun
    case h_2 resolved hphase =>
      unfold Persistence.afterWrite
      split
      case h_1 cause _ _ =>
        refine h.post _ ?_ nofun
        rintro message other cause' ⟨⟩
        exact ⟨rfl, rfl⟩
      case h_2 hsettles =>
        refine h.settle hrest fun failure herror hactivation _ => ?_
        exact absurd hactivation (hsettles failure herror)
    case h_3 resolved cause hphase =>
      refine h.settle hrest ?_
      rintro failure ⟨⟩ _ _
      cases resolved with
      | true => exact .inl (h.erased call hhead cause hphase).2
      | false => exact .inr ⟨cause, rfl⟩
    case h_4 => exact h

/-- Who is at the head after an answer: the same call, which does not wait for it, or
the one that waited. -/
theorem answer_head {message : Nat} {resolved : Bool} {queue : List Call} {other : Call}
    (h : other ∈ (Persistence.answer message resolved queue).head?) :
    (other ∈ queue.head? ∧ ∀ cause, other.phase ≠ .erasing message cause) ∨
      other.phase = .written resolved ∨
      ∃ call ∈ queue.head?, ∃ cause, call.phase = .erasing message cause ∧
        other.phase = .erased resolved cause := by
  cases queue with
  | nil => cases h
  | cons call rest =>
    unfold Persistence.answer at h
    simp only at h
    split at h
    case h_1 waiting hphase =>
      split at h
      · cases h
        exact .inr (.inl rfl)
      · cases h
        exact .inl ⟨rfl, fun cause hother => by cases hphase.symm.trans hother⟩
    case h_2 waiting cause hphase =>
      split at h
      case isTrue hsame =>
        cases h
        exact .inr (.inr ⟨call, rfl, cause, hsame ▸ hphase, rfl⟩)
      case isFalse hother =>
        cases h
        refine .inl ⟨rfl, fun cause' hphase' => hother ?_⟩
        cases hphase.symm.trans hphase'
        rfl
    case h_3 hphase =>
      cases h
      exact .inl ⟨rfl, fun cause hother => (hphase _ _ hother).elim⟩

theorem Tracked.runJob (h : Tracked s) {fault : Fault} (herases : Event.Erases (.job fault) s) :
    Tracked (s.runJob fault) := by
  unfold Persistence.runJob
  split
  · exact h
  case h_2 job rest hjobs =>
    have hmessages := h.messages
    rw [hjobs, List.pairwise_cons] at hmessages
    refine ⟨hmessages.2, fun other hother => ?_, ?_, ?_, ?_⟩
    · exact h.fresh other (by rw [hjobs]; exact List.mem_cons_of_mem _ hother)
    · intro call hcall message cause hphase
      rcases answer_head hcall with ⟨hold, hother⟩ | hwritten | ⟨_, _, cause', _, herased⟩
      · obtain ⟨earlier, hearlier⟩ := h.erasing call hold message cause hphase
        rw [hjobs] at hearlier
        cases earlier with
        | nil =>
          cases hearlier
          exact absurd hphase (hother cause)
        | cons first earlier =>
          cases hearlier
          exact ⟨earlier, rfl⟩
      · cases hwritten.symm.trans hphase
      · cases herased.symm.trans hphase
    · intro call hcall cause hphase
      rcases answer_head hcall with ⟨hold, -⟩ | hwritten | ⟨waiter, hwaiter, cause', hwaits, -⟩
      · cases hjobs.symm.trans (h.erased call hold cause hphase).1
      · cases hwritten.symm.trans hphase
      · obtain ⟨earlier, hearlier⟩ := h.erasing waiter hwaiter _ _ hwaits
        rw [hjobs] at hearlier
        cases earlier with
        | cons first earlier =>
          -- an earlier job has an earlier message
          cases hearlier
          exact absurd (hmessages.1 _ (List.mem_append_right _ (List.mem_singleton_self _)))
            (Nat.lt_irrefl _)
        | nil =>
          obtain ⟨hjob, hrest⟩ := List.cons.inj hearlier
          have hwork : job.work = .deleteRatchetSession := by rw [hjob]
          refine ⟨hrest, ?_⟩
          simp only [hwork]
          cases fault with
          | none => rfl
          | after => rfl
          | before => exact herases job (by rw [hjobs]; rfl) hwork
    · intro call failure row hentry
      refine h.rolledBack call failure row ?_
      rcases List.mem_append.mp hentry with hentry | hentry
      · exact hentry
      · cases List.mem_singleton.mp hentry

theorem Tracked.rejectAllPending (h : Tracked s) : Tracked s.rejectAllPending := by
  unfold Persistence.rejectAllPending
  split
  · exact h
  case h_2 call rest hqueue =>
    have hfailed : ∀ phase : Phase, (∀ message cause, phase ≠ .erasing message cause) →
        (∀ cause, phase ≠ .erased true cause) →
        Tracked { s with queue := { call with phase } :: rest } := by
      intro phase herasing herased
      refine ⟨h.messages, h.fresh, ?_, ?_, h.rolledBack⟩
      · rintro other ⟨⟩ message cause hphase
        exact absurd hphase (herasing _ _)
      · rintro other ⟨⟩ cause hphase
        exact absurd hphase (herased _)
    split
    · exact hfailed _ nofun nofun
    · exact hfailed _ nofun nofun
    · exact h

end Tracked

theorem step_tracked {s : Persistence} (h : Tracked s) (hfenced : s.Fenced) {event : Event}
    (herases : event.Erases s) : Tracked (step event s) := by
  cases event with
  | claim connection =>
    unfold step Persistence.claimRatchetPersistence
    simp only
    split_ifs
    · exact h
    · exact h
    · exact ⟨h.messages, h.fresh, h.erasing, h.erased, h.rolledBack⟩
  | call connection operation =>
    have hhead : ∀ call ∈ (s.queue ++ [(⟨connection, operation, .queued⟩ : Call)]).head?,
        call.phase = .queued ∨ call ∈ s.queue.head? := by
      cases s.queue with
      | nil =>
        rintro call ⟨⟩
        exact .inl rfl
      | cons call rest => exact fun other hother => .inr hother
    refine ⟨h.messages, h.fresh, ?_, ?_, h.rolledBack⟩
    · intro call hcall message cause hphase
      rcases hhead call hcall with hqueued | hold
      · cases hqueued.symm.trans hphase
      · exact h.erasing call hold message cause hphase
    · intro call hcall cause hphase
      rcases hhead call hcall with hqueued | hold
      · cases hqueued.symm.trans hphase
      · exact h.erased call hold cause hphase
  | resume liveChanged serializes activates => exact h.resume hfenced liveChanged serializes activates
  | job fault => exact h.runJob herases
  | workerError => exact h.rejectAllPending

/-- Along every run the order of ownership holds, and rollbacks are tracked if none
fails silently. -/
theorem run_fenced (events : List Event) {s : Persistence} (h : s.Fenced) :
    (runAll events s).Fenced := by
  induction events generalizing s with
  | nil => exact h
  | cons event events ih => exact ih (step_fenced h event)

theorem run_tracked (events : List Event) {s : Persistence} (hfenced : s.Fenced) (h : Tracked s)
    (herases : Throughout Event.Erases events s) : Tracked (runAll events s) := by
  induction events generalizing s with
  | nil => exact h
  | cons event events ih =>
    exact ih (step_fenced hfenced event) (step_tracked h hfenced herases.1) herases.2

/-- Ownership of an edge: who touches the row never gives way to an older connection, a
stale connection posts no write and has no success from then on, and a failed activation
leaves no row or says that its rollback failed. -/
theorem edge_ownership (events : List Event)
    (herases : Throughout Event.Erases events .initial) :
    (runAll events .initial).InOrder ∧
      (∀ connection, (runAll events .initial).Stale connection → ∀ later,
        (runAll later (runAll events .initial)).Stale connection ∧
          Refused connection (runAll events .initial) (runAll later (runAll events .initial))) ∧
      (runAll events .initial).RolledBack := by
  refine ⟨(run_fenced events initial_fenced).inOrder, fun connection hstale later => ?_, ?_⟩
  · exact run_stale later hstale
  · exact (run_tracked events initial_fenced initial_tracked herases).rolledBack

/-- An old connection's seed is being written when a replacement claims the edge. -/
def replaced : List Event :=
  [.claim 0, .call 0 .activation, .resume false true true, .claim 1, .job .none,
    .resume false true true]

/-- The rollback of the old connection's seed, and then the replacement's seed. -/
def replacedInTurn : List Event :=
  replaced ++ [.job .none, .resume false true true, .call 1 .activation, .resume false true true,
    .job .none, .resume false true true]

theorem edge_ownership_replaced :
    (runAll replacedInTurn .initial).InOrder ∧
      (∀ connection, (runAll replacedInTurn .initial).Stale connection → ∀ later,
        (runAll later (runAll replacedInTurn .initial)).Stale connection ∧
          Refused connection (runAll replacedInTurn .initial)
            (runAll later (runAll replacedInTurn .initial))) ∧
      (runAll replacedInTurn .initial).RolledBack :=
  edge_ownership replacedInTurn (by simp [Throughout, replacedInTurn, replaced, Event.Erases])

/-- The worker's deletion fails, which it does not report: the old connection's seed stays
and the error of its activation does not say so. -/
theorem rollback_fails_silently :
    ¬ (runAll (replaced ++ [.job .before, .resume false true true]) .initial).RolledBack := by
  intro h
  have hlost := h ⟨0, .activation, .erased true .staleOwner⟩ .staleOwner (some 0) (by
    show _ ∈ [_, _, _, _]
    exact List.mem_cons_of_mem _ (List.mem_cons_of_mem _ (List.mem_cons_of_mem _
      List.mem_cons_self))) rfl nofun
  rcases hlost with hrow | ⟨cause, hcause⟩
  · cases hrow
  · cases hcause

end Edge

end P2Party
