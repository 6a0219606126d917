import P2Party.Messages.MessageChunk
import P2Party.PqHealing.Orchestrator

/-!
# Write-ahead transactions of a live edge

The ratchet, the PQ runtime and the key cache of one connection, as ratchetPersist.ts and
pqHealingOrchestrator.ts change them: every mutation waits in the queue of the edge's
lock, stages its successor, writes it to the edge's row and only then publishes it. The
awaits between these are where other code runs, so each is a step of its own. Maps are
objects: a caller that has read `epc.messageKeyCache` keeps the map it read.

- `Live`, `Row`, `EdgeCrypto`: what a connection holds, and what is durable of it;
- `Request`, `Staged`, `Phase`: a mutation on its way through the lock;
- `begin`, `mutated`, `post`, `answer`: the stretches of code between two awaits;
- `Event`, `step`, `runAll`: every interleaving.
-/

namespace P2Party

open Base PqHealing PqHealingRuntime PqHealingOrchestrator

namespace EdgeCrypto

/-! ## What a connection holds -/

/-- The entries of a `Map` from cache keys to message keys. -/
abbrev KeyMap := OrdMap String Bytes

/-- The live objects of a connection. `maps` are the map objects there have been; the
active keys of the runtime and the cache of the connection name two of them, and the
map in `pq` itself is not read. -/
structure Live where
  ratchet : RatchetState
  pq : Option SparsePqHealingState
  maps : List KeyMap
  active : Nat
  cache : Nat

/-- The row of the edge (`RatchetSession`), with the runtime its `edgeCryptoState` encodes. -/
structure Row where
  ratchet : RatchetSessionSecrets
  pq : Option SparsePqHealingState

namespace Live

/-- The entries of a map object. -/
def map (s : Live) (index : Nat) : KeyMap := s.maps.getD index .empty

/-- Change a map object. -/
def setMap (s : Live) (index : Nat) (keys : KeyMap) : Live := { s with maps := s.maps.set index keys }

/-- The runtime with its active keys. -/
def runtime (s : Live) : Option SparsePqHealingState :=
  s.pq.map fun r => { r with activeReceiveKeys := s.map s.active }

/-- What a row says of the live objects. -/
def toRow (s : Live) : Row := ⟨serializeRatchet s.ratchet, s.runtime⟩

/-- `pq.resolveMessageContext`, if there is a runtime. -/
def resolver (s : Live) : Option PqMessageKeyContextResolver :=
  s.pq.map fun r epoch => .ok (r.resolveMessageContext epoch)

/-- `noteApplicationMessage` of the live runtime, if there is one. -/
def noteApplicationMessage (s : Live) : Except JsError Live :=
  match s.pq with
  | none => .ok s
  | some r =>
    match PqHealingRuntime.noteApplicationMessage.run r with
    | .ok _ r' => .ok { s with pq := some r' }
    | .error e _ => .error e

/-- A connection made of a row. -/
def ofRow (row : Row) : Live where
  ratchet := deserializeRatchet row.ratchet
  pq := row.pq
  maps := [(row.pq.map (·.activeReceiveKeys)).getD .empty]
  active := 0
  cache := 0

end Live

/-! ## Mutations -/

/-- What `mutatePqDurably` is called with. -/
inductive Transition
  | retry (now : Nat)
  | offer (coins : Bytes) (nonce : Nonce) (now : Nat)
  | inbound (frame coins : Bytes) (nonce : Nonce) (now : Nat)

/-- Run it on the clone. -/
def Transition.mutate (L : LibCrypto) : Transition → RuntimeM PqOutcome
  | .retry now => PqHealingOrchestrator.retry now
  | .offer coins nonce now => PqHealingOrchestrator.offer L coins nonce now
  | .inbound frame coins nonce now => PqHealingOrchestrator.inbound L frame coins nonce now

/-- A mutation that waits for the lock: `ratchetEncryptDurably`, `decryptMessageChunkDurably`
and `forgetReceiveMessageKeyDurably` with the map they were given, and `mutatePqDurably`.
The secret is that of the key pair a DH step would generate. -/
inductive Request
  | encrypt
  | decrypt (cache : Nat) (frame merkleRoot secretKey : Bytes)
  | forget (cache : Nat) (cacheKey : String)
  | transition (transition : Transition)

/-- A staged successor and what its commit publishes. -/
inductive Staged
  | encrypt (candidate : RatchetState) (messageKey : Bytes) (header : RatchetHeader)
      (pqContext : Option PqMessageKeyContext)
  | decrypt (candidate : RatchetState) (cache : Nat) (stagedCache : KeyMap) (cacheKey : String)
      (messageKey : Bytes) (chunk : DecryptedChunk)
  | forget (candidate : RatchetState) (cache : Nat) (stagedCache : KeyMap) (cacheKey : String)
  | transition (candidate : SparsePqHealingState) (dispatch : Option Bytes)

/-- Where a mutation is: it waits for the lock, for the mutation of its clone, for the
lock of the row, or for the answer to its write. -/
inductive Phase
  | queued
  | mutating (candidate : SparsePqHealingState)
  | staged (staged : Staged)
  | writing (staged : Staged) (row : Row)

/-- A call that has not settled. -/
structure Call where
  id : Nat
  request : Request
  phase : Phase

/-- What a caller gets: a message key with its header, a chunk with whether the ratchet
advanced, nothing, the frame to send, or an error. -/
inductive Outcome
  | key (messageKey : Bytes) (header : RatchetHeader) (pqContext : Option PqMessageKeyContext)
  | chunk (chunk : DecryptedChunk)
  | forgotten
  | transition (dispatch : Option Bytes)
  | notPersisted
  | thrown (e : JsError)

/-- What has happened: a call settled, with the live ratchet and the row at that moment;
an authenticated receive step published its key; a key was retired; a key was evicted. -/
inductive Entry
  | settled (id : Nat) (outcome : Outcome) (ratchet : RatchetState) (row : Row)
  | kept (cacheKey : String) (messageKey : Bytes)
  | retired (cacheKey : String)
  | evicted (cacheKey : String)

end EdgeCrypto

/-- One edge: its live objects, its row, the queue of its lock (the head has it) and its
past. -/
structure EdgeCrypto extends EdgeCrypto.Live where
  row : EdgeCrypto.Row
  queue : List EdgeCrypto.Call
  calls : Nat
  history : List EdgeCrypto.Entry

namespace EdgeCrypto

/-- The edge as an activation leaves it: the row is that of the live objects. -/
def ofLive (live : Live) : EdgeCrypto :=
  { toLive := live, row := live.toRow, queue := [], calls := 0, history := [] }

/-! ## Settling -/

/-- The head leaves the queue with an outcome. -/
def settle (s : EdgeCrypto) (call : Call) (rest : List Call) (outcome : Outcome) : EdgeCrypto :=
  { s with
    queue := rest
    history := s.history ++ [.settled call.id outcome s.ratchet s.row] }

/-- The head goes on to another phase. -/
def advance (s : EdgeCrypto) (call : Call) (rest : List Call) (phase : Phase) : EdgeCrypto :=
  { s with queue := { call with phase } :: rest }

/-- Something is noted. -/
def note (s : EdgeCrypto) (entry : Entry) : EdgeCrypto := { s with history := s.history ++ [entry] }

/-- Replace the live objects. -/
def withLive (s : EdgeCrypto) (live : Live) : EdgeCrypto := { s with toLive := live }

/-! ## Staging (under the lock, up to the write) -/

variable (L : LibCrypto)

/-- The stage of `ratchetEncryptDurably` (ratchetPersist.ts:405-432). -/
def stageEncrypt (s : Live) : Except JsError Staged :=
  match (ratchetEncrypt L).run (cloneRatchet s.ratchet) with
  | .error e _ => .error e
  | .ok (messageKey, header) candidate =>
    .ok (.encrypt candidate messageKey header (s.pq.map (·.currentMessageContext)))

/-- The bootstrap path keeps the key in the skipped map of the candidate
(ratchetPersist.ts:512-520). -/
def keepSkipped (candidate : RatchetState) (cacheKey : String) (messageKey : Bytes) : RatchetState :=
  let skipped := candidate.skipped.set cacheKey messageKey
  { candidate with skipped := OrdMap.evictLoop MAX_SKIP_SESSION skipped.keys skipped }

/-- The stage of `decryptMessageChunkDurably` (ratchetPersist.ts:455-530): the staged
successor, or the chunk alone when the ratchet did not advance. -/
def stageDecrypt (s : Live) (cache : Nat) (frame merkleRoot secretKey : Bytes) :
    Except JsError (Staged ⊕ DecryptedChunk) := do
  let parsed ← parseChunkFrameHeader frame
  let cacheKey ← messageCacheKey parsed.header.dhPub parsed.header.N
    (if s.pq.isSome then some parsed.pqEpoch else none)
  match (decryptMessageChunk L frame merkleRoot s.resolver secretKey).run
      ⟨cloneRatchet s.ratchet, s.map cache⟩ with
  | .error e _ => .error e
  | .ok chunk receiver =>
    if chunk.stateAdvanced = false then return .inr chunk
    else
      match receiver.cache.get cacheKey with
      | none => .error (.error "ratchet persistence: invalid staged receive cache")
      | some messageKey =>
        demand ((s.map cache).has cacheKey = false)
          (.error "ratchet persistence: invalid staged receive cache")
        let candidate :=
          if s.pq.isSome then receiver.state else keepSkipped receiver.state cacheKey messageKey
        return .inl (.decrypt candidate cache receiver.cache cacheKey messageKey chunk)

/-- The stage of `forgetReceiveMessageKeyDurably` (ratchetPersist.ts:547-583): the staged
successor, or nothing to write. -/
def stageForget (s : Live) (cache : Nat) (cacheKey : String) : Option Staged :=
  let candidate := cloneRatchet s.ratchet
  if s.pq.isSome then
    if (s.map cache).has cacheKey then
      some (.forget candidate cache ((s.map cache).delete cacheKey) cacheKey)
    else none
  else
    if candidate.skipped.has cacheKey then
      some (.forget { candidate with skipped := candidate.skipped.delete cacheKey } cache
        ((s.map cache).delete cacheKey) cacheKey)
    else none

/-- The head has the lock and runs to its first await. -/
def begin (s : EdgeCrypto) (call : Call) (rest : List Call) : EdgeCrypto :=
  match call.request with
  | .encrypt =>
    match stageEncrypt L s.toLive with
    | .error e => s.settle call rest (.thrown e)
    | .ok staged => s.advance call rest (.staged staged)
  | .decrypt cache frame merkleRoot secretKey =>
    match stageDecrypt L s.toLive cache frame merkleRoot secretKey with
    | .error e => s.settle call rest (.thrown e)
    | .ok (.inr chunk) => s.settle call rest (.chunk chunk)
    | .ok (.inl staged) => s.advance call rest (.staged staged)
  | .forget cache cacheKey =>
    match stageForget s.toLive cache cacheKey with
    | some staged => s.advance call rest (.staged staged)
    | none =>
      -- without a runtime the commit runs even when there is nothing to write
      if s.pq.isSome then s.settle call rest .forgotten
      else ((s.withLive (s.setMap cache ((s.map cache).delete cacheKey))).note
        (.retired cacheKey)).settle call rest .forgotten
  | .transition _ =>
    match s.runtime with
    | none => s.settle call rest
        (.thrown (.error "pqHealingOrchestrator: edge has no live PQ runtime or ratchet"))
    | some live =>
      match live.clone with
      | .error e => s.settle call rest (.thrown e)
      | .ok candidate => s.advance call rest (.mutating candidate)

/-- The clone of a transition has been mutated (pqHealingOrchestrator.ts:141-163). -/
def mutated (s : EdgeCrypto) (call : Call) (rest : List Call) (candidate : SparsePqHealingState) :
    EdgeCrypto :=
  match call.request with
  | .transition transition =>
    match (transition.mutate L).run candidate with
    | .error e _ => s.settle call rest (.thrown e)
    | .ok outcome candidate =>
      if outcome.persist then s.advance call rest (.staged (.transition candidate outcome.dispatch))
      else s.settle call rest (.transition outcome.dispatch)
  | _ => s

/-! ## Writing and publishing -/

/-- The row a staged successor writes, serialized under the lock of the row
(ratchetPersist.ts:326-338, pqHealingOrchestrator.ts:144). -/
def Staged.toRow (s : Live) : Staged → Row
  | .encrypt candidate _ _ _ => ⟨serializeRatchet candidate, s.runtime⟩
  | .decrypt candidate _ stagedCache _ _ _ =>
    ⟨serializeRatchet candidate, s.pq.map fun r => { r with activeReceiveKeys := stagedCache }⟩
  | .forget candidate _ stagedCache _ =>
    ⟨serializeRatchet candidate, s.pq.map fun r => { r with activeReceiveKeys := stagedCache }⟩
  | .transition candidate _ => ⟨serializeRatchet s.ratchet, some candidate⟩

/-- Does the checkpoint of a row serialize? -/
def Row.serializes (row : Row) : Bool :=
  match row.pq with
  | none => true
  | some r => (r.serialize r.activeReceiveKeys).isOk

/-- The lock of the row is held: the owner's check, then the serializer, then the write is
posted. -/
def post (s : EdgeCrypto) (call : Call) (rest : List Call) (staged : Staged) (owner : Bool) :
    EdgeCrypto :=
  if owner = true ∧ (staged.toRow s.toLive).serializes = true then
    s.advance call rest (.writing staged (staged.toRow s.toLive))
  else s.settle call rest .notPersisted

/-- Count an application message after a commit, or fail after the fact. -/
def counted (s : EdgeCrypto) (call : Call) (rest : List Call) (outcome : Outcome)
    (failed : Live → Live) : EdgeCrypto :=
  match s.toLive.noteApplicationMessage with
  | .ok live => (s.withLive live).settle call rest outcome
  | .error e => (s.withLive (failed s.toLive)).settle call rest (.thrown e)

/-- Adopt and publish (ratchetPersist.ts:366-375, pqHealingOrchestrator.ts:156-159). -/
def commit (s : EdgeCrypto) (call : Call) (rest : List Call) : Staged → EdgeCrypto
  | .encrypt candidate messageKey header pqContext =>
    (s.withLive { s.toLive with ratchet := candidate }).counted call rest
      (.key messageKey header pqContext) id
  | .decrypt candidate cache _ cacheKey messageKey chunk =>
    let live := { s.toLive with ratchet := candidate }
    let published := live.setMap cache ((live.map cache).set cacheKey messageKey)
    let s := (s.withLive published).note (.kept cacheKey messageKey)
    if s.pq.isSome then
      s.counted call rest (.chunk chunk) fun live =>
        live.setMap cache ((live.map cache).set cacheKey (List.replicate messageKey.length 0))
    else s.settle call rest (.chunk chunk)
  | .forget candidate cache _ cacheKey =>
    let live := { s.toLive with ratchet := candidate }
    ((s.withLive (live.setMap cache ((live.map cache).delete cacheKey))).note
      (.retired cacheKey)).settle call rest .forgotten
  | .transition candidate dispatch =>
    match s.pq with
    | none => s.settle call rest .notPersisted
    | some live =>
      match (adopt candidate).run live with
      | .error e _ => s.settle call rest (.thrown e)
      | .ok _ live =>
        -- the old map is wiped and the clone's takes its place
        (s.withLive { s.toLive with
          pq := some live
          maps := s.maps.set s.active .empty ++ [candidate.activeReceiveKeys]
          active := s.maps.length
          cache := s.maps.length }).settle call rest (.transition dispatch)

/-- The write has been answered. -/
def answer (s : EdgeCrypto) (call : Call) (rest : List Call) (staged : Staged) (row : Row)
    (write : Write) : EdgeCrypto :=
  match write with
  | .lost => s.settle call rest .notPersisted
  | .late => { s with row }.settle call rest .notPersisted
  | .done => { s with row }.commit call rest staged

/-! ## Runs -/

/-- What happens next on the edge. -/
inductive Event
  /-- A mutation is called with the maps its caller holds. -/
  | call (request : Request)
  /-- `handleReceiveMessage` takes a frame. -/
  | receive (frame merkleRoot secretKey : Bytes)
  /-- `forgetMappedReceiveMessageKey` retires a key. -/
  | retire (cacheKey : String)
  /-- The head of the queue goes on; the row's lock is granted to the owner or refused. -/
  | resume (owner : Bool)
  /-- The write of the head is answered. -/
  | written (write : Write)
  /-- The process dies and the row is loaded again. -/
  | crash

/-- A mutation joins the queue. -/
def enqueue (s : EdgeCrypto) (request : Request) : EdgeCrypto :=
  { s with queue := s.queue ++ [⟨s.calls, request, .queued⟩], calls := s.calls + 1 }

/-- `MESSAGE_KEY_CACHE_MAX` (handleReceiveMessage.ts:144). -/
abbrev MESSAGE_KEY_CACHE_MAX : Nat := 256

/-- The keys the size bound evicts, oldest first (handleReceiveMessage.ts:145-156). -/
def evictions (keys : KeyMap) : List String := keys.keys.take (keys.size + 1 - MESSAGE_KEY_CACHE_MAX)

/-- The zeros an eviction leaves in a staged copy of the map, which shares its bytes. -/
def wipeKeys (evicted : List String) (keys : KeyMap) : KeyMap :=
  ⟨keys.entries.map fun e => if e.1 ∈ evicted then (e.1, List.replicate e.2.length 0) else e, by
    rw [List.map_map, List.map_congr_left (g := Prod.fst) (fun e _ => by
      simp only [Function.comp_apply]; split <;> rfl)]
    exact keys.nodup⟩

/-- The staged copy of an evicted map. -/
def Phase.wipe (cache : Nat) (evicted : List String) : Phase → Phase
  | .staged (.decrypt candidate index stagedCache cacheKey messageKey chunk) =>
    .staged (.decrypt candidate index (if index = cache then wipeKeys evicted stagedCache
      else stagedCache) cacheKey messageKey chunk)
  | .staged (.forget candidate index stagedCache cacheKey) =>
    .staged (.forget candidate index (if index = cache then wipeKeys evicted stagedCache
      else stagedCache) cacheKey)
  | phase => phase

/-- The size bound of `handleReceiveMessage`, before the lock (handleReceiveMessage.ts:145-156). -/
def evict (s : EdgeCrypto) : EdgeCrypto :=
  let evicted := evictions (s.map s.cache)
  { s.withLive (s.setMap s.cache (evicted.foldl OrdMap.delete (s.map s.cache))) with
    queue := s.queue.map fun call => { call with phase := call.phase.wipe s.cache evicted }
    history := s.history ++ evicted.map .evicted }

/-- `handleReceiveMessage` (handleReceiveMessage.ts:95-180) up to the lock. -/
def receive (s : EdgeCrypto) (frame merkleRoot secretKey : Bytes) : EdgeCrypto :=
  match parseChunkFrameHeader frame with
  | .error _ => s
  | .ok _ => s.evict.enqueue (.decrypt s.cache frame merkleRoot secretKey)

/-- One event. -/
def step (event : Event) (s : EdgeCrypto) : EdgeCrypto :=
  match event with
  | .call request => s.enqueue request
  | .receive frame merkleRoot secretKey => s.receive frame merkleRoot secretKey
  | .retire cacheKey => s.enqueue (.forget s.cache cacheKey)
  | .resume owner =>
    match s.queue with
    | [] => s
    | call :: rest =>
      match call.phase with
      | .queued => s.begin L call rest
      | .mutating candidate => s.mutated L call rest candidate
      | .staged staged => s.post call rest staged owner
      | .writing _ _ => s
  | .written write =>
    match s.queue with
    | [] => s
    | call :: rest =>
      match call.phase with
      | .writing staged row => s.answer call rest staged row write
      | _ => s
  | .crash => { s with toLive := .ofRow s.row, queue := [] }

/-- A run. -/
def runAll (events : List Event) (s : EdgeCrypto) : EdgeCrypto :=
  events.foldl (fun s event => step L event s) s

/-- A run every event of which satisfies a condition in the state it meets. -/
def Throughout (p : Event → EdgeCrypto → Prop) : List Event → EdgeCrypto → Prop
  | [], _ => True
  | event :: events, s => p event s ∧ Throughout p events (step L event s)

end EdgeCrypto

end P2Party
