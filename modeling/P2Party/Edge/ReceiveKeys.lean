import P2Party.Edge.Durability
import P2Party.PqHealing.Delivery
import P2Party.PqHealing.MachineRuns

/-!
# Active receive keys under interleaving

The keys of the messages in progress are held three times: by the map of the PQ runtime,
by the cache alias of the connection and by the checkpoint in the row. A receive or a
retirement works on the map its caller read before it waited for the lock, and a PQ
transition replaces the map.

- `owed`: the keys that were received and neither retired nor evicted;
- `Synced`, `Within`: the three agree, and hold what is owed;
- `Aligned`: what a mutation on its way through the lock holds of the map;
- `receive_keys_kept`: whole runs whose receives work on the live map;
- `stale_receive_lost`: a run in which a receive waits while a transition swaps the map.
-/

namespace P2Party

open Base PqHealing PqHealingRuntime PqHealingOrchestrator

variable {L : LibCrypto}

/-! ## What a transition leaves alone -/

namespace PqHealingRuntime

/-- What no transition touches: the identity of the edge, and its active keys. -/
def SparsePqHealingState.fixed (r : SparsePqHealingState) :
    RoomPqMode × RatchetRootSuite × Bool × Bytes × OrdMap String Bytes :=
  (r.pqMode, r.rootSuite, r.amInitiator, r.binding, r.activeReceiveKeys)

/-- What no transition gives up: a property that outlives a call of the machine, a refreshed
message root, and whatever happens to the outbox, the duplicate caches and the counters. -/
structure Stable (P : SparsePqHealingState → Prop) : Prop where
  machine : ∀ {r : SparsePqHealingState} {m : Machine}, P r → (r.machine.Invariant → m.Invariant) →
    P { r with machine := m }
  refresh : ∀ {r : SparsePqHealingState}, P r → P r.refreshMessageRoot
  other : ∀ {r r' : SparsePqHealingState}, P r → r'.machine = r.machine →
    r'.messageRoot = r.messageRoot → r'.fixed = r.fixed → P r'

theorem stable_fixed (fixed : RoomPqMode × RatchetRootSuite × Bool × Bytes × OrdMap String Bytes) :
    Stable fun r => r.fixed = fixed where
  machine hr _ := hr
  refresh hr := hr
  other hr _ _ hsame := hsame.trans hr

/-- A call of the machine keeps the machine's invariant. -/
theorem keeps_of_does {α : Type} {call : MachineM α} {n : Nat}
    (h : ∀ m : Machine, m.Invariant → Does m n call) : Keeps Machine.Invariant call := by
  intro m hm
  rcases h m hm with ⟨e, herr⟩ | ⟨a, m', hok, hinv, -⟩
  · rw [herr]
    exact hm
  · rw [hok]
    exact hinv

section Stable

variable {P : SparsePqHealingState → Prop} (hP : Stable P)

include hP

theorem onMachine_stable {α : Type} {call : MachineM α} {n : Nat}
    (h : ∀ m : Machine, m.Invariant → Does m n call) : Keeps P (onMachine call) := by
  intro r hr
  have hkeeps := hP.machine hr (keeps_of_does h r.machine)
  unfold onMachine
  rw [run_zoom]
  cases hrun : call.run r.machine with
  | ok a m =>
    rw [hrun] at hkeeps
    exact hkeeps
  | error e m =>
    rw [hrun] at hkeeps
    exact hkeeps

theorem markPendingDispatched_stable (now : Nat) : Keeps P (markPendingDispatched now) := by
  refine Keeps.read fun r hr => ?_
  cases r.outbox with
  | none => exact hr
  | some outbox =>
    have hrest : Keeps P (do
        attempt (requireSafeUint now "dispatch clock")
        ensure (¬ PQ_HEAL_MAX_RETRIES ≤ outbox.attempts)
          (failure "PQ control retry budget is exhausted")
        set { r with outbox := some { outbox with
          attempts := outbox.attempts + 1
          nextRetryAt := now + PQ_HEAL_RETRY_MS } }) :=
      Keeps.bind (Keeps.attempt _) fun _ => Keeps.bind (Keeps.ensure _ _) fun _ => fun _ _ =>
        hP.other hr rfl rfl rfl
    exact hrest r hr

theorem noteApplicationMessage_stable : Keeps P noteApplicationMessage := by
  refine Keeps.read fun r hr => ?_
  rw [run_ensure_bind]
  split
  · exact hP.other hr rfl rfl rfl
  · exact hr

theorem prepareHealingOffer_stable (coins : Bytes) (nonce : Nonce) (now : Nat) :
    Keeps P (prepareHealingOffer L coins nonce now) := by
  refine Keeps.bind (fun _ hr => hr) fun r => Keeps.bind (Keeps.attempt _) fun due => ?_
  refine Keeps.bind (Keeps.ensure _ _) fun _ => ?_
  refine Keeps.bind (onMachine_stable hP fun _ hm => prepareOffer_does hm coins) fun record => ?_
  refine Keeps.bind (fun _ hr => hr) fun r => Keeps.bind (Keeps.attempt _) fun frame => ?_
  refine Keeps.bind (onMachine_stable hP fun _ hm => markOfferDispatched_does hm) fun _ => ?_
  refine Keeps.bind (Keeps.change fun _ hr => hP.other hr rfl rfl rfl) fun _ => ?_
  exact Keeps.pure _

theorem acceptAcknowledgement_stable (record : Bytes) (now : Nat) :
    Keeps P (acceptAcknowledgement record now) := by
  refine Keeps.bind (fun _ hr => hr) fun r => Keeps.bind (Keeps.ensure _ _) fun _ => ?_
  refine Keeps.bind (Keeps.attempt _) fun acknowledgement => ?_
  refine Keeps.bind (onMachine_stable hP fun _ hm => acceptAck_does hm acknowledgement) fun _ => ?_
  refine Keeps.bind (Keeps.change fun r hr => ?_) fun _ => Keeps.pure _
  exact hP.refresh (hP.other hr rfl rfl rfl)

theorem acceptOffer_stable (frame record root coins : Bytes) (nonce : Nonce) (now : Nat) :
    Keeps P (acceptOffer L false frame record root coins nonce now) := by
  refine Keeps.bind (onMachine_stable hP fun _ hm => acceptAuthenticatedOffer_does hm record) fun _ => ?_
  refine Keeps.bind (onMachine_stable hP fun _ hm => prepareAdvance_does hm coins) fun advance => ?_
  refine Keeps.bind (fun _ hr => hr) fun r => Keeps.bind (Keeps.attempt _) fun _ => ?_
  refine Keeps.bind (onMachine_stable hP fun _ hm => commitPreparedAdvance_does hm) fun _ => ?_
  refine Keeps.bind (Keeps.change fun r hr => ?_) fun _ => Keeps.pure _
  exact hP.refresh (hP.other hr rfl rfl rfl)

theorem acceptAdvance_stable (frame record : Bytes) (nonce : Nonce) (now : Nat) :
    Keeps P (acceptAdvance L false frame record nonce now) := by
  refine Keeps.bind (fun _ hr => hr) fun r => Keeps.bind (Keeps.ensure _ _) fun _ => ?_
  refine Keeps.bind (onMachine_stable hP fun _ hm => acceptAuthenticatedAdvance_does hm record) fun _ => ?_
  refine Keeps.bind (onMachine_stable hP fun _ hm => commitAcceptedAdvance_does hm) fun ack => ?_
  refine Keeps.bind (fun _ hr => hr) fun r => Keeps.bind (Keeps.attempt _) fun _ => ?_
  refine Keeps.bind (Keeps.attempt _) fun _ => ?_
  refine Keeps.bind (onMachine_stable hP fun _ hm => markAdvanceAcknowledgementDispatched_does hm ack)
    fun _ => ?_
  refine Keeps.bind (Keeps.change fun r hr => ?_) fun _ => Keeps.pure _
  exact hP.refresh (hP.other hr rfl rfl rfl)

theorem acceptControlFrame_stable (frame coins : Bytes) (nonce : Nonce) (now : Nat) :
    Keeps P (acceptControlFrame L frame coins nonce now) := by
  refine Keeps.bind (fun _ hr => hr) fun r => Keeps.bind (Keeps.attempt _) fun _ => ?_
  refine Keeps.bind (Keeps.attempt _) fun _ => Keeps.ite (Keeps.pure _) (Keeps.ite (Keeps.pure _) ?_)
  refine Keeps.bind (Keeps.attempt _) fun record => Keeps.ite (acceptAcknowledgement_stable hP _ _) ?_
  refine Keeps.bind (Keeps.attempt _) fun kind => ?_
  cases kind with
  | offer _ _ => exact acceptOffer_stable hP _ _ _ _ _ _
  | advance _ _ => exact acceptAdvance_stable hP _ _ _ _

end Stable

end PqHealingRuntime

namespace EdgeCrypto

/-- A transition keeps what is stable. -/
theorem mutate_stable {P : SparsePqHealingState → Prop} (hP : Stable P) (transition : Transition) :
    Keeps P (transition.mutate L) := by
  cases transition with
  | retry now =>
    refine Keeps.bind (markPendingDispatched_stable hP now) fun _ => Keeps.read fun r hr => ?_
    cases r.copyPendingFrame <;> exact hr
  | offer coins nonce now =>
    refine Keeps.bind (prepareHealingOffer_stable hP _ _ _) fun _ => ?_
    exact Keeps.bind (markPendingDispatched_stable hP now) fun _ => Keeps.pure _
  | inbound frame coins nonce now =>
    refine Keeps.bind (acceptControlFrame_stable hP _ _ _ _) fun result => ?_
    refine Keeps.ite ?_ (Keeps.pure _)
    refine Keeps.bind (fun _ hr => hr) fun r => ?_
    exact Keeps.ite (Keeps.bind (markPendingDispatched_stable hP now) fun _ => Keeps.pure _) (Keeps.pure _)

theorem mutate_fixed (transition : Transition)
    {fixed : RoomPqMode × RatchetRootSuite × Bool × Bytes × KeyMap} :
    Keeps (fun r => r.fixed = fixed) (transition.mutate L) := mutate_stable (stable_fixed fixed) transition

theorem clone_fixed {r candidate : SparsePqHealingState} (h : r.clone = .ok candidate) :
    candidate.fixed = r.fixed := by
  unfold SparsePqHealingState.clone SparsePqHealingState.new at h
  obtain ⟨_, hnew, h⟩ := except_bind_eq_ok.mp h
  obtain ⟨_, -, hnew⟩ := except_bind_eq_ok.mp hnew
  obtain ⟨_, -, hnew⟩ := except_bind_eq_ok.mp hnew
  obtain ⟨_, -, hnew⟩ := except_bind_eq_ok.mp hnew
  obtain ⟨_, -, hnew⟩ := except_bind_eq_ok.mp hnew
  obtain ⟨_, -, hnew⟩ := except_bind_eq_ok.mp hnew
  cases hnew
  obtain ⟨_, -, h⟩ := except_bind_eq_ok.mp h
  cases h
  rfl

/-! ## What is owed -/

/-- The keys an entry leaves owed. -/
def Entry.owe (keys : KeyMap) : Entry → KeyMap
  | .kept cacheKey messageKey => keys.set cacheKey messageKey
  | .retired cacheKey => keys.delete cacheKey
  | .evicted cacheKey => keys.delete cacheKey
  | .settled _ _ _ _ => keys

/-- The combined keys of the receive steps that were neither retired nor evicted. -/
def owed (s : EdgeCrypto) : KeyMap := s.history.foldl Entry.owe .empty

/-- Every entry of one map is one of the other. -/
def Within (keys keys' : KeyMap) : Prop := ∀ k v, keys.get k = some v → keys'.get k = some v

/-- The live map, the cache alias and the durable checkpoint hold the same keys. -/
def Synced (s : EdgeCrypto) : Prop :=
  s.map s.cache = s.map s.active ∧
    s.row.pq.map (·.activeReceiveKeys) = some (s.map s.active)

theorem Within.set {keys keys' : KeyMap} (h : Within keys keys') (k : String) (v : Bytes) :
    Within (keys.set k v) (keys'.set k v) := by
  intro k' v' hget
  by_cases hk : k' = k
  · subst hk
    rw [OrdMap.get_set_self] at hget ⊢
    exact hget
  · rw [OrdMap.get_set_ne _ _ hk] at hget ⊢
    exact h k' v' hget

theorem Within.delete {keys keys' : KeyMap} (h : Within keys keys') (k : String) :
    Within (keys.delete k) (keys'.delete k) := by
  intro k' v' hget
  by_cases hk : k' = k
  · subst hk
    rw [OrdMap.get_delete_self] at hget
    cases hget
  · rw [OrdMap.get_delete_ne _ hk] at hget ⊢
    exact h k' v' hget

theorem Within.of_delete {keys keys' : KeyMap} (h : Within keys keys') (k : String) :
    Within (keys.delete k) keys' := by
  intro k' v' hget
  by_cases hk : k' = k
  · subst hk
    rw [OrdMap.get_delete_self] at hget
    cases hget
  · rw [OrdMap.get_delete_ne _ hk] at hget
    exact h k' v' hget

/-- Evicted keys are owed no more. -/
theorem within_evicted (evicted : List String) {keys keys' : KeyMap} (h : Within keys keys') :
    Within ((evicted.map Entry.evicted).foldl Entry.owe keys) (evicted.foldl OrdMap.delete keys') ∧
      Within ((evicted.map Entry.evicted).foldl Entry.owe keys) keys := by
  induction evicted generalizing keys keys' with
  | nil => exact ⟨h, fun _ _ hget => hget⟩
  | cons k evicted ih =>
    obtain ⟨hboth, hless⟩ := ih (h.delete k)
    exact ⟨hboth, fun k' v' hget => Within.of_delete (fun _ _ hg => hg) k k' v' (hless k' v' hget)⟩

/-! ## Mutations on the live map -/

/-- The clone of a transition: it holds what is owed, and is of the live edge. -/
def Candidate (s : EdgeCrypto) (candidate : SparsePqHealingState) : Prop :=
  Within s.owed candidate.activeReceiveKeys ∧ ∀ r ∈ s.pq, SameEdge candidate r

/-- What a staged mutation holds of the live map. -/
def Staged.Aligned (s : EdgeCrypto) : Staged → Prop
  | .encrypt _ _ _ _ => True
  | .decrypt _ cache stagedCache cacheKey messageKey _ =>
    cache = s.active ∧ stagedCache = (s.map s.active).set cacheKey messageKey
  | .forget _ cache stagedCache cacheKey =>
    cache = s.active ∧ stagedCache = (s.map s.active).delete cacheKey
  | .transition candidate _ => Candidate s candidate

/-- The active keys a staged mutation writes. -/
def Staged.keys (s : EdgeCrypto) : Staged → KeyMap
  | .encrypt _ _ _ _ => s.map s.active
  | .decrypt _ _ stagedCache _ _ _ => stagedCache
  | .forget _ _ stagedCache _ => stagedCache
  | .transition candidate _ => candidate.activeReceiveKeys

/-- What a mutation past the lock holds of the live map. -/
def Phase.Aligned (s : EdgeCrypto) : Phase → Prop
  | .queued => True
  | .mutating candidate => Candidate s candidate
  | .staged work => work.Aligned s
  | .writing work row => work.Aligned s ∧ row.pq.map (·.activeReceiveKeys) = some (work.keys s)

theorem Candidate.of_fixed {s : EdgeCrypto} {candidate candidate' : SparsePqHealingState}
    (hfixed : candidate'.fixed = candidate.fixed) (h : Candidate s candidate) :
    Candidate s candidate' := by
  unfold SparsePqHealingState.fixed at hfixed
  simp only [Prod.mk.injEq] at hfixed
  obtain ⟨hmode, hsuite, hrole, hbinding, hkeys⟩ := hfixed
  refine ⟨hkeys ▸ h.1, fun r hr => ?_⟩
  have hsame := h.2 r hr
  exact ⟨hmode.trans hsame.pqMode, hsuite.trans hsame.rootSuite, hrole.trans hsame.amInitiator,
    hbinding.trans hsame.binding⟩

/-- The mutations whose successor an eviction would contradict: those with a staged copy
of the live map, and those whose row is posted. -/
def Phase.Pins : Phase → Prop
  | .staged (.decrypt _ _ _ _ _ _) => True
  | .staged (.forget _ _ _ _) => True
  | .writing (.transition _ _) _ => False
  | .writing _ _ => True
  | _ => False

/-- The steps after which nothing is lost: receives, retirements, sends and transitions in
any order, where a receive or a retirement gets the lock while the map it was given is
still the live one, no key is evicted while a row that holds it is on its way, and the
message counter is not exhausted. -/
def Event.Steady (event : Event) (s : EdgeCrypto) : Prop :=
  match event with
  | .call .encrypt => True
  | .call (.transition _) => True
  | .call _ => False
  | .receive _ _ _ => evictions (s.map s.cache) ≠ [] → ∀ call ∈ s.queue.head?, ¬ call.phase.Pins
  | .retire _ => True
  | .resume _ => ∀ call ∈ s.queue.head?, call.phase = .queued →
    match call.request with
    | .decrypt cache _ _ _ => cache = s.active
    | .forget cache _ => cache = s.active
    | _ => True
  | .written _ => ∀ r ∈ s.pq, r.messagesSinceHealing < MAX_SAFE_INTEGER
  | .crash => False

/-- The invariant of the live map. -/
structure Kept (s : EdgeCrypto) : Prop where
  runtime : s.pq.isSome = true
  aliased : s.cache = s.active
  bound : s.active < s.maps.length
  within : Within s.owed (s.map s.active)
  head : ∀ call ∈ s.queue.head?, call.phase.Aligned s
  rest : ∀ call ∈ s.queue.tail, call.phase = .queued

/-- A committed step: the write of the head was answered with success. -/
def Event.Commits (event : Event) (s : EdgeCrypto) : Prop :=
  event = .written .done ∧ ∃ call staged row, call ∈ s.queue.head? ∧ call.phase = .writing staged row

section Steps

variable {s s' : EdgeCrypto} {call : Call} {rest : List Call}

theorem owed_append {entries : List Entry} (hhistory : s'.history = s.history ++ entries) :
    s'.owed = entries.foldl Entry.owe s.owed := by
  unfold owed
  rw [hhistory, List.foldl_append]

theorem owed_settle (s' : EdgeCrypto) (outcome : Outcome) :
    (s'.settle call rest outcome).owed = s'.owed := by
  have happend := @owed_append s' (s'.settle call rest outcome) _ rfl
  exact happend

theorem owed_note (s' : EdgeCrypto) (entry : Entry) : (s'.note entry).owed = entry.owe s'.owed := by
  have happend := @owed_append s' (s'.note entry) _ rfl
  exact happend

/-- The head leaves, and the live map holds what is owed. -/
theorem Kept.settle (h : Kept s) (hqueue : s.queue = call :: rest) (outcome : Outcome)
    (hruntime : s'.pq.isSome = true) (haliased : s'.cache = s'.active)
    (hbound : s'.active < s'.maps.length) (hwithin : Within s'.owed (s'.map s'.active)) :
    Kept (s'.settle call rest outcome) := by
  have hrest := h.rest
  rw [hqueue] at hrest
  refine ⟨hruntime, haliased, hbound, ?_, fun other hother => ?_, fun other hother => ?_⟩
  · rw [owed_settle]
    exact hwithin
  · rw [hrest other (List.mem_of_mem_head? hother)]
    trivial
  · exact hrest other (List.mem_of_mem_tail hother)

/-- The head leaves and the live objects stay. -/
theorem Kept.refuse (h : Kept s) (hqueue : s.queue = call :: rest) (outcome : Outcome) :
    Kept (s.settle call rest outcome) :=
  h.settle hqueue outcome h.runtime h.aliased h.bound h.within

theorem Kept.advance (h : Kept s) (hqueue : s.queue = call :: rest) {phase : Phase}
    (haligned : phase.Aligned s) : Kept (s.advance call rest phase) := by
  have hrest := h.rest
  rw [hqueue] at hrest
  refine ⟨h.runtime, h.aliased, h.bound, h.within, ?_, hrest⟩
  rintro other ⟨⟩
  exact haligned

theorem Kept.begin (h : Kept s) (hqueue : s.queue = call :: rest)
    (hmap : match call.request with
      | .decrypt cache _ _ _ => cache = s.active
      | .forget cache _ => cache = s.active
      | _ => True) : Kept (s.begin L call rest) := by
  unfold EdgeCrypto.begin
  split
  case h_1 =>
    split
    · exact h.refuse hqueue _
    case h_2 staged hstage =>
      obtain ⟨candidate, messageKey, header, pqContext, rfl, -, -⟩ := stageEncrypt_cases hstage
      exact h.advance hqueue trivial
  case h_2 cache frame merkleRoot secretKey hrequest =>
    rw [hrequest] at hmap
    have hmap : cache = s.active := hmap
    split
    · exact h.refuse hqueue _
    · exact h.refuse hqueue _
    case h_3 staged hstage =>
      obtain ⟨candidate, cacheKey, messageKey, chunk, rfl, -, -, -⟩ := stageDecrypt_cases hstage
      refine h.advance hqueue ⟨hmap, ?_⟩
      rw [hmap]
  case h_3 cache cacheKey hrequest =>
    rw [hrequest] at hmap
    have hmap : cache = s.active := hmap
    split
    case h_1 staged hstage =>
      obtain ⟨candidate, rfl, -⟩ := stageForget_cases hstage
      refine h.advance hqueue ⟨hmap, ?_⟩
      rw [hmap]
    case h_2 =>
      rw [if_pos h.runtime]
      exact h.refuse hqueue _
  case h_4 =>
    split
    · exact h.refuse hqueue _
    case h_2 live hlive =>
      split
      · exact h.refuse hqueue _
      case h_2 candidate hclone =>
        unfold Live.runtime at hlive
        obtain ⟨r, hr, rfl⟩ := Option.map_eq_some_iff.mp hlive
        refine h.advance hqueue (Candidate.of_fixed (clone_fixed hclone) ⟨h.within, ?_⟩)
        intro r' hr'
        cases hr.symm.trans hr'
        exact ⟨rfl, rfl, rfl, rfl⟩

theorem Kept.mutated (h : Kept s) (hqueue : s.queue = call :: rest) {candidate : SparsePqHealingState}
    (hphase : call.phase = .mutating candidate) : Kept (s.mutated L call rest candidate) := by
  have haligned := h.head call (by rw [hqueue]; rfl)
  rw [hphase] at haligned
  unfold EdgeCrypto.mutated
  split
  case h_2 => exact h
  case h_1 transition hrequest =>
    split
    · exact h.refuse hqueue _
    case h_2 outcome candidate' hrun =>
      split
      · exact h.advance hqueue
          (Candidate.of_fixed ((mutate_fixed transition).of_ok rfl hrun) haligned)
      · exact h.refuse hqueue _

/-- The row of a staged mutation holds the keys it writes. -/
theorem toRow_keys (hruntime : s.pq.isSome = true) (staged : Staged) :
    (staged.toRow s.toLive).pq.map (·.activeReceiveKeys) = some (staged.keys s) := by
  obtain ⟨r, hr⟩ := Option.isSome_iff_exists.mp hruntime
  cases staged with
  | encrypt _ _ _ _ =>
    show (s.runtime).map _ = _
    unfold Live.runtime
    rw [hr]
    rfl
  | decrypt _ _ _ _ _ _ =>
    show (s.pq.map _).map _ = _
    rw [hr]
    rfl
  | forget _ _ _ _ =>
    show (s.pq.map _).map _ = _
    rw [hr]
    rfl
  | transition _ _ => rfl

theorem Kept.post (h : Kept s) (hqueue : s.queue = call :: rest) {staged : Staged}
    (hphase : call.phase = .staged staged) (owner : Bool) : Kept (s.post call rest staged owner) := by
  have haligned := h.head call (by rw [hqueue]; rfl)
  rw [hphase] at haligned
  unfold EdgeCrypto.post
  split
  · exact h.advance hqueue ⟨haligned, toRow_keys h.runtime staged⟩
  · exact h.refuse hqueue _

/-- The live map is replaced by one that holds what is owed, and so is the checkpoint. -/
theorem Kept.publish (h : Kept s) (hqueue : s.queue = call :: rest) (outcome : Outcome) {keys : KeyMap}
    (hruntime : s'.pq.isSome = true) (hcache : s'.cache = s.cache) (hactive : s'.active = s.active)
    (hmaps : s'.maps = s.maps.set s.active keys) (hwithin : Within s'.owed keys)
    (hrow : s'.row.pq.map (·.activeReceiveKeys) = some keys) :
    Kept (s'.settle call rest outcome) ∧ Synced (s'.settle call rest outcome) := by
  have hmap : s'.map s'.active = keys := by
    unfold Live.map
    rw [hmaps, hactive, List.getD_eq_getElem?_getD, List.getElem?_set_self h.bound]
    rfl
  have haliased : s'.cache = s'.active := by rw [hcache, hactive, h.aliased]
  refine ⟨h.settle hqueue outcome hruntime haliased ?_ ?_, ?_, ?_⟩
  · rw [hmaps, hactive, List.length_set]
    exact h.bound
  · rw [hmap]
    exact hwithin
  · exact congrArg s'.map haliased
  · show s'.row.pq.map _ = some (s'.map s'.active)
    rw [hmap]
    exact hrow

/-- Counting a message succeeds below the bound and touches no map. -/
theorem noteApplicationMessage_ok {live : Live} {r : SparsePqHealingState} (hr : live.pq = some r)
    (hcount : r.messagesSinceHealing < MAX_SAFE_INTEGER) :
    ∃ r', live.noteApplicationMessage = .ok { live with pq := some r' } := by
  refine ⟨{ r with messagesSinceHealing := r.messagesSinceHealing + 1 }, ?_⟩
  unfold Live.noteApplicationMessage
  rw [hr]
  simp only [PqHealingRuntime.noteApplicationMessage, run_get_bind]
  rw [run_ensure_of (Nat.not_le.mpr hcount)]
  rfl

/-- A committed step leaves the three in step, and what is owed within. -/
theorem Kept.answer (h : Kept s) (hqueue : s.queue = call :: rest) {staged : Staged} {row : Row}
    (hphase : call.phase = .writing staged row)
    (hcount : ∀ r ∈ s.pq, r.messagesSinceHealing < MAX_SAFE_INTEGER) (write : Write) :
    Kept (s.answer call rest staged row write) ∧
      (write = .done → Synced (s.answer call rest staged row write)) := by
  have haligned := h.head call (by rw [hqueue]; rfl)
  rw [hphase] at haligned
  obtain ⟨haligned, hrow⟩ := haligned
  obtain ⟨r, hr⟩ := Option.isSome_iff_exists.mp h.runtime
  unfold EdgeCrypto.answer
  cases write with
  | lost => exact ⟨h.refuse hqueue _, nofun⟩
  | late =>
    refine ⟨h.settle hqueue _ ?_ ?_ ?_ ?_, nofun⟩
    exacts [h.runtime, h.aliased, h.bound, h.within]
  | done =>
    simp only
    cases staged with
    | encrypt candidate messageKey header pqContext =>
      obtain ⟨r', hnote⟩ := @noteApplicationMessage_ok { s.toLive with ratchet := candidate } r hr
        (hcount r hr)
      have hcommit : ({ s with row }.commit call rest (.encrypt candidate messageKey header pqContext)) =
          ({ s with row }.withLive { s.toLive with ratchet := candidate, pq := some r' }).settle call rest
            (.key messageKey header pqContext) := by
        unfold EdgeCrypto.commit EdgeCrypto.counted
        simp only [EdgeCrypto.withLive, hnote]
      rw [hcommit]
      refine ⟨h.settle hqueue _ ?_ ?_ ?_ ?_, fun _ => ⟨?_, ?_⟩⟩
      exacts [rfl, h.aliased, h.bound, h.within, congrArg s.map h.aliased, hrow]
    | decrypt candidate cache stagedCache cacheKey messageKey chunk =>
      obtain ⟨rfl, rfl⟩ := haligned
      obtain ⟨r', hnote⟩ := @noteApplicationMessage_ok
        (({ s.toLive with ratchet := candidate } : Live).setMap s.active
          ((s.map s.active).set cacheKey messageKey)) r hr (hcount r hr)
      have hcommit : ({ s with row }.commit call rest (.decrypt candidate s.active
            ((s.map s.active).set cacheKey messageKey) cacheKey messageKey chunk)) =
          (({ s with row }.note (.kept cacheKey messageKey)).withLive
            { ({ s.toLive with ratchet := candidate } : Live).setMap s.active
              ((s.map s.active).set cacheKey messageKey) with pq := some r' }).settle call rest
            (.chunk chunk) := by
        unfold EdgeCrypto.commit EdgeCrypto.counted
        have hsome : s.pq.isSome = true := h.runtime
        simp only [EdgeCrypto.withLive, EdgeCrypto.note, Live.setMap, hsome, if_true]
        simp only [Live.setMap] at hnote
        simp only [Live.map] at hnote ⊢
        rw [hnote]
      rw [hcommit]
      have hpublish := @Kept.publish s (({ s with row }.note (.kept cacheKey messageKey)).withLive
        { ({ s.toLive with ratchet := candidate } : Live).setMap s.active
          ((s.map s.active).set cacheKey messageKey) with pq := some r' }) call rest h hqueue
        (.chunk chunk) ((s.map s.active).set cacheKey messageKey) rfl rfl rfl rfl ?_ hrow
      · exact ⟨hpublish.1, fun _ => hpublish.2⟩
      · show Within (EdgeCrypto.note _ _).owed _
        rw [owed_note]
        exact h.within.set cacheKey messageKey
    | forget candidate cache stagedCache cacheKey =>
      obtain ⟨rfl, rfl⟩ := haligned
      have hpublish := @Kept.publish s (({ s with row }.withLive
        (({ s.toLive with ratchet := candidate } : Live).setMap s.active
          ((s.map s.active).delete cacheKey))).note (.retired cacheKey)) call rest h hqueue
        .forgotten ((s.map s.active).delete cacheKey) h.runtime rfl rfl rfl ?_ hrow
      · exact ⟨hpublish.1, fun _ => hpublish.2⟩
      · rw [owed_note]
        exact h.within.delete cacheKey
    | transition candidate dispatch =>
      obtain ⟨hwithin, hsame⟩ := haligned
      have hsame := hsame r hr
      have hadopt := adopt_run hsame.pqMode hsame.rootSuite hsame.amInitiator hsame.binding
      unfold EdgeCrypto.commit
      simp only [hr, hadopt]
      have hmap : (s.maps.set s.active .empty ++ [candidate.activeReceiveKeys]).getD s.maps.length
          .empty = candidate.activeReceiveKeys := by
        have hlength : s.maps.length = (s.maps.set s.active .empty).length := List.length_set.symm
        rw [hlength, List.getD_eq_getElem?_getD, List.getElem?_concat_length]
        rfl
      refine ⟨h.settle hqueue _ rfl rfl ?_ ?_, fun _ => ⟨rfl, ?_⟩⟩
      · show s.maps.length < (s.maps.set s.active .empty ++ [candidate.activeReceiveKeys]).length
        rw [List.length_append, List.length_set]
        exact Nat.lt_succ_self _
      · show Within s.owed ((s.maps.set s.active .empty ++ [candidate.activeReceiveKeys]).getD
          s.maps.length .empty)
        rw [hmap]
        exact hwithin
      · show row.pq.map _ = some ((s.maps.set s.active .empty ++ [candidate.activeReceiveKeys]).getD
          s.maps.length .empty)
        rw [hmap]
        exact hrow

/-- A new call waits its turn. -/
theorem queue_enqueue {P : Phase → Prop} (hqueued : P .queued) (hhead : ∀ call ∈ s.queue.head?, P call.phase)
    (hrest : ∀ call ∈ s.queue.tail, call.phase = .queued) (request : Request) :
    (∀ call ∈ (s.enqueue request).queue.head?, P call.phase) ∧
      ∀ call ∈ (s.enqueue request).queue.tail, call.phase = .queued := by
  unfold EdgeCrypto.enqueue
  cases hqueue : s.queue with
  | nil =>
    refine ⟨fun other hother => ?_, fun other hother => absurd hother List.not_mem_nil⟩
    cases hother
    exact hqueued
  | cons call rest =>
    rw [hqueue] at hhead hrest
    refine ⟨hhead, fun other hother => ?_⟩
    rcases List.mem_append.mp hother with hother | hother
    · exact hrest other hother
    · rw [List.mem_singleton.mp hother]

theorem Kept.enqueue (h : Kept s) (request : Request) : Kept (s.enqueue request) :=
  have hqueue := queue_enqueue (P := fun phase => phase.Aligned s) trivial h.head h.rest request
  ⟨h.runtime, h.aliased, h.bound, h.within, hqueue.1, hqueue.2⟩

/-- An eviction leaves a mutation aligned that pins no keys. -/
theorem Phase.Aligned.evicted {phase : Phase} (h : phase.Aligned s) (hpins : ¬ phase.Pins)
    (howed : Within s'.owed s.owed) (hpq : s'.pq = s.pq) (cache : Nat) (evicted : List String) :
    (phase.wipe cache evicted).Aligned s' := by
  have hcandidate : ∀ {candidate}, Candidate s candidate → Candidate s' candidate :=
    fun hc => ⟨fun k v hget => hc.1 k v (howed k v hget), fun r hr => hc.2 r (hpq ▸ hr)⟩
  cases phase with
  | queued => trivial
  | mutating candidate => exact hcandidate h
  | staged work =>
    cases work with
    | encrypt _ _ _ _ => trivial
    | decrypt _ _ _ _ _ _ => exact absurd trivial hpins
    | forget _ _ _ _ => exact absurd trivial hpins
    | transition candidate _ => exact hcandidate h
  | writing work row =>
    cases work with
    | encrypt _ _ _ _ => exact absurd trivial hpins
    | decrypt _ _ _ _ _ _ => exact absurd trivial hpins
    | forget _ _ _ _ => exact absurd trivial hpins
    | transition candidate _ => exact ⟨hcandidate h.1, h.2⟩

theorem wipeKeys_nil (keys : KeyMap) : wipeKeys [] keys = keys := by
  apply OrdMap.ext
  show keys.entries.map _ = keys.entries
  simp

theorem wipe_nil (phase : Phase) (cache : Nat) : phase.wipe cache [] = phase := by
  unfold Phase.wipe
  split <;> simp only [wipeKeys_nil, ite_self]

/-- Nothing is evicted below the bound. -/
theorem evict_none (hcache : s.cache < s.maps.length) (hnone : evictions (s.map s.cache) = []) : s.evict = s := by
  have hmaps : s.maps.set s.cache (s.map s.cache) = s.maps := by
    unfold Live.map
    rw [List.getD_eq_getElem?_getD, List.getElem?_eq_getElem hcache]
    exact List.set_getElem_self hcache
  have hqueue : s.queue.map (fun call => { call with phase := call.phase.wipe s.cache [] }) = s.queue := by
    simp only [wipe_nil]
    exact List.map_id _
  unfold EdgeCrypto.evict
  simp only [hnone, List.map_nil, List.append_nil, hqueue, List.foldl_nil, Live.setMap,
    EdgeCrypto.withLive, hmaps]

theorem Kept.evict (h : Kept s)
    (hpins : evictions (s.map s.cache) ≠ [] → ∀ call ∈ s.queue.head?, ¬ call.phase.Pins) :
    Kept s.evict := by
  by_cases hnone : evictions (s.map s.cache) = []
  · rw [evict_none (h.aliased ▸ h.bound) hnone]
    exact h
  have howed : s.evict.owed =
      ((evictions (s.map s.cache)).map Entry.evicted).foldl Entry.owe s.owed := owed_append rfl
  have hmap : s.evict.map s.evict.active =
      (evictions (s.map s.cache)).foldl OrdMap.delete (s.map s.active) := by
    have hmaps : s.evict.maps = s.maps.set s.cache
        ((evictions (s.map s.cache)).foldl OrdMap.delete (s.map s.cache)) := rfl
    have hactive : s.evict.active = s.active := rfl
    unfold Live.map at hmaps ⊢
    rw [hmaps, hactive, h.aliased, List.getD_eq_getElem?_getD, List.getElem?_set_self h.bound]
    exact Option.getD_some
  obtain ⟨hboth, hless⟩ := within_evicted (evictions (s.map s.cache)) h.within
  refine ⟨h.runtime, h.aliased, ?_, ?_, fun other hother => ?_, evict_rest h.rest⟩
  · show s.active < (s.maps.set s.cache _).length
    rw [List.length_set]
    exact h.bound
  · rw [howed, hmap]
    exact hboth
  · have hhead : s.evict.queue.head? = s.queue.head?.map fun call =>
        { call with phase := call.phase.wipe s.cache (evictions (s.map s.cache)) } := List.head?_map
    rw [hhead] at hother
    obtain ⟨call, hcall, rfl⟩ := Option.map_eq_some_iff.mp hother
    have hless : Within s.evict.owed s.owed := by
      rw [howed]
      exact hless
    exact Phase.Aligned.evicted (h.head call hcall) (hpins hnone call hcall) hless rfl _ _

/-- A steady step keeps the invariant, and a committed one leaves the three in step. -/
theorem step_kept (h : Kept s) {event : Event} (hsteady : event.Steady s) :
    Kept (step L event s) ∧ (event.Commits s → Synced (step L event s)) := by
  cases event with
  | call request =>
    refine ⟨h.enqueue request, fun hcommits => ?_⟩
    cases hcommits.1
  | receive frame merkleRoot secretKey =>
    refine ⟨?_, fun hcommits => (by cases hcommits.1)⟩
    show Kept (s.receive frame merkleRoot secretKey)
    unfold EdgeCrypto.receive
    split
    · exact h
    · exact (h.evict hsteady).enqueue _
  | retire cacheKey => exact ⟨h.enqueue _, fun hcommits => (by cases hcommits.1)⟩
  | resume owner =>
    refine ⟨?_, fun hcommits => (by cases hcommits.1)⟩
    unfold step
    simp only
    split
    · exact h
    case h_2 call rest hqueue =>
      split
      case h_1 hphase =>
        exact h.begin hqueue (hsteady call (by rw [hqueue]; rfl) hphase)
      case h_2 hphase => exact h.mutated hqueue hphase
      case h_3 hphase => exact h.post hqueue hphase owner
      case h_4 => exact h
  | written write =>
    unfold step
    simp only
    split
    case h_1 hqueue =>
      refine ⟨h, fun hcommits => ?_⟩
      obtain ⟨-, call, -, -, hcall, -⟩ := hcommits
      rw [hqueue] at hcall
      cases hcall
    case h_2 call rest hqueue =>
      split
      case h_1 hphase =>
        obtain ⟨hkept, hsynced⟩ := h.answer hqueue hphase hsteady write
        exact ⟨hkept, fun hcommits => hsynced (Event.written.inj hcommits.1)⟩
      case h_2 hphase =>
        refine ⟨h, fun hcommits => ?_⟩
        obtain ⟨-, call', staged, row, hcall, hwriting⟩ := hcommits
        rw [hqueue] at hcall
        cases hcall
        exact absurd hwriting (hphase staged row)
  | crash => exact hsteady.elim

end Steps

theorem run_kept {s : EdgeCrypto} (events : List Event) (h : Kept s)
    (hsteady : Throughout L Event.Steady events s) : Kept (runAll L events s) := by
  induction events generalizing s with
  | nil => exact h
  | cons event events ih => exact ih (step_kept h hsteady.1).1 hsteady.2

/-- Along every steady run from an activated edge what is owed is in the live map, and
after every committed step the live map, the cache alias and the checkpoint are the same. -/
theorem receive_keys_kept {live : Live} (hruntime : live.pq.isSome = true)
    (haliased : live.cache = live.active) (hbound : live.active < live.maps.length)
    (events : List Event) (hsteady : Throughout L Event.Steady events (ofLive live)) :
    Within (runAll L events (ofLive live)).owed
        ((runAll L events (ofLive live)).map (runAll L events (ofLive live)).active) ∧
      ∀ event, event.Steady (runAll L events (ofLive live)) →
        event.Commits (runAll L events (ofLive live)) →
        Synced (step L event (runAll L events (ofLive live))) ∧
          Within (step L event (runAll L events (ofLive live))).owed
            ((step L event (runAll L events (ofLive live))).map
              (step L event (runAll L events (ofLive live))).active) := by
  have hstart : Kept (ofLive live) :=
    ⟨hruntime, haliased, hbound, fun _ _ hget => (by cases hget), fun _ hcall => (by cases hcall),
      fun _ hcall => (by cases hcall)⟩
  have hkept := run_kept events hstart hsteady
  refine ⟨hkept.within, fun event hsteady hcommits => ?_⟩
  obtain ⟨hkept', hsynced⟩ := @step_kept L _ hkept event hsteady
  exact ⟨hsynced hcommits, hkept'.within⟩

/-! ## A receive that waits for a transition -/

section Waiting

open HealingRefinement

/-- A runtime a day old, whose offer is due. -/
def dueRuntime : SparsePqHealingState := startRuntime sampleEdge sampleRoot 0 .initiator

/-- A connection with that runtime, at the start of a receiving chain. -/
def dueReceiver : Live where
  ratchet := sampleReceiving
  pq := some dueRuntime
  maps := [.empty]
  active := 0
  cache := 0

/-- The header of the first message of the chain. -/
def firstHeader : RatchetHeader := ⟨List.replicate 32 9, 0, 0⟩

/-- The key of the first message. -/
def firstKey : Bytes :=
  ((deriveMessageKey .transparent dueReceiver.ratchet firstHeader
    (some dueRuntime.currentMessageContext) []).map Prod.fst).getD []

/-- The first chunk of the first message, as the peer sealed it. -/
def firstChunk : Bytes := sealedChunk .transparent firstKey firstHeader 0 blankChunk blankRoot sampleNonce

theorem first_fits : HeaderFits firstHeader 0 :=
  ⟨List.length_replicate, Nat.zero_le _, Nat.zero_le _, Nat.zero_le _⟩

theorem first_derived : ∃ clone, deriveMessageKey .transparent dueReceiver.ratchet firstHeader
    (some dueRuntime.currentMessageContext) [] = some (firstKey, clone) := by
  have hsome : (deriveMessageKey .transparent dueReceiver.ratchet firstHeader
      (some dueRuntime.currentMessageContext) []).isSome = true := by decide +kernel
  obtain ⟨⟨key, clone⟩, hderive⟩ := Option.isSome_iff_exists.mp hsome
  refine ⟨clone, ?_⟩
  unfold firstKey
  rw [hderive]
  rfl

/-- The offer that is due runs on the clone. -/
theorem due_offers : ∃ frame candidate,
    ((Transition.offer [] sampleNonce PQ_HEAL_AFTER_MS).mutate .transparent).run dueRuntime =
        .ok ⟨some frame, true⟩ candidate ∧
      candidate.WellFormed ∧ candidate.activeReceiveKeys = .empty ∧ SameEdge candidate dueRuntime ∧
      candidate.resolveMessageContext 0 = some dueRuntime.currentMessageContext ∧
      candidate.messagesSinceHealing = 0 ∧ candidate.machine.phase ≠ .idle := by
  obtain ⟨pk, sk, hoffered⟩ := sample_offered []
  have hwf : dueRuntime.WellFormed := (sample_abs .initiator).wf
  have hmade := @SparsePqHealingState.WellFormed.offerMade _ _ hwf _ _ _ sampleNonce _ hoffered
    (by decide)
  refine ⟨_, _, @offer_run _ _ hwf _ _ _ sampleNonce _ hoffered (by decide), ?_, rfl, ?_, rfl, rfl,
    nofun⟩
  · exact hmade.dispatched rfl (Nat.succ_pos _) (by decide)
  · exact ⟨rfl, rfl, rfl, rfl⟩

/-- The chunk stages a receive on the wiped map. -/
theorem first_stages {candidate : SparsePqHealingState} {live : Live}
    (hcontext : candidate.resolveMessageContext 0 = some dueRuntime.currentMessageContext)
    (hpq : live.pq = some candidate) (hratchet : live.ratchet = dueReceiver.ratchet)
    (hmap : live.map 0 = .empty) :
    ∃ clone, stageDecrypt .transparent live 0 firstChunk blankRoot [] =
      .ok (.inl (.decrypt clone 0 (OrdMap.empty.set (cacheKey firstHeader.dhPub 0 0) firstKey)
        (cacheKey firstHeader.dhPub 0 0) firstKey ⟨some (withReceipt .transparent blankChunk), true, true⟩)) := by
  obtain ⟨clone, hderived⟩ := first_derived
  have hparse := @parse_sealedChunk .transparent firstHeader 0 sampleNonce blankRoot blankChunk firstKey
    first_fits
  have hkey : messageCacheKey firstHeader.dhPub firstHeader.N (some 0) =
      .ok (cacheKey firstHeader.dhPub 0 0) := messageCacheKey_eq (Nat.zero_le _)
  have hresolve : live.resolver = some fun epoch => .ok (candidate.resolveMessageContext epoch) := by
    unfold Live.resolver
    rw [hpq]
    rfl
  have hgate : gateEpoch live.resolver 0 dueReceiver.ratchet.rootSuite =
      some (some dueRuntime.currentMessageContext) := by
    rw [hresolve, gateEpoch]
    simp only [hcontext]
    rfl
  have hrun := @decryptMessageChunk_blank firstHeader 0 [] live.resolver _ _ (cloneRatchet dueReceiver.ratchet) clone
    .empty firstKey first_fits hgate (by rw [hresolve]; exact hkey) rfl hderived sampleNonce
  have hkey' : messageCacheKey firstHeader.dhPub firstHeader.N
      (if live.pq.isSome = true then some 0 else none) = .ok (cacheKey firstHeader.dhPub 0 0) := by
    rw [hpq]
    exact hkey
  have hparse' : parseChunkFrameHeader firstChunk = .ok _ := hparse
  refine ⟨clone, ?_⟩
  unfold stageDecrypt
  rw [hparse', ok_bind]
  unfold firstChunk
  simp only [hkey', ok_bind, hratchet, hmap, hrun, OrdMap.get_set_self]
  rw [hpq]
  rfl

/-- A transition has the lock when the chunk arrives; the transition commits, and then the
receive runs on the map it was given. -/
def waitingReceive (transition : Transition) (chunk merkleRoot : Bytes) : List Event :=
  [.call (.transition transition), .resume true, .receive chunk merkleRoot [], .resume true,
    .resume true, .written .done, .resume true, .resume true]

/-- Into an empty map a frame is received with nothing evicted. -/
theorem receive_empty {s : EdgeCrypto} {frame merkleRoot secretKey : Bytes} {parsed : ParsedChunkFrame}
    (hcache : s.cache < s.maps.length) (hmap : s.map s.cache = .empty)
    (hparse : parseChunkFrameHeader frame = .ok parsed) :
    s.receive frame merkleRoot secretKey = s.enqueue (.decrypt s.cache frame merkleRoot secretKey) := by
  have hnone : evictions (s.map s.cache) = [] := by
    rw [hmap]
    unfold evictions
    exact List.take_nil
  unfold EdgeCrypto.receive
  rw [hparse, evict_none hcache hnone]

theorem runAll_cons (event : Event) (events : List Event) (s : EdgeCrypto) :
    runAll L (event :: events) s = runAll L events (step L event s) := rfl

/-- A receive that gets the lock stages. -/
theorem resume_stages {s : EdgeCrypto} {call : Call} {rest : List Call} {cache : Nat}
    {frame merkleRoot secretKey : Bytes} {staged : Staged} (hqueue : s.queue = call :: rest)
    (hphase : call.phase = .queued) (hrequest : call.request = .decrypt cache frame merkleRoot secretKey)
    (hstages : stageDecrypt L s.toLive cache frame merkleRoot secretKey = .ok (.inl staged))
    (owner : Bool) : step L (.resume owner) s = s.advance call rest (.staged staged) := by
  unfold step
  simp only [hqueue, hphase]
  unfold EdgeCrypto.begin
  simp only [hrequest, hstages]

/-- Posting a row changes no live object. -/
theorem resume_posts {s : EdgeCrypto} {call : Call} {rest : List Call} {staged : Staged}
    (hqueue : s.queue = call :: rest) (hphase : call.phase = .staged staged) (owner : Bool) :
    (step L (.resume owner) s).toLive = s.toLive := by
  unfold step
  simp only [hqueue, hphase]
  unfold EdgeCrypto.post
  split <;> rfl

/-- The checkpoint of a row serializes. -/
theorem serializes_of_fits (ratchet : RatchetSessionSecrets) {r : SparsePqHealingState}
    (hwf : r.WellFormed) (hfit : KeysFit r.activeReceiveKeys) :
    Row.serializes ⟨ratchet, some r⟩ = true := by
  unfold Row.serializes
  simp only
  rw [serialize_eq hwf hfit.1 hfit.2]
  rfl

theorem keysFit_empty : KeysFit .empty := ⟨nofun, Nat.zero_le _⟩

/-- An edge whose transition has its clone, with the calls that came after it. -/
def cloned (ratchet : RatchetState) (r : SparsePqHealingState) (transition : Transition)
    (waiting : List Call) : EdgeCrypto :=
  { ofLive ⟨ratchet, some r, [.empty], 0, 0⟩ with
    queue := ⟨0, .transition transition, .mutating r⟩ :: waiting
    calls := 1 + waiting.length }

/-- An edge whose transition has committed and replaced the map, with the calls that came
after it. -/
def replaced (ratchet : RatchetState) (candidate : SparsePqHealingState) (dispatch : Option Bytes)
    (waiting : List Call) : EdgeCrypto :=
  { ratchet, pq := some candidate, maps := [.empty, .empty], active := 1, cache := 1
    row := ⟨serializeRatchet ratchet, some candidate⟩
    queue := waiting
    calls := 1 + waiting.length
    history := [.settled 0 (.transition dispatch) ratchet ⟨serializeRatchet ratchet, some candidate⟩] }

/-! What the calls do when nothing throws. -/

theorem begin_transition (s : EdgeCrypto) (call : Call) (rest : List Call) {transition : Transition}
    {live candidate : SparsePqHealingState} (hcall : call.request = .transition transition)
    (hlive : s.runtime = some live) (hclone : live.clone = .ok candidate) :
    s.begin L call rest = s.advance call rest (.mutating candidate) := by
  rw [begin, hcall]
  dsimp only
  rw [hlive]
  dsimp only
  rw [hclone]

theorem mutated_transition (s : EdgeCrypto) (call : Call) (rest : List Call) {transition : Transition}
    {candidate candidate' : SparsePqHealingState} {dispatch : Option Bytes}
    (hcall : call.request = .transition transition)
    (hmutate : (transition.mutate L).run candidate = .ok ⟨dispatch, true⟩ candidate') :
    s.mutated L call rest candidate = s.advance call rest (.staged (.transition candidate' dispatch)) := by
  rw [mutated, hcall]
  dsimp only
  rw [hmutate]
  rfl

theorem commit_transition (s : EdgeCrypto) (call : Call) (rest : List Call) (dispatch : Option Bytes)
    {live live' candidate : SparsePqHealingState} (hpq : s.pq = some live)
    (hadopt : (adopt candidate).run live = .ok () live') :
    s.commit call rest (.transition candidate dispatch) =
      (s.withLive { s.toLive with
        pq := some live'
        maps := s.maps.set s.active .empty ++ [candidate.activeReceiveKeys]
        active := s.maps.length
        cache := s.maps.length }).settle call rest (.transition dispatch) := by
  rw [commit, hpq]
  dsimp only
  rw [hadopt]

theorem counted_ok (s : EdgeCrypto) (call : Call) (rest : List Call) (outcome : Outcome)
    (failed : Live → Live) {live : Live} (hnote : s.toLive.noteApplicationMessage = .ok live) :
    s.counted call rest outcome failed = (s.withLive live).settle call rest outcome := by
  rw [counted, hnote]

section Transitions

variable {transition : Transition} {ratchet : RatchetState} {r candidate : SparsePqHealingState}
  {dispatch : Option Bytes}

theorem transition_clones
    (hclone : ({ r with activeReceiveKeys := .empty } : SparsePqHealingState).clone = .ok r) :
    step L (.resume true) ((ofLive ⟨ratchet, some r, [.empty], 0, 0⟩).enqueue (.transition transition)) =
      cloned ratchet r transition [] := by
  exact begin_transition (L := L) ((ofLive ⟨ratchet, some r, [.empty], 0, 0⟩).enqueue (.transition transition))
    ⟨0, .transition transition, .queued⟩ [] rfl rfl hclone

/-- The transition commits while other calls wait. -/
theorem transition_replaces (hmutate : (transition.mutate L).run r = .ok ⟨dispatch, true⟩ candidate)
    (hserializes : Row.serializes ⟨serializeRatchet ratchet, some candidate⟩ = true)
    (hsame : SameEdge candidate r) (hkeys : candidate.activeReceiveKeys = .empty)
    (waiting : List Call) :
    step L (.written .done) (step L (.resume true) (step L (.resume true)
      (cloned ratchet r transition waiting))) = replaced ratchet candidate dispatch waiting := by
  have hadopt := adopt_run hsame.pqMode hsame.rootSuite hsame.amInitiator hsame.binding
  have hmutated : step L (.resume true) (cloned ratchet r transition waiting) =
      { cloned ratchet r transition waiting with
        queue := ⟨0, .transition transition, .staged (.transition candidate dispatch)⟩ :: waiting } := by
    exact mutated_transition (cloned ratchet r transition waiting) ⟨0, .transition transition, .mutating r⟩
      waiting rfl hmutate
  have hposted : step L (.resume true) { cloned ratchet r transition waiting with
        queue := ⟨0, .transition transition, .staged (.transition candidate dispatch)⟩ :: waiting } =
      { cloned ratchet r transition waiting with
        queue := ⟨0, .transition transition, .writing (.transition candidate dispatch)
          ⟨serializeRatchet ratchet, some candidate⟩⟩ :: waiting } := if_pos ⟨rfl, hserializes⟩
  rw [hmutated, hposted]
  refine (commit_transition { cloned ratchet r transition waiting with
    queue := ⟨0, .transition transition, .writing (.transition candidate dispatch)
      ⟨serializeRatchet ratchet, some candidate⟩⟩ :: waiting
    row := ⟨serializeRatchet ratchet, some candidate⟩ } _ _ _ rfl hadopt).trans ?_
  unfold EdgeCrypto.settle EdgeCrypto.withLive
  simp only [hkeys]
  rfl

/-- The transition replaces the map while the receive waits. -/
theorem waiting_swaps {chunk merkleRoot : Bytes} {parsed : ParsedChunkFrame}
    (hclone : ({ r with activeReceiveKeys := .empty } : SparsePqHealingState).clone = .ok r)
    (hmutate : (transition.mutate L).run r = .ok ⟨dispatch, true⟩ candidate)
    (hserializes : Row.serializes ⟨serializeRatchet ratchet, some candidate⟩ = true)
    (hsame : SameEdge candidate r) (hkeys : candidate.activeReceiveKeys = .empty)
    (hparse : parseChunkFrameHeader chunk = .ok parsed) :
    runAll L [.call (.transition transition), .resume true, .receive chunk merkleRoot [], .resume true,
        .resume true, .written .done] (ofLive ⟨ratchet, some r, [.empty], 0, 0⟩) =
      replaced ratchet candidate dispatch [⟨1, .decrypt 0 chunk merkleRoot [], .queued⟩] := by
  have hbegin : step L (.resume true) (step L (.call (.transition transition))
      (ofLive ⟨ratchet, some r, [.empty], 0, 0⟩)) = cloned ratchet r transition [] :=
    transition_clones hclone
  have hreceive : step L (.receive chunk merkleRoot []) (cloned ratchet r transition []) =
      cloned ratchet r transition [⟨1, .decrypt 0 chunk merkleRoot [], .queued⟩] :=
    @receive_empty (cloned ratchet r transition []) chunk merkleRoot [] parsed Nat.zero_lt_one rfl hparse
  rw [runAll_cons, runAll_cons, hbegin, runAll_cons, hreceive]
  exact transition_replaces hmutate hserializes hsame hkeys _

end Transitions

/-- Then the receive stages on the wiped map, and its write goes out. -/
theorem waiting_posts {ratchet clone : RatchetState} {candidate : SparsePqHealingState} {row : Row}
    {history : List Entry} {chunk merkleRoot key : Bytes} {k : String} {result : DecryptedChunk}
    (hstages : stageDecrypt L ⟨ratchet, some candidate, [.empty, .empty], 1, 1⟩ 0 chunk merkleRoot [] =
      .ok (.inl (.decrypt clone 0 (OrdMap.empty.set k key) k key result)))
    (hserializes : Row.serializes ⟨serializeRatchet clone,
      some { candidate with activeReceiveKeys := OrdMap.empty.set k key }⟩ = true) :
    runAll L [.resume true, .resume true]
        { ratchet, pq := some candidate, maps := [.empty, .empty], active := 1, cache := 1, row
          queue := [⟨1, .decrypt 0 chunk merkleRoot [], .queued⟩]
          calls := 2, history } =
      { ratchet, pq := some candidate, maps := [.empty, .empty], active := 1, cache := 1, row
        queue := [⟨1, .decrypt 0 chunk merkleRoot [], .writing
          (.decrypt clone 0 (OrdMap.empty.set k key) k key result) ⟨serializeRatchet clone,
            some { candidate with activeReceiveKeys := OrdMap.empty.set k key }⟩⟩]
        calls := 2, history } := by
  rw [runAll_cons, @resume_stages L
    { ratchet, pq := some candidate, maps := [.empty, .empty], active := 1, cache := 1, row
      queue := [⟨1, .decrypt 0 chunk merkleRoot [], .queued⟩]
      calls := 2, history } _ _ _ _ _ _ _ rfl rfl rfl hstages true]
  exact if_pos ⟨rfl, hserializes⟩

/-- The answer publishes the key in the wiped map. -/
theorem waiting_commits {ratchet clone : RatchetState} {candidate : SparsePqHealingState} {row row' : Row}
    {history : List Entry} {chunk merkleRoot key : Bytes} {k : String} {result : DecryptedChunk}
    (hcount : candidate.messagesSinceHealing < MAX_SAFE_INTEGER) : ∃ r',
    step L (.written .done)
        { ratchet, pq := some candidate, maps := [.empty, .empty], active := 1, cache := 1, row
          queue := [⟨1, .decrypt 0 chunk merkleRoot [], .writing
            (.decrypt clone 0 (OrdMap.empty.set k key) k key result) row'⟩]
          calls := 2, history } =
      { ratchet := clone, pq := some r', maps := [OrdMap.empty.set k key, .empty], active := 1, cache := 1
        row := row', queue := [], calls := 2
        history := history ++ [.kept k key] ++ [.settled 1 (.chunk result) clone row'] } := by
  obtain ⟨r', hnote⟩ := @noteApplicationMessage_ok
    ⟨clone, some candidate, [OrdMap.empty.set k key, .empty], 1, 1⟩ candidate rfl hcount
  refine ⟨r', ?_⟩
  let call : Call := ⟨1, .decrypt 0 chunk merkleRoot [], .writing
    (.decrypt clone 0 (OrdMap.empty.set k key) k key result) row'⟩
  let published : EdgeCrypto := ⟨⟨clone, some candidate, [OrdMap.empty.set k key, .empty], 1, 1⟩, row', [call], 2,
    history ++ [.kept k key]⟩
  have hcounted := counted_ok published call [] (.chunk result)
    (fun live => live.setMap 0 ((live.map 0).set k (List.replicate key.length 0))) hnote
  exact hcounted

/-- A receive that waited for the lock while a transition committed: its own write
succeeds, its key is owed, and neither is the key in the live map nor does the live map
agree with the checkpoint. -/
theorem stale_receive_lost : ∃ s, s = runAll .transparent
      (waitingReceive (.offer [] sampleNonce PQ_HEAL_AFTER_MS) firstChunk blankRoot) (ofLive dueReceiver) ∧
    (Event.written .done).Commits s ∧
    ¬ Synced (step .transparent (.written .done) s) ∧
    ¬ Within (step .transparent (.written .done) s).owed
      ((step .transparent (.written .done) s).map (step .transparent (.written .done) s).active) := by
  obtain ⟨frame, candidate, hoffers, hwf, hkeys, hsame, hcontext, hcount, -⟩ := due_offers
  obtain ⟨clone, hstages⟩ := @first_stages candidate
    ⟨dueReceiver.ratchet, some candidate, [.empty, .empty], 1, 1⟩ hcontext rfl rfl rfl
  have hclone : dueRuntime.clone = .ok dueRuntime :=
    SparsePqHealingState.clone_eq (sample_abs .initiator).wf
  have hparse := @parse_sealedChunk .transparent firstHeader 0 sampleNonce blankRoot blankChunk firstKey
    first_fits
  have hfirst : KeysFit (OrdMap.empty.set (cacheKey firstHeader.dhPub 0 0) firstKey) := by
    refine ⟨fun entry hentry => ?_, by decide +kernel⟩
    rw [List.mem_singleton.mp hentry]
    decide +kernel
  have hrow := serializes_of_fits (serializeRatchet dueReceiver.ratchet) hwf (hkeys ▸ keysFit_empty)
  have hswaps := @waiting_swaps .transparent (.offer [] sampleNonce PQ_HEAL_AFTER_MS) dueReceiver.ratchet
    dueRuntime candidate (some frame) firstChunk blankRoot _ hclone hoffers hrow hsame hkeys hparse
  have hposts := @waiting_posts .transparent _ _ _ ⟨serializeRatchet dueReceiver.ratchet, some candidate⟩
    [.settled 0 (.transition (some frame)) dueReceiver.ratchet
      ⟨serializeRatchet dueReceiver.ratchet, some candidate⟩] _ _ _ _ _ hstages
    (serializes_of_fits _ (hwf.withKeys _) hfirst)
  have hsplit : ∀ (transition : Transition) (chunk merkleRoot : Bytes) (s : EdgeCrypto),
      runAll .transparent (waitingReceive transition chunk merkleRoot) s =
        runAll .transparent [.resume true, .resume true] (runAll .transparent
          [.call (.transition transition), .resume true, .receive chunk merkleRoot [], .resume true,
            .resume true, .written .done] s) := fun _ _ _ _ => rfl
  have hrun : runAll .transparent
      (waitingReceive (.offer [] sampleNonce PQ_HEAL_AFTER_MS) firstChunk blankRoot) (ofLive dueReceiver) = _ :=
    (hsplit _ _ _ _).trans ((congrArg _ hswaps).trans hposts)
  obtain ⟨r', hcommits⟩ := @waiting_commits .transparent dueReceiver.ratchet clone candidate
    ⟨serializeRatchet dueReceiver.ratchet, some candidate⟩ _ _ firstChunk blankRoot firstKey
    (cacheKey firstHeader.dhPub 0 0) _ (by rw [hcount]; decide)
  refine ⟨_, hrun.symm, ⟨rfl, _, _, _, rfl, rfl⟩, ?_, ?_⟩
  · rw [hcommits]
    rintro ⟨-, hrow⟩
    have hentries := congrArg (Option.map OrdMap.entries) hrow
    cases hentries
  · rw [hcommits]
    intro hwithin
    have howed : (OrdMap.empty.set (cacheKey firstHeader.dhPub 0 0) firstKey).get
      (cacheKey firstHeader.dhPub 0 0) = some firstKey := OrdMap.get_set_self _ _ _
    cases hwithin _ _ howed

/-- The same chunk with the lock free. -/
def promptReceive : List Event :=
  [.receive firstChunk blankRoot [], .resume true, .resume true, .written .done]

theorem receive_keys_kept_prompt :
    Throughout .transparent Event.Steady promptReceive (ofLive dueReceiver) ∧
      Within (runAll .transparent promptReceive (ofLive dueReceiver)).owed
        ((runAll .transparent promptReceive (ofLive dueReceiver)).map
          (runAll .transparent promptReceive (ofLive dueReceiver)).active) := by
  obtain ⟨clone, hstages⟩ := @first_stages dueRuntime dueReceiver rfl rfl rfl rfl
  have hparse := @parse_sealedChunk .transparent firstHeader 0 sampleNonce blankRoot blankChunk firstKey
    first_fits
  have hreceive : step .transparent (.receive firstChunk blankRoot []) (ofLive dueReceiver) =
      (ofLive dueReceiver).enqueue (.decrypt 0 firstChunk blankRoot []) :=
    @receive_empty (ofLive dueReceiver) firstChunk blankRoot [] _ Nat.zero_lt_one rfl hparse
  have hstaged := @resume_stages .transparent
    ((ofLive dueReceiver).enqueue (.decrypt 0 firstChunk blankRoot [])) _ [] _ _ _ _ _ rfl rfl rfl hstages true
  have hsteady : Throughout .transparent Event.Steady promptReceive (ofLive dueReceiver) := by
    refine ⟨fun hevicts => absurd List.take_nil hevicts, ?_⟩
    rw [hreceive]
    refine ⟨?_, ?_⟩
    · rintro call ⟨⟩ -
      rfl
    rw [hstaged]
    refine ⟨?_, ?_, trivial⟩
    · rintro call ⟨⟩ hphase
      cases hphase
    · rintro r hr
      rw [resume_posts rfl rfl] at hr
      cases hr
      decide
  exact ⟨hsteady, (receive_keys_kept rfl rfl Nat.zero_lt_one promptReceive hsteady).1⟩

end Waiting

end EdgeCrypto

end P2Party
