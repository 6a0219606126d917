import P2Party.Base.Simulation
import P2Party.Session.Replay

/-!
# Persistence of sessions (`session.ts`)

A session that was restored from its snapshot differs from the one that was serialized in the order
of its active receive keys only. No method sees that order, so the two behave alike from then on.
A snapshot holds 256 active receive keys and counters up to `MAX_SAFE_INTEGER`, while every message a
session decrypts adds a key that nothing removes: `serialize` succeeds exactly as long as they fit.

- `observe`, `outcomes`, `BehavesAs`: what a caller sees of a session, now and later;
- `Reordered`: runtimes and sessions that differ in the order of their keys;
- `Op.run_reordered`, `Reordered.behavesAs`: every call simulates itself on a reordered session;
- `session_persistence`: when a session of a run persists.
-/

namespace P2Party

open Base PqHealing PqHealingRuntime

/-! ## Runtimes with their keys in another order -/

namespace PqHealingRuntime

/-- Two runtimes that differ in the order of their active receive keys. -/
def Reordered (r r' : SparsePqHealingState) : Prop :=
  ∃ keys : OrdMap String Bytes, keys.entries.Perm r.activeReceiveKeys.entries ∧
    r' = { r with activeReceiveKeys := keys }

variable {L : LibCrypto} {α : Type}

/-- Code that reads its state and does not look at the order of the keys. -/
theorem read_reordered {f : SparsePqHealingState → RuntimeM α}
    (h : ∀ r keys, keys.entries.Perm r.activeReceiveKeys.entries →
      Simulates Reordered Reordered (f r) (f { r with activeReceiveKeys := keys })) :
    Simulates Reordered Reordered (get >>= f) (get >>= f) := by
  refine Simulates.read ?_
  rintro r _ ⟨keys, hkeys, rfl⟩
  exact (h r keys hkeys).mono (fun _ _ hrel => hrel.1) fun _ _ hrel => hrel

theorem change_reordered {f : SparsePqHealingState → SparsePqHealingState}
    (h : ∀ r keys, keys.entries.Perm r.activeReceiveKeys.entries →
      Reordered (f r) (f { r with activeReceiveKeys := keys })) {m n : RuntimeM α}
    (hm : Simulates Reordered Reordered m n) :
    Simulates Reordered Reordered (modify f >>= fun _ => m) (modify f >>= fun _ => n) := by
  refine Simulates.change ?_ hm
  rintro r _ ⟨keys, hkeys, rfl⟩
  exact h r keys hkeys

/-- The machine does not see the keys. -/
theorem onMachine_reordered (m : MachineM α) : Simulates Reordered Reordered (onMachine m) (onMachine m) := by
  refine Simulates.zoom (p := Eq) (q := Eq) ?_ ?_ ?_
  · rintro machine _ rfl
    cases m.run machine with
    | ok a machine' => exact ⟨rfl, rfl⟩
    | error e machine' => exact ⟨rfl, rfl⟩
  · rintro r _ ⟨keys, -, rfl⟩
    rfl
  · rintro r _ machine _ ⟨keys, hkeys, rfl⟩ rfl
    exact ⟨keys, hkeys, rfl⟩

theorem reordered_self : ∀ r r' : SparsePqHealingState, Reordered r r' → Reordered r r' := fun _ _ h => h

theorem markPendingDispatched_reordered (now : Nat) :
    Simulates Reordered Reordered (markPendingDispatched now) (markPendingDispatched now) := by
  unfold markPendingDispatched
  refine read_reordered fun r keys hkeys => ?_
  dsimp only
  cases r.outbox with
  | none => exact fun _ _ h => ⟨rfl, h⟩
  | some outbox =>
    refine Simulates.attempt reordered_self fun _ => Simulates.ensure reordered_self fun _ => ?_
    exact fun _ _ _ => ⟨rfl, keys, hkeys, rfl⟩

theorem prepareHealingOffer_reordered (coins : Bytes) (nonce : Nonce) (now : Nat) :
    Simulates Reordered Reordered (prepareHealingOffer L coins nonce now)
      (prepareHealingOffer L coins nonce now) := by
  unfold prepareHealingOffer prepareHealingOfferWith
  refine read_reordered fun r keys _ => ?_
  refine Simulates.attempt reordered_self fun due => Simulates.ensure reordered_self fun _ => ?_
  refine Simulates.bind reordered_self (onMachine_reordered _) fun record => ?_
  refine read_reordered fun r keys _ => Simulates.attempt reordered_self fun frame => ?_
  refine Simulates.bind reordered_self (onMachine_reordered _) fun _ => ?_
  refine change_reordered ?_ (Simulates.pure _ reordered_self)
  exact fun r keys hkeys => ⟨keys, hkeys, rfl⟩

theorem acceptAcknowledgement_reordered (record : Bytes) (now : Nat) :
    Simulates Reordered Reordered (acceptAcknowledgement record now) (acceptAcknowledgement record now) := by
  unfold acceptAcknowledgement
  refine read_reordered fun r keys _ => Simulates.ensure reordered_self fun _ => ?_
  refine Simulates.attempt reordered_self fun ack => ?_
  refine Simulates.bind reordered_self (onMachine_reordered _) fun _ => ?_
  refine change_reordered ?_ (Simulates.pure _ reordered_self)
  exact fun r keys hkeys => ⟨keys, hkeys, rfl⟩

theorem acceptOffer_reordered (frame record root coins : Bytes) (nonce : Nonce) (now : Nat) :
    Simulates Reordered Reordered (acceptOffer L false frame record root coins nonce now)
      (acceptOffer L false frame record root coins nonce now) := by
  unfold acceptOffer
  refine Simulates.bind reordered_self (onMachine_reordered _) fun _ => ?_
  refine Simulates.bind reordered_self (onMachine_reordered _) fun advance => ?_
  refine read_reordered fun r keys _ => Simulates.attempt reordered_self fun sealedAdvance => ?_
  refine Simulates.bind reordered_self (onMachine_reordered _) fun _ => ?_
  refine change_reordered ?_ (Simulates.pure _ reordered_self)
  exact fun r keys hkeys => ⟨keys, hkeys, rfl⟩

theorem acceptAdvance_reordered (frame record : Bytes) (nonce : Nonce) (now : Nat) :
    Simulates Reordered Reordered (acceptAdvance L false frame record nonce now)
      (acceptAdvance L false frame record nonce now) := by
  unfold acceptAdvance
  refine read_reordered fun r keys _ => Simulates.ensure reordered_self fun _ => ?_
  refine Simulates.bind reordered_self (onMachine_reordered _) fun _ => ?_
  refine Simulates.bind reordered_self (onMachine_reordered _) fun acknowledgement => ?_
  refine read_reordered fun r keys _ => Simulates.attempt reordered_self fun ackRecord => ?_
  refine Simulates.attempt reordered_self fun ackFrame => ?_
  refine Simulates.bind reordered_self (onMachine_reordered _) fun _ => ?_
  refine change_reordered ?_ (Simulates.pure _ reordered_self)
  exact fun r keys hkeys => ⟨keys, hkeys, rfl⟩

theorem acceptControlFrame_reordered (frame coins : Bytes) (nonce : Nonce) (now : Nat) :
    Simulates Reordered Reordered (acceptControlFrame L frame coins nonce now)
      (acceptControlFrame L frame coins nonce now) := by
  unfold acceptControlFrame acceptControlFrameWith
  refine read_reordered fun r keys _ => ?_
  refine Simulates.attempt reordered_self fun _ => Simulates.attempt reordered_self fun _ => ?_
  refine Simulates.ite (fun _ => Simulates.pure _ reordered_self) fun _ => ?_
  refine Simulates.ite (fun _ => Simulates.pure _ reordered_self) fun _ => ?_
  refine Simulates.attempt reordered_self fun record => ?_
  refine Simulates.ite (fun _ => acceptAcknowledgement_reordered record now) fun _ => ?_
  refine Simulates.attempt reordered_self fun inspected => ?_
  cases inspected with
  | offer _ _ => exact acceptOffer_reordered frame record _ coins nonce now
  | advance _ _ => exact acceptAdvance_reordered frame record nonce now

/-- The keys are written in one order, whatever theirs is. -/
theorem sortedEntries_reordered {keys keys' : OrdMap String Bytes}
    (h : keys'.entries.Perm keys.entries) : sortedEntries keys' = sortedEntries keys := by
  have hsorted : ∀ m : OrdMap String Bytes,
      (sortedEntries m).Pairwise fun left right => decide (left.1 ≤ right.1) = true := by
    intro m
    refine List.pairwise_mergeSort ?_ ?_ _
    · intro a b c hab hbc
      exact decide_eq_true (String.le_trans (of_decide_eq_true hab) (of_decide_eq_true hbc))
    · intro a b
      simp only [Bool.or_eq_true, decide_eq_true_eq]
      exact String.le_total a.1 b.1
  have hperm : (sortedEntries keys').Perm (sortedEntries keys) :=
    ((sortedEntries_perm keys').trans h).trans (sortedEntries_perm keys).symm
  refine hperm.eq_of_pairwise (fun a b ha hb hab hba => ?_) (hsorted keys') (hsorted keys)
  have hname : a.1 = b.1 := String.le_antisymm (of_decide_eq_true hab) (of_decide_eq_true hba)
  have hain : a ∈ keys.entries := (sortedEntries_perm keys).mem_iff.mp (hperm.mem_iff.mp ha)
  exact List.inj_on_of_nodup_map keys.nodup hain ((sortedEntries_perm keys).mem_iff.mp hb) hname

/-- A checkpoint does not depend on the order of the keys. -/
theorem serialize_reordered {r : SparsePqHealingState} {keys : OrdMap String Bytes}
    (h : keys.entries.Perm r.activeReceiveKeys.entries) :
    SparsePqHealingState.serialize { r with activeReceiveKeys := keys } keys =
      r.serialize r.activeReceiveKeys := by
  have hsize : keys.size = r.activeReceiveKeys.size := h.length_eq
  unfold SparsePqHealingState.serialize writeCheckpoint writeActiveKeys
  rw [hsize, sortedEntries_reordered h]
  rfl

end PqHealingRuntime

namespace Session

variable {L : LibCrypto} {α : Type}

/-! ## Staged copies with their keys in another order -/

/-- Staged copies that differ in the order of their keys. -/
def StagedReordered (a b : ChunkReceiver) : Prop :=
  b.state = a.state ∧ b.cache.entries.Perm a.cache.entries

theorem staged_self : ∀ a b : ChunkReceiver, StagedReordered a b → StagedReordered a b := fun _ _ h => h

theorem decryptMessageChunk_reordered (frame root : Bytes) (resolver : Option PqMessageKeyContextResolver)
    (secretKey : Bytes) :
    Simulates StagedReordered StagedReordered (decryptMessageChunk L frame root resolver secretKey)
      (decryptMessageChunk L frame root resolver secretKey) := by
  unfold decryptMessageChunk
  refine Simulates.ensure staged_self fun _ => Simulates.attempt staged_self fun parsed => ?_
  refine Simulates.read fun a b hab => ?_
  obtain ⟨hstate, hcache⟩ := hab
  rw [hstate]
  refine Simulates.mono ?_ (fun _ _ h => h.1) fun _ _ h => h
  cases gateEpoch resolver parsed.pqEpoch a.state.rootSuite with
  | none => exact Simulates.pure _ staged_self
  | some pqContext =>
    refine Simulates.attempt staged_self fun cacheK => ?_
    rw [OrdMap.get_eq_of_perm hcache]
    cases a.cache.get cacheK with
    | some cached => exact Simulates.pure _ staged_self
    | none =>
      cases deriveMessageKey L a.state parsed.header pqContext secretKey with
      | none => exact Simulates.pure _ staged_self
      | some derived =>
        refine Simulates.ite (fun _ => Simulates.pure _ staged_self) fun _ => ?_
        exact fun _ _ _ => ⟨rfl, rfl, OrdMap.set_perm hcache _ _⟩

theorem decryptFrames_reordered (resolver : PqMessageKeyContextResolver) (root : Bytes)
    (secretKey : Nat → RandomBytes 32) (frames : List (Bytes × Nat)) :
    Simulates StagedReordered StagedReordered (decryptFrames L resolver root secretKey frames)
      (decryptFrames L resolver root secretKey frames) := by
  induction frames with
  | nil => exact Simulates.pure _ staged_self
  | cons p frames ih =>
    obtain ⟨frame, k⟩ := p
    rw [decryptFrames]
    refine Simulates.bind staged_self (decryptMessageChunk_reordered frame root _ _) fun result => ?_
    split
    · refine Simulates.attempt staged_self fun metadata => ?_
      exact Simulates.bind staged_self ih fun records => Simulates.pure _ staged_self
    · exact fun _ _ h => ⟨rfl, h⟩

/-! ## Sessions with their keys in another order -/

/-- Two sessions that differ in the order of their active receive keys. -/
def Reordered (s t : Session) : Prop :=
  ∃ keys : OrdMap String Bytes, keys.entries.Perm s.pq.activeReceiveKeys.entries ∧
    t = { s with pq := { s.pq with activeReceiveKeys := keys } }

theorem session_self : ∀ s t : Session, Reordered s t → Reordered s t := fun _ _ h => h

theorem readSession_reordered {f : Session → SessionM α}
    (h : ∀ s keys, keys.entries.Perm s.pq.activeReceiveKeys.entries →
      Simulates Reordered Reordered (f s) (f { s with pq := { s.pq with activeReceiveKeys := keys } })) :
    Simulates Reordered Reordered (get >>= f) (get >>= f) := by
  refine Simulates.read ?_
  rintro s _ ⟨keys, hkeys, rfl⟩
  exact (h s keys hkeys).mono (fun _ _ hrel => hrel.1) fun _ _ hrel => hrel

theorem assertLive_reordered : Simulates Reordered Reordered assertLive assertLive := by
  rintro s _ ⟨keys, hkeys, rfl⟩
  unfold assertLive
  rw [run_get_bind, run_get_bind, run_ensure, run_ensure]
  split
  · exact ⟨rfl, keys, hkeys, rfl⟩
  · exact ⟨rfl, keys, hkeys, rfl⟩

theorem onPq_reordered {m : RuntimeM α}
    (hm : Simulates PqHealingRuntime.Reordered PqHealingRuntime.Reordered m m) :
    Simulates Reordered Reordered (onPq m) (onPq m) := by
  refine Simulates.zoom hm ?_ ?_
  · rintro s _ ⟨keys, hkeys, rfl⟩
    exact ⟨keys, hkeys, rfl⟩
  · rintro s _ r _ ⟨_, _, rfl⟩ ⟨keys, hkeys, rfl⟩
    exact ⟨keys, hkeys, rfl⟩

/-- Adopting reordered keys leaves reordered sessions. -/
theorem adoptAndCount_reordered (next : RatchetState) {keys keys' : OrdMap String Bytes}
    (h : keys'.entries.Perm keys.entries) :
    Simulates Reordered Reordered (adoptAndCount next keys) (adoptAndCount next keys') := by
  rintro s _ ⟨_, _, rfl⟩
  rw [adoptAndCount_run, adoptAndCount_run]
  dsimp only
  split
  · exact ⟨rfl, keys', h, rfl⟩
  · exact ⟨rfl, keys', h, rfl⟩

theorem encrypt_reordered (plaintext : Bytes) (ρ : EncryptRandomness) :
    Simulates Reordered Reordered (encrypt L plaintext ρ) (encrypt L plaintext ρ) := by
  unfold encrypt
  refine Simulates.bind session_self assertLive_reordered fun _ => ?_
  refine readSession_reordered fun s keys hkeys => ?_
  refine Simulates.ensure session_self fun _ => Simulates.ensure session_self fun _ => ?_
  refine Simulates.attempt session_self fun sent => ?_
  exact Simulates.bind session_self (adoptAndCount_reordered _ hkeys) fun _ => Simulates.pure _ session_self

/-- Opening a message on reordered keys gives the same plaintext and reordered staged copies. -/
theorem openMessage_reordered {s : Session} {keys : OrdMap String Bytes}
    (hkeys : keys.entries.Perm s.pq.activeReceiveKeys.entries) (message : EncryptedSessionMessage)
    (secretKey : Nat → RandomBytes 32) :
    (∃ e, openMessage L s message secretKey = .error e ∧
      openMessage L { s with pq := { s.pq with activeReceiveKeys := keys } } message secretKey = .error e) ∨
    ∃ plaintext staged staged', openMessage L s message secretKey = .ok (plaintext, staged) ∧
      openMessage L { s with pq := { s.pq with activeReceiveKeys := keys } } message secretKey =
        .ok (plaintext, staged') ∧ StagedReordered staged staged' := by
  have hframes := @decryptFrames_reordered L s.resolver message.root secretKey message.frames.zipIdx
    ⟨cloneRatchet s.state, s.pq.activeReceiveKeys⟩ ⟨cloneRatchet s.state, keys⟩ ⟨rfl, hkeys⟩
  have hresolver : Session.resolver { s with pq := { s.pq with activeReceiveKeys := keys } } = s.resolver := rfl
  unfold openMessage
  rw [hresolver]
  dsimp only
  cases message.frames.mapM parseChunkFrameHeader with
  | error e => exact Or.inl ⟨e, rfl, rfl⟩
  | ok parsed =>
    simp only [ok_bind]
    cases checkHeaders parsed with
    | error e => exact Or.inl ⟨e, rfl, rfl⟩
    | ok _ =>
      simp only [ok_bind]
      cases hx : (decryptFrames L s.resolver message.root secretKey message.frames.zipIdx).run
          ⟨cloneRatchet s.state, s.pq.activeReceiveKeys⟩ <;>
        cases hy : (decryptFrames L s.resolver message.root secretKey message.frames.zipIdx).run
          ⟨cloneRatchet s.state, keys⟩ <;> rw [hx, hy] at hframes
      case ok.ok records staged records' staged' =>
        obtain ⟨rfl, hstaged⟩ := hframes
        dsimp only
        cases validateAndJoinRecords L records with
        | error e => exact Or.inl ⟨e, rfl, rfl⟩
        | ok plaintext => exact Or.inr ⟨plaintext, staged, staged', rfl, rfl, hstaged⟩
      case ok.error => exact hframes.elim
      case error.ok => exact hframes.elim
      case error.error e staged e' staged' =>
        obtain ⟨rfl, -⟩ := hframes
        exact Or.inl ⟨e, rfl, rfl⟩

theorem decrypt_reordered (message : EncryptedSessionMessage) (secretKey : Nat → RandomBytes 32) :
    Simulates Reordered Reordered (decrypt L message secretKey) (decrypt L message secretKey) := by
  unfold decrypt
  refine Simulates.attempt session_self fun _ => ?_
  refine Simulates.bind session_self assertLive_reordered fun _ => ?_
  refine readSession_reordered fun s keys hkeys => ?_
  rcases @openMessage_reordered L s keys hkeys message secretKey with
    ⟨e, herr, herr'⟩ | ⟨plaintext, staged, staged', hopen, hopen', hstate, hcache⟩
  · rw [herr, herr']
    exact fun _ _ h => ⟨rfl, h⟩
  · have hadopt := @adoptAndCount_reordered staged.state _ _ (OrdMap.merge_perm hkeys hcache)
    rw [hopen, hopen']
    refine fun s₁ t₁ h => Simulates.bind session_self ?_ (fun _ => Simulates.pure plaintext session_self) s₁ t₁ h
    rw [hstate]
    exact hadopt

theorem prepareHealing_reordered (coins : Bytes) (nonce : Nonce) (due now dispatched : Instant) :
    Simulates Reordered Reordered (prepareHealing L coins nonce due now dispatched)
      (prepareHealing L coins nonce due now dispatched) := by
  unfold prepareHealing prepareHealingWith
  refine Simulates.bind session_self assertLive_reordered fun _ => ?_
  refine readSession_reordered fun s keys _ => Simulates.attempt session_self fun isDue => ?_
  refine Simulates.ite (fun _ => ?_) fun _ => Simulates.pure _ session_self
  refine Simulates.bind session_self (onPq_reordered (prepareHealingOffer_reordered coins nonce _)) fun frame => ?_
  refine Simulates.bind session_self (onPq_reordered (markPendingDispatched_reordered _)) fun _ => ?_
  exact Simulates.pure _ session_self

theorem acceptControlFrame_reordered (frame coins : Bytes) (nonce : Nonce) (now dispatched : Instant) :
    Simulates Reordered Reordered (acceptControlFrame L frame coins nonce now dispatched)
      (acceptControlFrame L frame coins nonce now dispatched) := by
  unfold acceptControlFrame acceptControlFrameWith
  refine Simulates.attempt session_self fun _ => ?_
  refine Simulates.bind session_self assertLive_reordered fun _ => ?_
  refine Simulates.bind session_self
    (onPq_reordered (PqHealingRuntime.acceptControlFrame_reordered frame coins nonce _)) fun result => ?_
  refine readSession_reordered fun s keys _ => ?_
  refine Simulates.ite (fun _ => ?_) fun _ => Simulates.pure _ session_self
  refine Simulates.bind session_self (onPq_reordered (markPendingDispatched_reordered _)) fun _ => ?_
  exact Simulates.pure _ session_self

theorem pendingControl_reordered : Simulates Reordered Reordered pendingControl pendingControl := by
  unfold pendingControl
  refine Simulates.bind session_self assertLive_reordered fun _ => ?_
  exact readSession_reordered fun s keys _ => Simulates.pure _ session_self

/-- A snapshot does not depend on the order of the keys. -/
theorem serialize_reordered : Simulates Reordered Reordered serialize serialize := by
  unfold serialize
  refine Simulates.bind session_self assertLive_reordered fun _ => ?_
  refine readSession_reordered fun s keys hkeys => ?_
  have hsame : encodeSessionSnapshot s.state { s.pq with activeReceiveKeys := keys } s.amInitiator =
      encodeSessionSnapshot s.state s.pq s.amInitiator := by
    unfold encodeSessionSnapshot
    rw [PqHealingRuntime.serialize_reordered hkeys]
  rw [hsame]
  rintro s₁ t₁ h
  cases encodeSessionSnapshot s.state s.pq s.amInitiator with
  | error e => exact ⟨rfl, h⟩
  | ok snapshot => exact ⟨rfl, h⟩

/-! ## What a caller sees -/

/-- `pqEpoch` (session.ts:570-573). -/
def pqEpoch (s : Session) : Except JsError Nat := do
  demand (s.destroyed = false) (.error "session: session is destroyed")
  return s.pq.epoch

/-- What a caller can read off a session between two calls. -/
structure Observation where
  pqEpoch : Except JsError Nat
  canEncrypt : Bool
  healingInProgress : Bool
  pendingControl : Option Bytes

def observe (s : Session) : Observation :=
  ⟨s.pqEpoch, s.canEncrypt, s.healingInProgress, s.pq.copyPendingFrame⟩

/-- What calls give their caller, one after another, with what can be read off the session after
each of them. -/
def outcomes (L : LibCrypto) : List Op → Session → List (Outcome × Observation)
  | [], _ => []
  | op :: ops, s => ((op.run L s).1, (op.run L s).2.observe) :: outcomes L ops (op.run L s).2

/-- Two sessions that no sequence of calls tells apart. -/
structure BehavesAs (L : LibCrypto) (s t : Session) : Prop where
  observed : t.observe = s.observe
  outcomes : ∀ ops, outcomes L ops t = outcomes L ops s

theorem Reordered.observe {s t : Session} (h : Reordered s t) : t.observe = s.observe := by
  obtain ⟨keys, -, rfl⟩ := h
  rfl

/-- Runs that end alike give one outcome. -/
theorem outcomeOf_alike {R : Session → Session → Prop} (wrap : α → Outcome)
    {x y : EStateM.Result JsError Session α} (h : Alike R x y) :
    (outcomeOf wrap y).1 = (outcomeOf wrap x).1 ∧ R (outcomeOf wrap x).2 (outcomeOf wrap y).2 := by
  cases x <;> cases y
  case ok.ok => exact ⟨congrArg wrap h.1.symm, h.2⟩
  case ok.error => exact h.elim
  case error.ok => exact h.elim
  case error.error => exact ⟨congrArg Outcome.rejected h.1.symm, h.2⟩

/-- Every call simulates itself on a reordered session. -/
theorem Op.run_reordered {s t : Session} (h : Reordered s t) (op : Op) :
    (op.run L t).1 = (op.run L s).1 ∧ Reordered (op.run L s).2 (op.run L t).2 := by
  unfold Op.run
  cases op with
  | encrypt plaintext ρ => exact outcomeOf_alike _ (encrypt_reordered plaintext ρ s t h)
  | decrypt message secretKey => exact outcomeOf_alike _ (decrypt_reordered message secretKey s t h)
  | prepareHealing coins nonce due now dispatched =>
    exact outcomeOf_alike _ (prepareHealing_reordered coins nonce due now dispatched s t h)
  | acceptControlFrame frame coins nonce now dispatched =>
    exact outcomeOf_alike _ (acceptControlFrame_reordered frame coins nonce now dispatched s t h)
  | pendingControl => exact outcomeOf_alike _ (pendingControl_reordered s t h)
  | serialize => exact outcomeOf_alike _ (serialize_reordered s t h)

theorem Reordered.behavesAs {s t : Session} (h : Reordered s t) : BehavesAs L s t := by
  refine ⟨h.observe, fun ops => ?_⟩
  induction ops generalizing s t with
  | nil => rfl
  | cons op ops ih =>
    obtain ⟨hsame, hrest⟩ := op.run_reordered (L := L) h
    rw [Session.outcomes, Session.outcomes, hsame, hrest.observe, ih hrest]

/-! ## Persistence -/

/-- `serialize` succeeds, and what `restoreSession` makes of the snapshot behaves as the session. -/
def Persists (L : LibCrypto) (s : Session) : Prop :=
  ∃ snapshot restored, serialize.run s = .ok snapshot s ∧ restoreSession snapshot = .ok restored ∧
    BehavesAs L s restored

theorem WellFormed.persists_iff {s : Session} (h : s.WellFormed) : Persists L s ↔ s.SnapshotFits := by
  constructor
  · rintro ⟨snapshot, restored, hserialize, -⟩
    by_contra hnot
    obtain ⟨e, herr⟩ := (serialize_run h).2 hnot
    rw [herr] at hserialize
    cases hserialize
  · intro hfits
    have hreordered : Reordered s s.sorted := ⟨_, sortedEntries_perm s.pq.activeReceiveKeys, rfl⟩
    exact ⟨s.snapshotBytes, s.sorted, (serialize_run h).1 hfits, restoreSession_encode h hfits,
      hreordered.behavesAs⟩

/-- A session reached from a created one persists exactly when it holds at most 256 active receive
keys and its three ratchet counters are safe integers. -/
theorem session_persistence {s₀ s : Session} (hcreated : Created L s₀) (hruns : Runs (Step L) s₀ s) :
    Persists L s ↔ s.SnapshotFits :=
  (wellFormed_of_runs hcreated.wellFormed hruns).persists_iff

/-! ## A reader of many messages -/

/-- A message was sealed under its sender's header. -/
theorem encrypt_sealed {s s' : Session} {plaintext : Bytes} {ρ : EncryptRandomness}
    {message : EncryptedSessionMessage} (h : s.WellFormed) (hsize : plaintext.length ≤ MAX_SAFE_INTEGER)
    (hrun : (encrypt L plaintext ρ).run s = .ok message s') :
    ∃ key cell, SealedAs L plaintext s.state.header s.epoch key ρ.nonce message cell := by
  rcases @encrypt_cases L s plaintext ρ with ⟨e, herr⟩ | ⟨hlive, hfree, hchain, message', next, hseal⟩
  · rw [herr] at hrun
    cases hrun
  · obtain ⟨messageKey, cell, -, hsealed⟩ := sealMessage_sealed h hsize hseal
    rw [encrypt_run hlive hfree hchain hseal] at hrun
    split at hrun
    · cases hrun
      exact ⟨_, cell, hsealed⟩
    · cases hrun

/-- A message opens under the name of the header it was sealed under. -/
theorem Opens.name_eq {message : EncryptedSessionMessage} {epoch epoch' : Nat} {name : String}
    {key key' plaintext plaintext' : Bytes} {header : RatchetHeader} {nonce : Nat → Nonce}
    {cell : Nat → Bytes} (h : Opens L message epoch name key plaintext)
    (hsealed : SealedAs L plaintext' header epoch' key' nonce message cell) :
    name = cacheKey header.dhPub header.N epoch := by
  obtain ⟨records, hframes, -⟩ := h.records
  obtain ⟨-, hne⟩ := checkMessage_ok h.checks
  have hcells := hsealed.frames_eq
  obtain ⟨frame, rest, hcons⟩ := List.exists_cons_of_ne_nil hne
  rw [hcons, List.zipIdx_cons] at hframes
  obtain ⟨_, _, ⟨⟨parsed, hparse, -, rfl⟩, -⟩, -, -⟩ := List.forall₂_cons_left_iff.mp hframes
  have hmem : frame ∈ message.frames := by
    rw [hcons]
    exact List.mem_cons_self
  rw [hcells] at hmem
  obtain ⟨i, -, rfl⟩ := List.mem_map.mp hmem
  obtain ⟨ciphertext, hparse'⟩ := hsealed.parses i
  rw [Except.ok.inj (hparse.symm.trans hparse')]

/-- A writer and a reader after `n` messages one way: the reader holds a key of each of them. -/
structure AfterMessages (L : LibCrypto) (pub : Bytes) (n : Nat) (writer reader : Session) : Prop where
  synchronised : Synchronised L writer reader
  writerPub : writer.state.dhSelfPub = pub
  readerPub : reader.state.dhRemotePub = some pub
  Ns : writer.state.Ns = n
  PN : writer.state.PN = 0
  sent : writer.pq.messagesSinceHealing = n
  read : reader.pq.messagesSinceHealing = n
  held : ∀ i < n, ∃ epoch key, reader.Holds (cacheKey pub i epoch) key

/-- One more message. -/
theorem AfterMessages.next {pub : Bytes} {n : Nat} {writer reader : Session}
    (h : AfterMessages L pub n writer reader) (haead : L.AeadLaws) (hdh : L.DhLaws) (hn : n < MAX_SAFE_INTEGER) :
    ∃ writer' reader', Step L reader reader' ∧ AfterMessages L pub (n + 1) writer' reader' := by
  have hcount : writer.CanCount := by
    rw [CanCount, h.sent]
    exact hn
  have hroom : reader.CanCount := by
    rw [CanCount, h.read]
    exact hn
  have hsend : writer.CanSend := by
    refine ⟨?_, ?_, hcount⟩
    · rw [h.Ns]
      exact Nat.le_of_lt hn
    · rw [h.PN]
      exact Nat.zero_le _
  obtain ⟨message, messageKey, writer', hencrypt, hsent, hsentCount, hdecrypts⟩ :=
    @Synchronised.roundTrip _ [] _ _ sampleRandomness h.synchronised haead hdh (Nat.zero_le _)
      (sample_nonces (by decide)) hsend hroom
  obtain ⟨reader', hdecrypt, hread⟩ := hdecrypts message.frames (List.Perm.refl _) fun _ => default
  have hsync : Synchronised L writer' reader' := by
    refine hread.synchronised fun hne => absurd ?_ hne
    rw [h.readerPub, h.writerPub]
  obtain ⟨chainKey, -, -, hwriter⟩ := hsent.step
  have hpub : writer'.state.dhSelfPub = pub := by
    rw [hwriter]
    exact h.writerPub
  refine ⟨writer', reader', ⟨.decrypt message fun _ => default, ?_⟩, hsync, hpub, ?_, ?_, ?_, ?_, ?_, ?_⟩
  · rw [Op.run, hdecrypt]
    rfl
  · rw [hread.ratchet.remote, hpub]
  · rw [hwriter]
    exact congrArg (· + 1) h.Ns
  · rw [hwriter]
    exact h.PN
  · rw [hsentCount, h.sent]
  · rw [hread.counted, h.read]
  · intro i hi
    obtain ⟨name, key, hopens, hheld⟩ := decrypt_opens hdecrypt
    rcases Nat.lt_succ_iff_lt_or_eq.mp hi with hlt | rfl
    · obtain ⟨epoch, key', hold⟩ := h.held i hlt
      have hstill := decrypt_holds (L := L) hold message fun _ => default
      rw [hdecrypt] at hstill
      exact ⟨epoch, key', hstill⟩
    · obtain ⟨sealKey, cell, hsealed⟩ := encrypt_sealed h.synchronised.left (Nat.zero_le _) hencrypt
      have hname := hopens.name_eq hsealed
      rw [show writer.state.header.dhPub = pub from h.writerPub,
        show writer.state.header.N = i from h.Ns] at hname
      exact ⟨_, key, hname ▸ hheld⟩

/-- Any number of messages, as far as the counters go. -/
theorem AfterMessages.many {pub : Bytes} {writer reader : Session} (h : AfterMessages L pub 0 writer reader)
    (haead : L.AeadLaws) (hdh : L.DhLaws) {n : Nat} (hn : n ≤ MAX_SAFE_INTEGER) :
    ∃ writer' reader', Runs (Step L) reader reader' ∧ AfterMessages L pub n writer' reader' := by
  induction n with
  | zero => exact ⟨writer, reader, .refl, h⟩
  | succ n ih =>
    obtain ⟨writer₁, reader₁, hruns, hafter⟩ := ih (Nat.le_of_succ_le hn)
    obtain ⟨writer₂, reader₂, hstep, hnext⟩ := hafter.next haead hdh hn
    exact ⟨writer₂, reader₂, hruns.tail hstep, hnext⟩

/-- The reader holds as many keys as it has read messages. -/
theorem AfterMessages.size_le {pub : Bytes} {n : Nat} {writer reader : Session}
    (h : AfterMessages L pub n writer reader) : n ≤ reader.pq.activeReceiveKeys.size := by
  have hnames : ∀ i, ∃ epoch, i < n → cacheKey pub i epoch ∈ reader.pq.activeReceiveKeys.keys := by
    intro i
    by_cases hi : i < n
    · obtain ⟨epoch, key, hheld⟩ := h.held i hi
      exact ⟨epoch, fun _ => OrdMap.mem_keys_of_get hheld⟩
    · exact ⟨0, fun hlt => absurd hlt hi⟩
  choose epoch hnames using hnames
  have hnodup : ((List.range n).map fun i => cacheKey pub i (epoch i)).Nodup :=
    List.nodup_range.map fun i j hij => (cacheKey_inj.mp hij).2.1
  have hsub : ∀ name ∈ (List.range n).map (fun i => cacheKey pub i (epoch i)),
      name ∈ reader.pq.activeReceiveKeys.keys := by
    intro name hname
    obtain ⟨i, hi, rfl⟩ := List.mem_map.mp hname
    exact hnames i (List.mem_range.mp hi)
  have hlength := (List.subperm_of_subset hnodup hsub).length_le
  rw [List.length_map, List.length_range, OrdMap.length_keys] at hlength
  exact hlength

/-! ## The sample handshake -/

theorem sample_afterMessages : AfterMessages LibCrypto.transparent
    (LibCrypto.transparent.x25519Base (sampleSecret 1)) 0 (sampleSession LibCrypto.transparent .initiator)
    (sampleSession LibCrypto.transparent .responder) :=
  ⟨sample_synchronised, rfl, rfl, rfl, rfl, rfl, rfl, fun i hi => absurd hi (Nat.not_lt_zero i)⟩

/-- After 257 messages of the initiator of the sample handshake, the responder can be serialized no
more. -/
theorem many_messages_not_persisted :
    Created LibCrypto.transparent (sampleSession LibCrypto.transparent .responder) ∧
    ∃ writer reader, Runs (Step LibCrypto.transparent) (sampleSession LibCrypto.transparent .responder) reader ∧
      AfterMessages LibCrypto.transparent (LibCrypto.transparent.x25519Base (sampleSecret 1)) 257 writer reader ∧
      (∃ e, serialize.run reader = .error e reader) ∧ ¬ Persists LibCrypto.transparent reader := by
  have hcreated := sampleSession_created LibCrypto.transparent_dhLaws .responder
  obtain ⟨writer, reader, hruns, hafter⟩ := sample_afterMessages.many LibCrypto.transparent_aeadLaws
    LibCrypto.transparent_dhLaws (show 257 ≤ MAX_SAFE_INTEGER by decide)
  have hwf := wellFormed_of_runs hcreated.wellFormed hruns
  have hmany : ¬ reader.SnapshotFits := fun hfits =>
    absurd (Nat.le_trans hafter.size_le hfits.keys) (by decide)
  exact ⟨hcreated, writer, reader, hruns, hafter, (serialize_run hwf).2 hmany, fun hpersists =>
    hmany (hwf.persists_iff.mp hpersists)⟩

/-- A session that has sent two messages persists. -/
theorem session_persistence_sample : ∃ s,
    Runs (Step .transparent) (sampleSession .transparent .initiator) s ∧ s.pq.messagesSinceHealing = 2 ∧
    Persists .transparent s := by
  obtain ⟨s, hruns, hcount, hfits⟩ := sample_sent
  exact ⟨s, hruns, hcount,
    (session_persistence (sampleSession_created LibCrypto.transparent_dhLaws .initiator) hruns).mpr hfits⟩

end Session

end P2Party
