import P2Party.Cryptography.RatchetInvariant

/-!
# Two ratchets that have read everything

When both parties have read all that was sent, their states differ by one DH step: the party
that made the last one is ahead, and the other one has not seen its new key yet. A message of
the party behind keeps the two as they are. A message of the party ahead makes its reader step,
so the roles change.

- `Turned`, `InStep`: the relation, with one party ahead and with either;
- `RatchetSent`, `RatchetRead`: one step of a writer and what it leaves in a reader;
- `InStep.turn`: the next message of either party gives its reader the same key.
-/

namespace P2Party

open Base

variable {L : LibCrypto}

/-- Two ratchets that have read everything: `ahead` made the last DH step, towards a key that
`behind` still has and with a key that `behind` has not seen. -/
structure Turned (L : LibCrypto) (ahead behind : RatchetState) : Prop where
  behindPub : behind.dhSelfPub = L.x25519Base behind.dhSelfSec
  aheadPub : ahead.dhSelfPub = L.x25519Base ahead.dhSelfSec
  known : ahead.dhRemotePub = some behind.dhSelfPub
  unknown : behind.dhRemotePub ≠ some ahead.dhSelfPub
  rung : ∃ dhOut, L.x25519Scalarmult behind.dhSelfSec ahead.dhSelfPub = some dhOut ∧
    ahead.rootKey = (kdfRk L behind.rootKey dhOut).1 ∧
    ahead.sendingChainKey = some (kdfRk L behind.rootKey dhOut).2
  silent : ahead.Ns = 0
  chain : ∃ chainKey, behind.sendingChainKey = some chainKey ∧ ahead.receivingChainKey = some chainKey
  count : ahead.Nr = behind.Ns
  previous : ahead.PN = behind.Nr
  unread : ∀ N, behind.Ns ≤ N → ahead.skipped.get (skippedKey behind.dhSelfPub N) = none
  unseen : ∀ N, behind.skipped.get (skippedKey ahead.dhSelfPub N) = none

/-- Two ratchets that have read everything, whichever is ahead. -/
def InStep (L : LibCrypto) (a b : RatchetState) : Prop := Turned L a b ∨ Turned L b a

/-- One step of a writer: its chain and its counter move by one. -/
structure RatchetSent (L : LibCrypto) (writer writer' : RatchetState) (messageKey : Bytes) : Prop where
  step : ∃ chainKey, writer.sendingChainKey = some chainKey ∧ messageKey = (kdfCk L chainKey).2 ∧
    writer' = { writer with sendingChainKey := some (kdfCk L chainKey).1, Ns := writer.Ns + 1 }

/-- The header of a writer's next message. -/
def RatchetState.header (state : RatchetState) : RatchetHeader := ⟨state.dhSelfPub, state.Ns, state.PN⟩

/-- A reader that has read the last message of a writer: it stands where the writer stands in the
writer's chain, with a DH step of its own when the writer's key was new to it. -/
structure RatchetRead (L : LibCrypto) (secretKey : Bytes) (writer' reader reader' : RatchetState) : Prop where
  counter : reader'.Nr = writer'.Ns
  chain : reader'.receivingChainKey = writer'.sendingChainKey
  remote : reader'.dhRemotePub = some writer'.dhSelfPub
  suite : reader'.rootSuite = reader.rootSuite
  skipped : reader'.skipped = reader.skipped
  steps : (reader.dhRemotePub = some writer'.dhSelfPub ∧ reader'.Nr = reader.Nr + 1 ∧
      reader'.dhSelfPub = reader.dhSelfPub ∧ reader'.Ns = reader.Ns) ∨
    (reader.dhRemotePub ≠ some writer'.dhSelfPub ∧ reader'.Nr = 1 ∧
      reader'.dhSelfPub = L.x25519Base secretKey ∧ reader'.PN = reader.Ns)

/-- A DH key that a party has not come across. -/
structure Unseen (pub : Bytes) (state : RatchetState) : Prop where
  remote : state.dhRemotePub ≠ some pub
  skipped : ∀ N, state.skipped.get (skippedKey pub N) = none

/-! ## Reading the next message -/

variable {state ahead behind : RatchetState} {header : RatchetHeader} {secretKey : Bytes}

/-- Nothing is skipped up to where a chain stands. -/
theorem skipMessageKeys_here (hsize : state.skipped.size ≤ MAX_SKIP_SESSION) :
    (skipMessageKeys L state.Nr).run state = .ok () state := by
  have hbound : state.Nr ≤ state.Nr + MAX_SKIP := Nat.le_add_right _ _
  cases hchain : state.receivingChainKey with
  | none => exact skipMessageKeys_run_none L hbound hchain
  | some chainKey =>
    rw [skipMessageKeys_run_some L hbound hchain, Nat.sub_self]
    exact congrArg _ (evictSkipped_of_size_le hsize)

/-- The next key of a chain. -/
theorem receiveFromChain_next {chainKey : Bytes} (hN : header.N = state.Nr)
    (hchain : state.receivingChainKey = some chainKey) (hsize : state.skipped.size ≤ MAX_SKIP_SESSION) :
    (receiveFromChain L header).run state =
      .ok (kdfCk L chainKey).2 { state with
        receivingChainKey := some (kdfCk L chainKey).1, Nr := state.Nr + 1 } := by
  unfold receiveFromChain
  rw [run_get_bind, run_ensure_of (Nat.le_of_eq hN.symm), hN, run_bind_of_ok (skipMessageKeys_here hsize),
    run_get_bind, hchain]
  rfl

/-- The next message of the party behind, on the chain the party ahead reads. -/
theorem Turned.ahead_reads (h : Turned L ahead behind) (hsize : ahead.skipped.size ≤ MAX_SKIP_SESSION)
    {chainKey : Bytes} (hchain : behind.sendingChainKey = some chainKey) (secretKey : Bytes) :
    (ratchetDecrypt L behind.header secretKey).run ahead =
      .ok (kdfCk L chainKey).2 { ahead with
        receivingChainKey := some (kdfCk L chainKey).1, Nr := ahead.Nr + 1 } := by
  obtain ⟨chainKey', hsends, hreads⟩ := h.chain
  obtain rfl := Option.some.inj (hsends.symm.trans hchain)
  have hcurrent : ahead.isNewDh behind.header = false := by
    unfold RatchetState.isNewDh
    rw [h.known]
    exact bne_self_eq_false _
  rw [ratchetDecrypt_run_current L (h.unread _ (Nat.le_refl _)) hcurrent]
  exact receiveFromChain_next h.count.symm hreads hsize

/-- The next message of the party ahead: its reader makes a DH step, which opens the chain the
message is on, and then a chain of its own. -/
theorem Turned.behind_reads (h : Turned L ahead behind) (hdh : L.DhLaws)
    (hsize : behind.skipped.size ≤ MAX_SKIP_SESSION) {chainKey : Bytes}
    (hchain : ahead.sendingChainKey = some chainKey) (secretKey : Bytes) :
    ∃ shared, L.x25519Scalarmult secretKey ahead.dhSelfPub = some shared ∧
      (ratchetDecrypt L ahead.header secretKey).run behind =
        .ok (kdfCk L chainKey).2 { behind with
          PN := behind.Ns
          Ns := 0
          Nr := 1
          dhRemotePub := some ahead.dhSelfPub
          receivingChainKey := some (kdfCk L chainKey).1
          dhSelfPub := L.x25519Base secretKey
          dhSelfSec := secretKey
          rootKey := (kdfRk L ahead.rootKey shared).1
          sendingChainKey := some (kdfRk L ahead.rootKey shared).2 } := by
  obtain ⟨dhOut, hout, hroot, hsends⟩ := h.rung
  obtain rfl := Option.some.inj (hsends.symm.trans hchain)
  obtain ⟨shared, hshared⟩ := Option.isSome_iff_exists.mp (hdh.defined secretKey ahead.dhSelfSec)
  rw [← h.aheadPub] at hshared
  have hnew : behind.isNewDh ahead.header = true := bne_iff_ne.mpr h.unknown
  have hskip : (skipMessageKeys L ahead.header.PN).run behind = .ok () behind := by
    rw [show ahead.header.PN = behind.Nr from h.previous]
    exact skipMessageKeys_here hsize
  have hstep := dhRatchet_run L behind ahead.header secretKey hout hshared
  refine ⟨shared, hshared, ?_⟩
  rw [ratchetDecrypt_run_newDh L (h.unseen _) hnew hskip hstep, receiveFromChain_next (by exact h.silent) rfl
    (by exact hsize), hroot]
  rfl

/-! ## A turn -/

variable {writer reader : RatchetState}

/-- The next message of either party: the reader gets the writer's key and stands where the writer
stands, and the two stay in step if a key the reader generated is new to the writer. -/
theorem InStep.turn (h : InStep L writer reader) (hdh : L.DhLaws)
    (hsize : reader.skipped.size ≤ MAX_SKIP_SESSION) :
    ∃ messageKey writer', RatchetSent L writer writer' messageKey ∧
      (ratchetEncrypt L).run writer = .ok (messageKey, writer.header) writer' ∧
      ∀ secretKey, ∃ reader', (ratchetDecrypt L writer.header secretKey).run reader = .ok messageKey reader' ∧
        RatchetRead L secretKey writer' reader reader' ∧
        ((reader.dhRemotePub ≠ some writer.dhSelfPub → Unseen (L.x25519Base secretKey) writer) →
          InStep L writer' reader') := by
  rcases h with hahead | hbehind
  · -- the writer is ahead: its reader steps and is ahead afterwards
    obtain ⟨dhOut, hout, hroot, hsends⟩ := hahead.rung
    refine ⟨_, _, ⟨_, hsends, rfl, rfl⟩, ratchetEncrypt_run L hsends, fun secretKey => ?_⟩
    obtain ⟨shared, hshared, hrun⟩ := hahead.behind_reads hdh hsize hsends secretKey
    refine ⟨_, hrun, ⟨?_, rfl, rfl, rfl, rfl, Or.inr ⟨hahead.unknown, rfl, rfl, rfl⟩⟩, fun hfresh => Or.inr ?_⟩
    · show 1 = writer.Ns + 1
      rw [hahead.silent]
    have hcommutes : L.x25519Scalarmult writer.dhSelfSec (L.x25519Base secretKey) = some shared := by
      rw [hdh.commutes, ← hahead.aheadPub, hshared]
    have hunseen : Unseen (L.x25519Base secretKey) writer := hfresh hahead.unknown
    exact {
      behindPub := hahead.aheadPub
      aheadPub := rfl
      known := rfl
      unknown := hunseen.remote
      rung := ⟨shared, hcommutes, rfl, rfl⟩
      silent := rfl
      chain := ⟨_, rfl, rfl⟩
      count := by
        show 1 = writer.Ns + 1
        rw [hahead.silent]
      previous := hahead.count.symm
      unread := fun N _ => hahead.unseen N
      unseen := hunseen.skipped }
  · obtain ⟨chainKey, hsends, hreads⟩ := hbehind.chain
    refine ⟨_, _, ⟨_, hsends, rfl, rfl⟩, ratchetEncrypt_run L hsends, fun secretKey => ?_⟩
    refine ⟨_, hbehind.ahead_reads hsize hsends secretKey, ⟨?_, rfl, hbehind.known, rfl, rfl,
      Or.inl ⟨hbehind.known, rfl, rfl, rfl⟩⟩, fun _ => Or.inr ?_⟩
    · exact congrArg (· + 1) hbehind.count
    obtain ⟨dhOut, hout, hroot, hsent⟩ := hbehind.rung
    exact {
      behindPub := hbehind.behindPub
      aheadPub := hbehind.aheadPub
      known := hbehind.known
      unknown := hbehind.unknown
      rung := ⟨dhOut, hout, hroot, hsent⟩
      silent := hbehind.silent
      chain := ⟨_, rfl, rfl⟩
      count := congrArg (· + 1) hbehind.count
      previous := hbehind.previous
      unread := fun N hN => hbehind.unread N (Nat.le_of_succ_le hN)
      unseen := hbehind.unseen }

/-! ## The set-up -/

end P2Party
