import P2Party.Base.OneTime
import P2Party.Base.Runs
import P2Party.Cryptography.RatchetSteps
import Mathlib.Data.Prod.Lex

/-!
# The skipped keys of a ratchet (`cryptography/ratchet.ts`)

A receive stores the keys of the messages that it passes, and may fail after it has. Here every
outcome counts: the state that a call leaves behind is the state of the next one, whether the call
returned or threw.

- `skipTo`, `facing`, `turning`, `turned`: the parts of a receive as functions of the state;
- `Outcome`, `ratchetDecrypt_outcome`: every way a call of `ratchetDecrypt` ends;
- `Stores`: what a call does to the order of the map;
- `History`, `step`: a run, with the receiving chains it has opened and the keys it has returned;
- `Traces`: the supply of chain and index behind the keys of a run;
- `skipped_keys_bounded`: the bounds, the order of eviction, and the origin of every key;
- `skipped_key_without_chain`: what a DH step that fails half-way leads to.
-/

namespace P2Party

open Base

namespace SkippedKeys

variable (L : LibCrypto)

/-! ## The parts of a receive, whatever they end in -/

/-- `skipMessageKeys` where it does not throw. -/
def skipTo (upTo : Nat) (state : RatchetState) : RatchetState :=
  if state.receivingChainKey.isSome then evictSkipped (skipLoop L (upTo - state.Nr) state) else state

/-- A DH step up to its first agreement. -/
def facing (dhPub : Bytes) (state : RatchetState) : RatchetState :=
  { state with PN := state.Ns, Ns := 0, Nr := 0, dhRemotePub := some dhPub }

/-- A DH step up to its second agreement. -/
def turning (dhPub secretKey dhOut : Bytes) (state : RatchetState) : RatchetState :=
  { facing dhPub state with
    rootKey := (kdfRk L state.rootKey dhOut).1
    receivingChainKey := some (kdfRk L state.rootKey dhOut).2
    dhSelfPub := L.x25519Base secretKey
    dhSelfSec := secretKey }

/-- A whole DH step. -/
def turned (dhPub secretKey dhOut dhOut' : Bytes) (state : RatchetState) : RatchetState :=
  { turning L dhPub secretKey dhOut state with
    rootKey := (kdfRk L (kdfRk L state.rootKey dhOut).1 dhOut').1
    sendingChainKey := some (kdfRk L (kdfRk L state.rootKey dhOut).1 dhOut').2 }

/-- The next key of the receiving chain has been taken. -/
def taken (chainKey : Bytes) (state : RatchetState) : RatchetState :=
  { state with receivingChainKey := some (kdfCk L chainKey).1, Nr := state.Nr + 1 }

variable {L} {state state' : RatchetState} {header : RatchetHeader} {secretKey : Bytes}

theorem skipMessageKeys_result (upTo : Nat) (state : RatchetState) :
    (skipMessageKeys L upTo).run state =
      if upTo ≤ state.Nr + MAX_SKIP then .ok () (skipTo L upTo state)
      else .error (.error "ratchet: MAX_SKIP exceeded") state := by
  by_cases hbound : upTo ≤ state.Nr + MAX_SKIP
  · rw [if_pos hbound]
    cases hchain : state.receivingChainKey with
    | none => rw [skipMessageKeys_run_none L hbound hchain, skipTo, hchain]; rfl
    | some chainKey => rw [skipMessageKeys_run_some L hbound hchain, skipTo, hchain]; rfl
  · rw [if_neg hbound, skipMessageKeys, run_get_bind, run_ensure_of_not hbound]

theorem dhRatchet_result (header : RatchetHeader) (secretKey : Bytes) (state : RatchetState) :
    (dhRatchet L header secretKey).run state =
      match L.x25519Dh state.dhSelfSec header.dhPub with
      | .error e => .error e (facing header.dhPub state)
      | .ok dhOut =>
        match L.x25519Dh secretKey header.dhPub with
        | .error e => .error e (turning L header.dhPub secretKey dhOut state)
        | .ok dhOut' => .ok () (turned L header.dhPub secretKey dhOut dhOut' state) := by
  unfold dhRatchet
  rw [run_modify_bind, run_get_bind]
  rw [run_attempt_bind]
  dsimp only
  cases L.x25519Dh state.dhSelfSec header.dhPub with
  | error e => rfl
  | ok dhOut =>
    dsimp only
    rw [run_modify_bind, run_modify_bind, run_attempt_bind]
    cases L.x25519Dh secretKey header.dhPub with
    | error e => rfl
    | ok dhOut' => rfl

theorem skipTo_none (upTo : Nat) (h : state.receivingChainKey = none) : skipTo L upTo state = state := by
  rw [skipTo, h]
  rfl

/-- Skipping moves the chain on and leaves the rest of the state. -/
theorem skipTo_some (upTo : Nat) (h : state.receivingChainKey.isSome = true) :
    ∃ chainKey Nr skipped, skipTo L upTo state =
      { state with receivingChainKey := some chainKey, Nr, skipped } := by
  obtain ⟨chainKey, skipped, hloop, -⟩ := skipLoop_comesFrom (L := L) (upTo - state.Nr) h
  rw [skipTo, if_pos h, hloop]
  exact ⟨chainKey, _, _, rfl⟩

/-- Reading in the current chain: either nothing happens or the gap is skipped and one key taken. -/
theorem receiveFromChain_result (header : RatchetHeader) (state : RatchetState) :
    (∃ e, (receiveFromChain L header).run state = .error e state) ∨
    (∃ chainKey, state.receivingChainKey.isSome = true ∧ header.N ≤ state.Nr + MAX_SKIP ∧
      (skipTo L header.N state).receivingChainKey = some chainKey ∧
      (receiveFromChain L header).run state =
        .ok (kdfCk L chainKey).2 (taken L chainKey (skipTo L header.N state))) := by
  unfold receiveFromChain
  rw [run_get_bind]
  by_cases hN : state.Nr ≤ header.N
  · rw [run_ensure_of hN]
    by_cases hbound : header.N ≤ state.Nr + MAX_SKIP
    · rw [run_bind_of_ok (by rw [skipMessageKeys_result, if_pos hbound]), run_get_bind]
      cases hchain : (skipTo L header.N state).receivingChainKey with
      | none =>
        -- without a chain nothing has been skipped either
        have hnone : state.receivingChainKey = none := by
          by_contra hne
          obtain ⟨chainKey, Nr, skipped, heq⟩ :=
            skipTo_some (L := L) header.N (Option.isSome_iff_ne_none.mpr hne)
          rw [heq] at hchain
          cases hchain
        rw [skipTo_none header.N hnone, hnone]
        exact Or.inl ⟨_, rfl⟩
      | some chainKey =>
        have hsome : state.receivingChainKey.isSome = true := by
          by_contra hne
          rw [Option.not_isSome_iff_eq_none] at hne
          rw [skipTo_none header.N hne, hne] at hchain
          cases hchain
        exact Or.inr ⟨chainKey, hsome, hbound, rfl, rfl⟩
    · have hskip : (skipMessageKeys L header.N).run state =
          .error (.error "ratchet: MAX_SKIP exceeded") state := by
        rw [skipMessageKeys_result, if_neg hbound]
      exact Or.inl ⟨_, run_bind_of_error hskip⟩
  · exact Or.inl ⟨_, run_ensure_of_not hN⟩

/-! ## Every way through a receive -/

/-- The end of reading in a chain. -/
inductive Read (L : LibCrypto) (state : RatchetState) (N : Nat) :
    EStateM.Result JsError RatchetState Bytes → Prop
  | refused (e : JsError) : Read L state N (.error e state)
  | key (chainKey : Bytes) (hsome : state.receivingChainKey.isSome = true)
      (hbound : N ≤ state.Nr + MAX_SKIP)
      (hchain : (skipTo L N state).receivingChainKey = some chainKey) :
    Read L state N (.ok (kdfCk L chainKey).2 (taken L chainKey (skipTo L N state)))

theorem receiveFromChain_read (header : RatchetHeader) (state : RatchetState) :
    Read L state header.N ((receiveFromChain L header).run state) := by
  obtain ⟨e, h⟩ | ⟨chainKey, hsome, hbound, hchain, h⟩ := receiveFromChain_result (L := L) header state
  · exact h ▸ .refused e
  · exact h ▸ .key chainKey hsome hbound hchain

/-- The first agreement of a DH step fails, with an old receiving chain in place. -/
def FailsInTurn (L : LibCrypto) (state : RatchetState) (header : RatchetHeader) : Prop :=
  state.skipped.get (skippedKey header.dhPub header.N) = none ∧ state.isNewDh header = true ∧
    header.PN ≤ state.Nr + MAX_SKIP ∧ state.receivingChainKey.isSome = true ∧
    L.x25519Scalarmult state.dhSelfSec header.dhPub = none

/-- The end of a call of `ratchetDecrypt`, and the receiving chain that it has opened. -/
inductive Outcome (L : LibCrypto) (state : RatchetState) (header : RatchetHeader) (secretKey : Bytes) :
    EStateM.Result JsError RatchetState Bytes → List (Bytes × Bytes) → Prop
  | stored (mk : Bytes) (hget : state.skipped.get (skippedKey header.dhPub header.N) = some mk) :
    Outcome L state header secretKey (.ok mk { state with
      skipped := state.skipped.delete (skippedKey header.dhPub header.N) }) []
  | current {out : EStateM.Result JsError RatchetState Bytes} (h : Read L state header.N out) :
    Outcome L state header secretKey out []
  | refused (e : JsError) : Outcome L state header secretKey (.error e state) []
  | failed (e : JsError) (hbound : header.PN ≤ state.Nr + MAX_SKIP)
      (hturn : state.receivingChainKey.isSome = true → FailsInTurn L state header) :
    Outcome L state header secretKey
      (.error e (facing header.dhPub (skipTo L header.PN state))) []
  | halted (e : JsError) (dhOut : Bytes) (hbound : header.PN ≤ state.Nr + MAX_SKIP) :
    Outcome L state header secretKey
      (.error e (turning L header.dhPub secretKey dhOut (skipTo L header.PN state)))
      [(header.dhPub, (kdfRk L state.rootKey dhOut).2)]
  | turned {out : EStateM.Result JsError RatchetState Bytes} (dhOut dhOut' : Bytes)
      (hbound : header.PN ≤ state.Nr + MAX_SKIP)
      (h : Read L (turned L header.dhPub secretKey dhOut dhOut' (skipTo L header.PN state))
        header.N out) :
    Outcome L state header secretKey out [(header.dhPub, (kdfRk L state.rootKey dhOut).2)]

/-- The receiving chain that a call of `ratchetDecrypt` opens, under the remote key it is for. -/
def opens (L : LibCrypto) (state : RatchetState) (header : RatchetHeader) : List (Bytes × Bytes) :=
  if state.skipped.get (skippedKey header.dhPub header.N) = none ∧ state.isNewDh header = true ∧
      header.PN ≤ state.Nr + MAX_SKIP then
    match L.x25519Dh state.dhSelfSec header.dhPub with
    | .ok dhOut => [(header.dhPub, (kdfRk L state.rootKey dhOut).2)]
    | .error _ => []
  else []

theorem ratchetDecrypt_outcome (state : RatchetState) (header : RatchetHeader) (secretKey : Bytes) :
    Outcome L state header secretKey ((ratchetDecrypt L header secretKey).run state)
      (opens L state header) := by
  cases hget : state.skipped.get (skippedKey header.dhPub header.N) with
  | some mk =>
    have hopens : opens L state header = [] := if_neg fun h => by
      rw [hget] at h
      cases h.1
    rw [hopens, ratchetDecrypt_run_hit L hget]
    exact .stored mk hget
  | none =>
    cases hnew : state.isNewDh header with
    | false =>
      have hopens : opens L state header = [] := if_neg fun h => by
        rw [hnew] at h
        cases h.2.1
      rw [hopens, ratchetDecrypt_run_current L hget hnew]
      exact .current (receiveFromChain_read header state)
    | true =>
      unfold ratchetDecrypt
      rw [run_bind_of_ok (trySkipped_run_miss hget)]
      dsimp only
      rw [run_get_bind, if_pos hnew]
      by_cases hbound : header.PN ≤ state.Nr + MAX_SKIP
      · have hself : (skipTo L header.PN state).dhSelfSec = state.dhSelfSec ∧
            (skipTo L header.PN state).rootKey = state.rootKey := by
          cases hchain : state.receivingChainKey with
          | none => rw [skipTo_none header.PN hchain]; exact ⟨rfl, rfl⟩
          | some chainKey =>
            obtain ⟨chainKey', Nr, skipped, heq⟩ :=
              skipTo_some (L := L) header.PN (by rw [hchain]; rfl : state.receivingChainKey.isSome = true)
            rw [heq]
            exact ⟨rfl, rfl⟩
        have hdh := dhRatchet_result (L := L) header secretKey (skipTo L header.PN state)
        rw [hself.1] at hdh
        rw [run_bind_of_ok (by rw [skipMessageKeys_result, if_pos hbound])]
        rw [opens, if_pos ⟨hget, hnew, hbound⟩]
        cases hout : L.x25519Dh state.dhSelfSec header.dhPub with
        | error e =>
          rw [hout] at hdh
          rw [run_bind_of_error hdh]
          refine .failed e hbound fun hsome => ⟨hget, hnew, hbound, hsome, ?_⟩
          unfold LibCrypto.x25519Dh at hout
          cases hmult : L.x25519Scalarmult state.dhSelfSec header.dhPub with
          | none => rfl
          | some shared => rw [hmult] at hout; cases hout
        | ok dhOut =>
          rw [hout] at hdh
          cases hout' : L.x25519Dh secretKey header.dhPub with
          | error e =>
            rw [hout'] at hdh
            rw [run_bind_of_error hdh]
            exact .halted e dhOut hbound
          | ok dhOut' =>
            rw [hout'] at hdh
            rw [run_bind_of_ok hdh]
            exact .turned dhOut dhOut' hbound (receiveFromChain_read header _)
      · have hopens : opens L state header = [] := if_neg fun h => hbound h.2.2
        rw [hopens, run_bind_of_error (by rw [skipMessageKeys_result, if_neg hbound])]
        exact .refused _

/-! ## The order of the map -/

theorem skipLoop_keys (n : Nat) (state : RatchetState) :
    ∃ added : List String, added.length ≤ n ∧
      (skipLoop L n state).skipped.keys = state.skipped.keys ++ added := by
  induction n generalizing state with
  | zero => exact ⟨[], Nat.le_refl 0, (List.append_nil _).symm⟩
  | succ n ih =>
    obtain ⟨added, hlen, heq⟩ := ih (skipOne L state)
    have hone : (skipOne L state).skipped.keys = (state.skipped.set
        (skippedKey (state.dhRemotePub.getD []) state.Nr)
        (kdfCk L (state.receivingChainKey.getD [])).2).keys := rfl
    rw [skipLoop, heq, hone, OrdMap.keys_set]
    split
    · exact ⟨added, Nat.le_succ_of_le hlen, rfl⟩
    · exact ⟨skippedKey (state.dhRemotePub.getD []) state.Nr :: added, Nat.succ_le_succ hlen,
        List.append_assoc _ _ _⟩

/-- Skipping adds at the end and drops at the front. -/
theorem skipTo_pushed (upTo : Nat) (hsize : state.skipped.size ≤ MAX_SKIP_SESSION) :
    OrdMap.Pushed MAX_SKIP_SESSION (upTo - state.Nr) state.skipped.keys
      (skipTo L upTo state).skipped.keys := by
  unfold skipTo
  split
  · obtain ⟨added, hlen, heq⟩ := skipLoop_keys (L := L) (upTo - state.Nr) state
    refine ⟨added, hlen, ?_⟩
    show (OrdMap.evictLoop MAX_SKIP_SESSION (skipLoop L (upTo - state.Nr) state).skipped.keys
      (skipLoop L (upTo - state.Nr) state).skipped).entries.map Prod.fst = _
    rw [OrdMap.evictLoop_entries, List.map_drop, ← OrdMap.length_keys, heq, List.length_append]
    exact congrArg (List.drop _) heq
  · exact OrdMap.Pushed.refl _ ((OrdMap.length_keys _).trans_le hsize)

/-- One key is taken out, or at most `2 * MAX_SKIP` keys are added at the end and the oldest dropped
beyond `MAX_SKIP_SESSION`. -/
def Stores (state state' : RatchetState) : Prop :=
  (∃ key, key ∈ state.skipped.keys ∧ state'.skipped = state.skipped.delete key) ∨
    OrdMap.Pushed MAX_SKIP_SESSION (2 * MAX_SKIP) state.skipped.keys state'.skipped.keys

theorem Stores.size_le (h : Stores state state') (hsize : state.skipped.size ≤ MAX_SKIP_SESSION) :
    state'.skipped.size ≤ MAX_SKIP_SESSION := by
  rcases h with ⟨key, -, heq⟩ | hpushed
  · rw [heq]
    exact Nat.le_trans (OrdMap.size_delete_le _ _) hsize
  · exact (OrdMap.length_keys _).symm.trans_le hpushed.length_le

theorem Read.pushed {N : Nat} {out : EStateM.Result JsError RatchetState Bytes}
    (h : Read L state N out) (hsize : state.skipped.size ≤ MAX_SKIP_SESSION) :
    OrdMap.Pushed MAX_SKIP_SESSION MAX_SKIP state.skipped.keys (finalState out).skipped.keys := by
  cases h with
  | refused e => exact OrdMap.Pushed.refl _ ((OrdMap.length_keys _).trans_le hsize)
  | key chainKey hsome hbound hchain => exact (skipTo_pushed N hsize).mono (by omega)

/-- What a call does to the map, whether it returns or throws. -/
theorem Outcome.stores {out : EStateM.Result JsError RatchetState Bytes} {opened : List (Bytes × Bytes)}
    (h : Outcome L state header secretKey out opened) (hsize : state.skipped.size ≤ MAX_SKIP_SESSION) :
    Stores state (finalState out) := by
  have hrefl := OrdMap.Pushed.refl (2 * MAX_SKIP) ((OrdMap.length_keys _).trans_le hsize)
  have hfirst : header.PN ≤ state.Nr + MAX_SKIP → OrdMap.Pushed MAX_SKIP_SESSION MAX_SKIP
      state.skipped.keys (skipTo L header.PN state).skipped.keys := fun hbound =>
    (skipTo_pushed header.PN hsize).mono (by omega)
  cases h with
  | stored mk hget => exact Or.inl ⟨_, OrdMap.mem_keys_of_get hget, rfl⟩
  | current h => exact Or.inr ((h.pushed hsize).mono (by omega))
  | refused e => exact Or.inr hrefl
  | failed e hbound hturn => exact Or.inr ((hfirst hbound).mono (by omega))
  | halted e dhOut hbound => exact Or.inr ((hfirst hbound).mono (by omega))
  | turned dhOut dhOut' hbound h =>
    have hmid := hfirst hbound
    have hsize' : (skipTo L header.PN state).skipped.size ≤ MAX_SKIP_SESSION :=
      (OrdMap.length_keys _).symm.trans_le hmid.length_le
    exact Or.inr ((hmid.trans (h.pushed hsize')).mono (by omega))

/-! ## Where keys come from -/

/-- `mk` is key `o.2` of the receiving chain number `o.1` of those opened. -/
def Derived (L : LibCrypto) (opened : List (Bytes × Bytes)) (o : Nat × Nat) (mk : Bytes) : Prop :=
  ∃ pub chainKey, opened[o.1]? = some (pub, chainKey) ∧ mk = messageKeyAt L chainKey o.2

/-- The same, under the name that the remote key of that chain and the index give. -/
def DerivedAs (L : LibCrypto) (opened : List (Bytes × Bytes)) (o : Nat × Nat) (key : String)
    (mk : Bytes) : Prop :=
  ∃ pub chainKey, opened[o.1]? = some (pub, chainKey) ∧ mk = messageKeyAt L chainKey o.2 ∧
    key = skippedKey pub o.2

/-- A supply of chains and indices stands behind the keys that are stored and that were returned.
While `sound` holds, the counter and the remote key are those of the current chain. -/
structure Traces (L : LibCrypto) (sound : Prop) (state : RatchetState) (opened : List (Bytes × Bytes))
    (returned : List Bytes) (supply : Supply String (Nat ×ₗ Nat)) : Prop where
  once : supply.Once
  room : supply.next ≤ toLex (opened.length, 0)
  chain : ∀ k, state.receivingChainKey = some k → ∃ c n pub chainKey, supply.next = toLex (c, n) ∧
    opened.length = c + 1 ∧ opened[c]? = some (pub, chainKey) ∧ k = chainKeyAt L chainKey n ∧
    (sound → state.dhRemotePub = some pub ∧ state.Nr = n)
  stored : ∀ key mk, state.skipped.get key = some mk → ∃ o, supply.kept key = some o ∧
    Derived L opened (ofLex o) mk ∧ (sound → DerivedAs L opened (ofLex o) key mk)
  returned : List.Forall₂ (fun o mk => Derived L opened (ofLex o) mk) supply.out returned

variable {sound : Prop} {opened : List (Bytes × Bytes)} {returned : List Bytes}
  {supply : Supply String (Nat ×ₗ Nat)}

theorem toLex_lt_succ (c n : Nat) : toLex (c, n) < toLex (c, n + 1) :=
  Prod.Lex.toLex_lt_toLex.mpr (Or.inr ⟨rfl, Nat.lt_succ_self n⟩)

/-- What the supply sees of a state. -/
theorem Traces.congr (h : Traces L sound state opened returned supply)
    (hchain : state'.receivingChainKey = state.receivingChainKey)
    (hremote : state'.dhRemotePub = state.dhRemotePub) (hNr : state'.Nr = state.Nr)
    (hskipped : ∀ key mk, state'.skipped.get key = some mk → state.skipped.get key = some mk) :
    Traces L sound state' opened returned supply where
  once := h.once
  room := h.room
  chain k hk := by
    rw [hremote, hNr]
    exact h.chain k (hchain ▸ hk)
  stored key mk hget := h.stored key mk (hskipped key mk hget)
  returned := h.returned

theorem Traces.room_of_chain {c n : Nat} (hlen : opened.length = c + 1) :
    toLex (c, n) ≤ toLex (opened.length, 0) :=
  Prod.Lex.toLex_le_toLex.mpr (Or.inl (hlen ▸ Nat.lt_succ_self c))

/-- The key that the loop of `skipMessageKeys` stores is the next of the supply. -/
theorem Traces.skipOne (h : Traces L sound state opened returned supply)
    (hsome : state.receivingChainKey.isSome = true) :
    ∃ supply', Traces L sound (skipOne L state) opened returned supply' := by
  obtain ⟨k, hk⟩ := Option.isSome_iff_exists.mp hsome
  obtain ⟨c, n, pub, chainKey, hnext, hlen, hopen, hchain, hsound⟩ := h.chain k hk
  have hone : P2Party.skipOne L state = { state with
      receivingChainKey := some (chainKeyAt L chainKey (n + 1))
      skipped := state.skipped.set (skippedKey (state.dhRemotePub.getD []) state.Nr)
        (messageKeyAt L chainKey n)
      Nr := state.Nr + 1 } := by
    simp [P2Party.skipOne, hk, hchain, chainKeyAt, messageKeyAt]
  refine ⟨supply.keep (skippedKey (state.dhRemotePub.getD []) state.Nr) (toLex (c, n + 1)), ?_⟩
  rw [hone]
  have hlt : supply.next < toLex (c, n + 1) := hnext ▸ toLex_lt_succ c n
  refine ⟨h.once.keep _ hlt, Traces.room_of_chain hlen, fun k' hk' => ?_, fun key mk hget => ?_,
    h.returned⟩
  · refine ⟨c, n + 1, pub, chainKey, rfl, hlen, hopen, (Option.some.inj hk').symm, fun hs => ?_⟩
    obtain ⟨hremote, hNr⟩ := hsound hs
    exact ⟨hremote, congrArg (· + 1) hNr⟩
  · by_cases hkey : key = skippedKey (state.dhRemotePub.getD []) state.Nr
    · subst hkey
      obtain rfl : messageKeyAt L chainKey n = mk :=
        Option.some.inj ((OrdMap.get_set_self _ _ _).symm.trans hget)
      refine ⟨supply.next, Function.update_self _ _ _, ?_, fun hs => ?_⟩
      · rw [hnext]
        exact ⟨pub, chainKey, hopen, rfl⟩
      · obtain ⟨hremote, hNr⟩ := hsound hs
        rw [hnext, hremote, hNr]
        exact ⟨pub, chainKey, hopen, rfl, rfl⟩
    · obtain ⟨o, ho, hder⟩ := h.stored key mk ((OrdMap.get_set_ne _ _ hkey).symm.trans hget)
      exact ⟨o, (Function.update_of_ne hkey _ _).trans ho, hder⟩

theorem Traces.skipLoop (n : Nat) (h : Traces L sound state opened returned supply)
    (hsome : state.receivingChainKey.isSome = true) :
    ∃ supply', Traces L sound (skipLoop L n state) opened returned supply' := by
  induction n generalizing state supply with
  | zero => exact ⟨supply, h⟩
  | succ n ih =>
    obtain ⟨supply', h'⟩ := h.skipOne hsome
    exact ih h' rfl

theorem Traces.skipTo (upTo : Nat) (h : Traces L sound state opened returned supply) :
    ∃ supply', Traces L sound (skipTo L upTo state) opened returned supply' := by
  unfold SkippedKeys.skipTo
  split
  · rename_i hsome
    obtain ⟨supply', h'⟩ := h.skipLoop (upTo - state.Nr) hsome
    refine ⟨supply', h'.congr rfl rfl rfl fun key mk hget => ?_⟩
    exact OrdMap.get_eq_some_iff.mpr
      (OrdMap.mem_of_mem_evictLoop (OrdMap.get_eq_some_iff.mp hget))
  · exact ⟨supply, h⟩

/-- A key that is returned at once is the next of the supply. -/
theorem Traces.taken {k : Bytes} (h : Traces L sound state opened returned supply)
    (hk : state.receivingChainKey = some k) :
    ∃ supply', Traces L sound (taken L k state) opened (returned ++ [(kdfCk L k).2]) supply' := by
  obtain ⟨c, n, pub, chainKey, hnext, hlen, hopen, rfl, hsound⟩ := h.chain k hk
  have hlt : supply.next < toLex (c, n + 1) := hnext ▸ toLex_lt_succ c n
  refine ⟨supply.give (toLex (c, n + 1)), h.once.give hlt, Traces.room_of_chain hlen,
    fun k' hk' => ?_, h.stored, ?_⟩
  · refine ⟨c, n + 1, pub, chainKey, rfl, hlen, hopen, (Option.some.inj hk').symm, fun hs => ?_⟩
    obtain ⟨hremote, hNr⟩ := hsound hs
    exact ⟨hremote, congrArg (· + 1) hNr⟩
  · refine List.rel_append h.returned (List.Forall₂.cons ?_ List.Forall₂.nil)
    rw [hnext]
    exact ⟨pub, chainKey, hopen, rfl⟩

/-- A stored key that is returned leaves its slot. -/
theorem Traces.hit {key : String} {mk : Bytes} (h : Traces L sound state opened returned supply)
    (hget : state.skipped.get key = some mk) :
    ∃ supply', Traces L sound { state with skipped := state.skipped.delete key } opened
      (returned ++ [mk]) supply' := by
  obtain ⟨o, ho, hder, -⟩ := h.stored key mk hget
  refine ⟨supply.take key o, h.once.take ho, h.room, h.chain, fun key' mk' hget' => ?_,
    List.rel_append h.returned (List.Forall₂.cons hder List.Forall₂.nil)⟩
  have hne : key' ≠ key := by
    rintro rfl
    have hnone : (state.skipped.delete key').get key' = some mk' := hget'
    rw [OrdMap.get_delete_self] at hnone
    cases hnone
  obtain ⟨o', ho', hrest⟩ := h.stored key' mk' ((OrdMap.get_delete_ne _ hne).symm.trans hget')
  exact ⟨o', (Function.update_of_ne hne _ _).trans ho', hrest⟩

/-- A DH step that has failed at its first agreement is sound only where no chain was open. -/
theorem Traces.facing (dhPub : Bytes) (h : Traces L sound state opened returned supply)
    (hsound : sound → state.receivingChainKey = none) :
    Traces L sound (facing dhPub state) opened returned supply where
  once := h.once
  room := h.room
  chain k hk := by
    obtain ⟨c, n, pub, chainKey, hnext, hlen, hopen, hchain, -⟩ := h.chain k hk
    refine ⟨c, n, pub, chainKey, hnext, hlen, hopen, hchain, fun hs => ?_⟩
    have hnone : state.receivingChainKey = some k := hk
    rw [hsound hs] at hnone
    cases hnone
  stored := h.stored
  returned := h.returned

theorem Derived.mono {o : Nat × Nat} {mk : Bytes} (h : Derived L opened o mk) (more : List (Bytes × Bytes)) :
    Derived L (opened ++ more) o mk := by
  obtain ⟨pub, chainKey, hopen, hmk⟩ := h
  have hlt := (List.getElem?_eq_some_iff.mp hopen).1
  exact ⟨pub, chainKey, (List.getElem?_append_left hlt).trans hopen, hmk⟩

theorem DerivedAs.mono {o : Nat × Nat} {key : String} {mk : Bytes} (h : DerivedAs L opened o key mk)
    (more : List (Bytes × Bytes)) : DerivedAs L (opened ++ more) o key mk := by
  obtain ⟨pub, chainKey, hopen, hrest⟩ := h
  have hlt := (List.getElem?_eq_some_iff.mp hopen).1
  exact ⟨pub, chainKey, (List.getElem?_append_left hlt).trans hopen, hrest⟩

/-- A DH step that gets to its receiving chain opens the next one. -/
theorem Traces.turning (dhPub secretKey dhOut : Bytes)
    (h : Traces L sound state opened returned supply) :
    ∃ supply', Traces L sound (turning L dhPub secretKey dhOut state)
      (opened ++ [(dhPub, (kdfRk L state.rootKey dhOut).2)]) returned supply' := by
  have hlen : (opened ++ [(dhPub, (kdfRk L state.rootKey dhOut).2)]).length = opened.length + 1 :=
    List.length_append
  refine ⟨supply.skip (toLex (opened.length, 0)), h.once.skip h.room, Traces.room_of_chain hlen,
    fun k hk => ?_, fun key mk hget => ?_, ?_⟩
  · refine ⟨opened.length, 0, dhPub, _, rfl, hlen, List.getElem?_concat_length,
      (Option.some.inj hk).symm, fun _ => ⟨rfl, rfl⟩⟩
  · obtain ⟨o, ho, hder, hsound⟩ := h.stored key mk hget
    exact ⟨o, ho, hder.mono _, fun hs => (hsound hs).mono _⟩
  · exact h.returned.imp fun o mk hder => hder.mono _

/-! ## Calls -/

/-- The key that a call has returned. -/
def keyOf : EStateM.Result JsError RatchetState Bytes → List Bytes
  | .ok mk _ => [mk]
  | .error _ _ => []

theorem Read.traces {N : Nat} {out : EStateM.Result JsError RatchetState Bytes} (h : Read L state N out)
    (ht : Traces L sound state opened returned supply) :
    ∃ supply', Traces L sound (finalState out) opened (returned ++ keyOf out) supply' := by
  cases h with
  | refused e => exact ⟨supply, (List.append_nil returned).symm ▸ ht⟩
  | key chainKey hsome hbound hchain =>
    obtain ⟨supply', h'⟩ := ht.skipTo N
    exact h'.taken hchain

/-- Every end of a call keeps the supply, soundly unless the DH step has failed. -/
theorem Outcome.traces {out : EStateM.Result JsError RatchetState Bytes} {more : List (Bytes × Bytes)}
    (h : Outcome L state header secretKey out more) (ht : Traces L sound state opened returned supply)
    (hsound : sound → ¬ FailsInTurn L state header) :
    ∃ supply', Traces L sound (finalState out) (opened ++ more) (returned ++ keyOf out) supply' := by
  have hroot : (skipTo L header.PN state).rootKey = state.rootKey := by
    cases hchain : state.receivingChainKey with
    | none => rw [skipTo_none header.PN hchain]
    | some chainKey =>
      obtain ⟨chainKey', Nr, skipped, heq⟩ :=
        skipTo_some (L := L) header.PN (by rw [hchain]; rfl : state.receivingChainKey.isSome = true)
      rw [heq]
  cases h with
  | stored mk hget =>
    rw [List.append_nil]
    exact ht.hit hget
  | current h =>
    rw [List.append_nil]
    exact h.traces ht
  | refused e =>
    rw [List.append_nil]
    exact ⟨supply, (List.append_nil returned).symm ▸ ht⟩
  | failed e hbound hturn =>
    obtain ⟨supply', h'⟩ := ht.skipTo header.PN
    rw [List.append_nil]
    refine ⟨supply', (List.append_nil returned).symm ▸ h'.facing header.dhPub fun hs => ?_⟩
    have hnone : state.receivingChainKey = none :=
      Option.not_isSome_iff_eq_none.mp fun hsome => hsound hs (hturn hsome)
    rw [skipTo_none header.PN hnone, hnone]
  | halted e dhOut hbound =>
    obtain ⟨supply', h'⟩ := ht.skipTo header.PN
    obtain ⟨supply'', h''⟩ := h'.turning header.dhPub secretKey dhOut
    rw [hroot] at h''
    exact ⟨supply'', (List.append_nil returned).symm ▸ h''⟩
  | turned dhOut dhOut' hbound h =>
    obtain ⟨supply', h'⟩ := ht.skipTo header.PN
    obtain ⟨supply'', h''⟩ := h'.turning header.dhPub secretKey dhOut
    rw [hroot] at h''
    exact h.traces (h''.congr rfl rfl rfl fun _ _ hget => hget)

/-- A call on a ratchet, with the secret of the key pair that a DH step would make. -/
inductive RatchetCall
  | ratchetEncrypt
  | primeResponderRatchet (initiatorDhPub secretKey : Bytes)
  | ratchetDecrypt (header : RatchetHeader) (secretKey : Bytes)

/-- A ratchet, the receiving chains that have been opened, and the message keys that calls of
`ratchetDecrypt` have returned. -/
structure History where
  state : RatchetState
  opened : List (Bytes × Bytes)
  returned : List Bytes

/-- A ratchet that has received nothing. -/
def History.start (state : RatchetState) : History := ⟨state, [], []⟩

/-- The receiving chain that `primeResponderRatchet` opens. -/
def primes (L : LibCrypto) (state : RatchetState) (initiatorDhPub : Bytes) : List (Bytes × Bytes) :=
  if initiatorDhPub.length = RATCHET_DHPUB_LEN ∧ state.pristine = true then
    match L.x25519Dh state.dhSelfSec initiatorDhPub with
    | .ok dhOut => [(initiatorDhPub, (kdfRk L state.rootKey dhOut).2)]
    | .error _ => []
  else []

/-- The next call is on the state that this one leaves behind. -/
def step (L : LibCrypto) : RatchetCall → History → History
  | .ratchetEncrypt, past => { past with state := finalState ((ratchetEncrypt L).run past.state) }
  | .primeResponderRatchet initiatorDhPub secretKey, past =>
    { past with
      state := finalState ((primeResponderRatchet L initiatorDhPub secretKey).run past.state)
      opened := past.opened ++ primes L past.state initiatorDhPub }
  | .ratchetDecrypt header secretKey, past =>
    { state := finalState ((ratchetDecrypt L header secretKey).run past.state)
      opened := past.opened ++ opens L past.state header
      returned := past.returned ++ keyOf ((ratchetDecrypt L header secretKey).run past.state) }

/-- The call does not fail at the first agreement of a DH step that replaces a chain. -/
def TurnsWhole (L : LibCrypto) : RatchetCall → History → Prop
  | .ratchetDecrypt header _, past => ¬ FailsInTurn L past.state header
  | _, _ => True

/-- The bound on the map, and a supply behind its keys. -/
structure SkippedOkay (L : LibCrypto) (sound : Prop) (past : History) : Prop where
  size : past.state.skipped.size ≤ MAX_SKIP_SESSION
  traces : ∃ supply, Traces L sound past.state past.opened past.returned supply

theorem ratchetEncrypt_frame (state : RatchetState) :
    ∃ chain Ns, finalState ((ratchetEncrypt L).run state) =
      { state with sendingChainKey := chain, Ns := Ns } := by
  cases hchain : state.sendingChainKey with
  | some chainKey =>
    rw [ratchetEncrypt_run L hchain]
    exact ⟨_, _, rfl⟩
  | none =>
    refine ⟨none, state.Ns, ?_⟩
    have hthrow : (ratchetEncrypt L).run state = .error (.error "ratchet: no sending chain") state := by
      unfold ratchetEncrypt
      rw [run_get_bind, hchain]
      rfl
    rw [hthrow, ← hchain]
    rfl

/-- Priming that is refused changes nothing. -/
theorem primeResponderRatchet_refused {initiatorDhPub : Bytes}
    (h : ¬ (initiatorDhPub.length = RATCHET_DHPUB_LEN ∧ state.pristine = true)) :
    finalState ((primeResponderRatchet L initiatorDhPub secretKey).run state) = state := by
  unfold primeResponderRatchet
  by_cases hlen : initiatorDhPub.length = RATCHET_DHPUB_LEN
  · rw [run_ensure_of hlen, run_get_bind, run_ensure_of_not fun hp => h ⟨hlen, hp⟩]
    rfl
  · rw [run_ensure_of_not hlen]
    rfl

theorem dhRatchet_skipped (header : RatchetHeader) (secretKey : Bytes) (state : RatchetState) :
    (finalState ((dhRatchet L header secretKey).run state)).skipped = state.skipped := by
  rw [dhRatchet_result]
  cases L.x25519Dh state.dhSelfSec header.dhPub with
  | error e => rfl
  | ok dhOut =>
    dsimp only
    cases L.x25519Dh secretKey header.dhPub with
    | error e => rfl
    | ok dhOut' => rfl

theorem primeResponderRatchet_skipped (initiatorDhPub secretKey : Bytes) (state : RatchetState) :
    (finalState ((primeResponderRatchet L initiatorDhPub secretKey).run state)).skipped =
      state.skipped := by
  by_cases h : initiatorDhPub.length = RATCHET_DHPUB_LEN ∧ state.pristine = true
  · rw [primeResponderRatchet_run L h.1 h.2, dhRatchet_skipped]
  · rw [primeResponderRatchet_refused h]

/-- Priming is a DH step of a ratchet without a receiving chain, or nothing at all. -/
theorem primeResponderRatchet_traces (initiatorDhPub secretKey : Bytes)
    (h : Traces L sound state opened returned supply) :
    ∃ supply', Traces L sound (finalState
        ((primeResponderRatchet L initiatorDhPub secretKey).run state))
      (opened ++ primes L state initiatorDhPub) returned supply' := by
  by_cases hboth : initiatorDhPub.length = RATCHET_DHPUB_LEN ∧ state.pristine = true
  · have hnone : state.receivingChainKey = none := by
      have hpristine := hboth.2
      simp only [RatchetState.pristine, Bool.and_eq_true] at hpristine
      exact Option.isNone_iff_eq_none.mp hpristine.1.1.1.1.1.2
    rw [primeResponderRatchet_run L hboth.1 hboth.2, dhRatchet_result, primes, if_pos hboth]
    cases L.x25519Dh state.dhSelfSec initiatorDhPub with
    | error e =>
      rw [List.append_nil]
      exact ⟨supply, h.facing initiatorDhPub fun _ => hnone⟩
    | ok dhOut =>
      obtain ⟨supply', h'⟩ := h.turning initiatorDhPub secretKey dhOut
      dsimp only
      cases L.x25519Dh secretKey initiatorDhPub with
      | error e => exact ⟨supply', h'⟩
      | ok dhOut' => exact ⟨supply', h'.congr rfl rfl rfl fun _ _ hget => hget⟩
  · have hprimes : primes L state initiatorDhPub = [] := if_neg hboth
    rw [hprimes, primeResponderRatchet_refused hboth, List.append_nil]
    exact ⟨supply, h⟩

theorem step_okay (call : RatchetCall) {past : History} (hwhole : sound → TurnsWhole L call past)
    (h : SkippedOkay L sound past) : SkippedOkay L sound (step L call past) := by
  obtain ⟨supply, ht⟩ := h.traces
  cases call with
  | ratchetEncrypt =>
    obtain ⟨chain, Ns, heq⟩ := ratchetEncrypt_frame (L := L) past.state
    have hstate : (step L .ratchetEncrypt past).state = _ := heq
    refine ⟨?_, supply, ?_⟩
    · rw [hstate]
      exact h.size
    · rw [hstate]
      exact ht.congr rfl rfl rfl fun _ _ hget => hget
  | primeResponderRatchet initiatorDhPub secretKey =>
    refine ⟨?_, primeResponderRatchet_traces initiatorDhPub secretKey ht⟩
    have hsame : (step L (.primeResponderRatchet initiatorDhPub secretKey) past).state.skipped =
      past.state.skipped := primeResponderRatchet_skipped initiatorDhPub secretKey past.state
    rw [hsame]
    exact h.size
  | ratchetDecrypt header secretKey =>
    have hout := ratchetDecrypt_outcome (L := L) past.state header secretKey
    exact ⟨(hout.stores h.size).size_le h.size, hout.traces ht hwhole⟩

theorem runs_okay {calls : List RatchetCall} {past : History} (h : SkippedOkay L sound past)
    (hwhole : Along (step L) (fun call past => sound → TurnsWhole L call past) calls past) :
    SkippedOkay L sound (runs (step L) calls past) :=
  hwhole.invariant (fun call _ hcall hpast => step_okay call hcall hpast) h

theorem initRatchet_fresh {rootSeed : Bytes} {amInitiator : Bool} {remoteDhPub : Option Bytes}
    {rootSuite : RatchetRootSuite}
    (h : initRatchet L rootSeed amInitiator remoteDhPub rootSuite secretKey = .ok state) :
    state.receivingChainKey = none ∧ state.skipped = OrdMap.empty := by
  unfold initRatchet at h
  split at h
  · split at h
    · cases h
    · obtain ⟨dhOut, -, h⟩ := except_bind_eq_ok.mp h
      cases h
      exact ⟨rfl, rfl⟩
  · cases h
    exact ⟨rfl, rfl⟩

theorem initRatchet_okay {rootSeed : Bytes} {amInitiator : Bool} {remoteDhPub : Option Bytes}
    {rootSuite : RatchetRootSuite}
    (h : initRatchet L rootSeed amInitiator remoteDhPub rootSuite secretKey = .ok state) :
    SkippedOkay L sound (History.start state) := by
  have hfresh := initRatchet_fresh h
  refine ⟨?_, ⟨toLex (0, 0), fun _ => none, []⟩, Supply.once_start _, le_refl _, fun k hk => ?_,
    fun key mk hget => ?_, List.Forall₂.nil⟩
  · show state.skipped.size ≤ MAX_SKIP_SESSION
    rw [hfresh.2]
    exact Nat.zero_le _
  · have hsome : state.receivingChainKey = some k := hk
    rw [hfresh.1] at hsome
    cases hsome
  · have hsome : state.skipped.get key = some mk := hget
    rw [hfresh.2] at hsome
    cases hsome

/-! ## The bounds -/

/-- The origins of the keys of a run: those of the keys that were returned are all different, and
a stored key has one that is neither among them nor that of another stored key. -/
structure Origins (L : LibCrypto) (past : History) (issued : List (Nat × Nat))
    (origin : String → Nat × Nat) : Prop where
  returned : List.Forall₂ (Derived L past.opened) issued past.returned
  once : issued.Nodup
  stored : ∀ key mk, past.state.skipped.get key = some mk → Derived L past.opened (origin key) mk
  unreturned : ∀ key ∈ past.state.skipped.keys, origin key ∉ issued
  own : ∀ key ∈ past.state.skipped.keys, ∀ key' ∈ past.state.skipped.keys,
    origin key = origin key' → key = key'

/-- Every stored key is the one that the chain for its remote key has at its index. -/
def Named (L : LibCrypto) (past : History) : Prop :=
  ∀ key mk, past.state.skipped.get key = some mk → ∃ pub n chainKey,
    key = skippedKey pub n ∧ (pub, chainKey) ∈ past.opened ∧ mk = messageKeyAt L chainKey n

theorem SkippedOkay.origins {past : History} (h : SkippedOkay L sound past) :
    ∃ issued origin, Origins L past issued origin := by
  obtain ⟨supply, ht⟩ := h.traces
  have hkept : ∀ key ∈ past.state.skipped.keys,
      ∃ o, supply.kept key = some o ∧ (supply.kept key).getD (toLex (0, 0)) = o := by
    intro key hkey
    obtain ⟨mk, hmem⟩ := OrdMap.mem_keys_iff.mp hkey
    obtain ⟨o, ho, -⟩ := ht.stored key mk (OrdMap.get_eq_some_iff.mpr hmem)
    exact ⟨o, ho, by rw [ho]; rfl⟩
  refine ⟨supply.out.map ofLex, fun key => ofLex ((supply.kept key).getD (toLex (0, 0))), ?_, ?_, ?_,
    ?_, ?_⟩
  · rw [List.forall₂_map_left_iff]
    exact ht.returned
  · exact ht.once.nodup.map ofLex.injective
  · intro key mk hget
    obtain ⟨o, ho, hder, -⟩ := ht.stored key mk hget
    rw [ho]
    exact hder
  · intro key hkey hin
    obtain ⟨o, ho, heq⟩ := hkept key hkey
    rw [heq, List.mem_map] at hin
    obtain ⟨o', ho', heq'⟩ := hin
    exact ht.once.apart key o ho (ofLex.injective heq' ▸ ho')
  · intro key hkey key' hkey' hsame
    obtain ⟨o, ho, heq⟩ := hkept key hkey
    obtain ⟨o', ho', heq'⟩ := hkept key' hkey'
    rw [heq, heq'] at hsame
    obtain rfl := ofLex.injective hsame
    exact ht.once.own key key' o ho ho'

theorem SkippedOkay.named {past : History} (h : SkippedOkay L True past) : Named L past := by
  obtain ⟨supply, ht⟩ := h.traces
  intro key mk hget
  obtain ⟨o, -, -, hnamed⟩ := ht.stored key mk hget
  obtain ⟨pub, chainKey, hopen, hmk, hkey⟩ := hnamed trivial
  exact ⟨pub, _, chainKey, hkey, List.mem_of_getElem? hopen, hmk⟩

/-- After any calls, each returning or throwing: the map is within its bound; a call takes one key
out, or adds at most `2 * MAX_SKIP` at the end and drops the oldest beyond the bound; every key,
returned or stored, is a different one of those that the opened chains have, so that no key is
returned twice. Unless a DH step has failed at its first agreement, the stored keys are those that
the chains for their remote keys have at their indices. -/
theorem skipped_keys_bounded {rootSeed : Bytes} {amInitiator : Bool} {remoteDhPub : Option Bytes}
    {rootSuite : RatchetRootSuite}
    (hinit : initRatchet L rootSeed amInitiator remoteDhPub rootSuite secretKey = .ok state)
    (calls : List RatchetCall) :
    (runs (step L) calls (History.start state)).state.skipped.size ≤ MAX_SKIP_SESSION ∧
    (∀ header secretKey, Stores (runs (step L) calls (History.start state)).state
      (finalState ((ratchetDecrypt L header secretKey).run
        (runs (step L) calls (History.start state)).state))) ∧
    (∃ issued origin, Origins L (runs (step L) calls (History.start state)) issued origin) ∧
    (Along (step L) (TurnsWhole L) calls (History.start state) →
      Named L (runs (step L) calls (History.start state))) := by
  have hall : ∀ past, Along (step L) (fun call past => False → TurnsWhole L call past) calls past := by
    induction calls with
    | nil => exact fun _ => trivial
    | cons call calls ih => exact fun past => ⟨False.elim, ih _⟩
  have hok : SkippedOkay L False (runs (step L) calls (History.start state)) :=
    runs_okay (initRatchet_okay hinit) (hall _)
  refine ⟨hok.size, fun header secretKey => ?_, hok.origins, fun hwhole => ?_⟩
  · exact (ratchetDecrypt_outcome _ header secretKey).stores hok.size
  · have hsound : SkippedOkay L True (runs (step L) calls (History.start state)) :=
      hwhole.invariant (fun call _ hcall hpast => step_okay call (fun _ => hcall) hpast)
        (initRatchet_okay hinit)
    exact hsound.named

/-- A module whose X25519 refuses the identity point. -/
def identityRefused : LibCrypto :=
  { LibCrypto.transparent with
    x25519Scalarmult := fun a p => if p = List.replicate 32 0 then none else
      LibCrypto.transparent.x25519Scalarmult a p }

/-- A responder before its first message. -/
def freshResponder : RatchetState where
  rootSuite := .hybridMlkem768
  rootKey := List.replicate 32 7
  sendingChainKey := none
  receivingChainKey := none
  dhSelfPub := identityRefused.x25519Base (List.replicate 32 3)
  dhSelfSec := List.replicate 32 3
  dhRemotePub := none
  Ns := 0
  Nr := 0
  PN := 0
  skipped := OrdMap.empty

/-- It is primed; a header with the identity point fails at the first agreement, and the next one
with that point reads on in the old chain. -/
def identityCalls : List RatchetCall :=
  [.primeResponderRatchet (List.replicate 32 5) (List.replicate 32 9),
   .ratchetDecrypt ⟨List.replicate 32 0, 0, 0⟩ (List.replicate 32 11),
   .ratchetDecrypt ⟨List.replicate 32 0, 1, 0⟩ (List.replicate 32 13)]

theorem freshResponder_init : initRatchet identityRefused (List.replicate 32 7) false none
    .hybridMlkem768 (List.replicate 32 3) = .ok freshResponder := rfl

/-- Its key is stored under a remote key for which no chain has been opened. -/
theorem skipped_key_without_chain :
    ¬ Named identityRefused (runs (step identityRefused) identityCalls (History.start freshResponder)) := by
  intro h
  have hopened : (runs (step identityRefused) identityCalls
      (History.start freshResponder)).opened.map Prod.fst = [List.replicate 32 5] := by decide +kernel
  have hstored : ((runs (step identityRefused) identityCalls
      (History.start freshResponder)).state.skipped.get (skippedKey (List.replicate 32 0) 0)).isSome =
        true := by decide +kernel
  obtain ⟨mk, hmk⟩ := Option.isSome_iff_exists.mp hstored
  obtain ⟨pub, n, chainKey, hkey, hmem, -⟩ := h _ mk hmk
  have hpub : pub ∈ [List.replicate 32 (5 : UInt8)] := hopened ▸ List.mem_map_of_mem hmem
  rw [← (skippedKey_inj.mp hkey).1] at hpub
  exact absurd hpub (by decide)

/-- A responder that is primed and passes two messages. -/
theorem skipped_keys_bounded_two :
    (runs (step identityRefused) [.primeResponderRatchet (List.replicate 32 5) (List.replicate 32 9),
      .ratchetDecrypt ⟨List.replicate 32 5, 2, 0⟩ (List.replicate 32 11)]
      (History.start freshResponder)).state.skipped.size = 2 ∧
    Named identityRefused (runs (step identityRefused)
      [.primeResponderRatchet (List.replicate 32 5) (List.replicate 32 9),
        .ratchetDecrypt ⟨List.replicate 32 5, 2, 0⟩ (List.replicate 32 11)]
      (History.start freshResponder)) := by
  refine ⟨by decide +kernel, (skipped_keys_bounded freshResponder_init _).2.2.2 ⟨trivial, ?_, trivial⟩⟩
  rintro ⟨-, hnew, -⟩
  exact absurd hnew (by decide +kernel)

end SkippedKeys

end P2Party
