import P2Party.Cryptography.Ratchet

/-!
# What a receive of any header does

`ratchetDecrypt` trusts nothing, so nothing is assumed here: whatever the state and the
header are, a receive that returns has taken a stored key, read on in the current chain, or
made a DH step and read in the new one. The map afterwards holds keys it held before and keys
of the indices the receive passed; entries may have been evicted.

- `ComesFrom`: where the entries of the map come from;
- `skipMessageKeys_ok`, `dhRatchet_ok`, `receiveFromChain_ok`: the parts of a receive;
- `Receive`, `ratchetDecrypt_ok`: the three ways through a receive;
- `receive_ne`: each of them changes the state.
-/

namespace P2Party

open Base

variable {L : LibCrypto} {state state' : RatchetState} {header : RatchetHeader} {messageKey secretKey : Bytes}

/-- Every entry of the new map is an entry of the old one or has a name of the given set. -/
def ComesFrom (old new : OrdMap String Bytes) (names : String → Prop) : Prop :=
  ∀ key mk, new.get key = some mk → old.get key = some mk ∨ names key

/-- The names of the indices `[a, b)` of a chain. -/
def chainNames (pub : Bytes) (a b : Nat) (key : String) : Prop :=
  ∃ i, a ≤ i ∧ i < b ∧ key = skippedKey pub i

theorem ComesFrom.refl (m : OrdMap String Bytes) (names : String → Prop) : ComesFrom m m names :=
  fun _ _ h => Or.inl h

theorem ComesFrom.trans {a b c : OrdMap String Bytes} {names names' : String → Prop}
    (h : ComesFrom a b names) (h' : ComesFrom b c names') :
    ComesFrom a c fun key => names key ∨ names' key := by
  intro key mk hget
  rcases h' key mk hget with hb | hname
  · exact (h key mk hb).imp_right Or.inl
  · exact Or.inr (Or.inr hname)

theorem ComesFrom.imp {a b : OrdMap String Bytes} {names names' : String → Prop}
    (h : ComesFrom a b names) (hnames : ∀ key, names key → names' key) : ComesFrom a b names' :=
  fun key mk hget => (h key mk hget).imp_right (hnames key)

/-! ## The parts of a receive -/

/-- The loop moves the chain on and stores what it passes. -/
theorem skipLoop_comesFrom (n : Nat) (hsome : state.receivingChainKey.isSome = true) :
    ∃ chainKey skipped, skipLoop L n state = { state with
        receivingChainKey := some chainKey, Nr := state.Nr + n, skipped } ∧
      ComesFrom state.skipped skipped
        (chainNames (state.dhRemotePub.getD []) state.Nr (state.Nr + n)) := by
  induction n generalizing state with
  | zero =>
    obtain ⟨chainKey, hchain⟩ := Option.isSome_iff_exists.mp hsome
    refine ⟨chainKey, state.skipped, ?_, ComesFrom.refl _ _⟩
    rw [skipLoop, Nat.add_zero, ← hchain]
  | succ n ih =>
    obtain ⟨chainKey, skipped, hloop, hfrom⟩ := @ih (skipOne L state) rfl
    refine ⟨chainKey, skipped, ?_, ?_⟩
    · rw [skipLoop, hloop, show (skipOne L state).Nr = state.Nr + 1 from rfl, Nat.add_assoc, Nat.add_comm 1 n]
      rfl
    · intro key mk hget
      rcases hfrom key mk hget with hone | ⟨i, ha, hb, rfl⟩
      · by_cases hkey : key = skippedKey (state.dhRemotePub.getD []) state.Nr
        · exact Or.inr ⟨state.Nr, Nat.le_refl _, by omega, hkey⟩
        · refine Or.inl ?_
          rw [← hone]
          exact (OrdMap.get_set_ne _ _ hkey).symm
      · rw [show (skipOne L state).Nr = state.Nr + 1 from rfl] at ha hb
        exact Or.inr ⟨i, by omega, by omega, rfl⟩

theorem comesFrom_evict (m : OrdMap String Bytes) (max : Nat) (ks : List String) (names : String → Prop) :
    ComesFrom m (OrdMap.evictLoop max ks m) names := fun _ _ hget =>
  Or.inl (OrdMap.get_eq_some_iff.mpr (OrdMap.mem_of_mem_evictLoop (OrdMap.get_eq_some_iff.mp hget)))

/-- Skipping changes the receiving chain, its counter and the map. -/
theorem skipMessageKeys_ok {upTo : Nat} (h : (skipMessageKeys L upTo).run state = .ok () state') :
    ∃ chain Nr skipped, state' = { state with receivingChainKey := chain, Nr, skipped } ∧
      (chain.isSome = true → Nr = max state.Nr upTo) ∧
      ComesFrom state.skipped skipped (chainNames (state.dhRemotePub.getD []) state.Nr upTo) := by
  unfold skipMessageKeys at h
  rw [run_get_bind] at h
  obtain ⟨-, h⟩ := ensure_bind_eq_ok.mp h
  cases hchain : state.receivingChainKey with
  | none =>
    rw [hchain] at h
    cases h
    refine ⟨none, state.Nr, state.skipped, ?_, fun hsome => (by cases hsome), ComesFrom.refl _ _⟩
    rw [← hchain]
  | some chainKey =>
    rw [hchain] at h
    cases h
    obtain ⟨chainKey', skipped, hloop, hfrom⟩ :=
      skipLoop_comesFrom (L := L) (upTo - state.Nr) (by rw [hchain]; rfl)
    refine ⟨some chainKey', state.Nr + (upTo - state.Nr), _, by rw [hloop]; rfl, fun _ => by omega, ?_⟩
    refine ((hfrom.trans (comesFrom_evict _ _ _ fun _ => False)).imp fun key hkey => ?_)
    rcases hkey with ⟨i, ha, hb, rfl⟩ | hfalse
    · exact ⟨i, ha, by omega, rfl⟩
    · exact hfalse.elim

/-- A DH step has made two agreements, each followed by a step of the root chain. -/
theorem dhRatchet_ok (h : (dhRatchet L header secretKey).run state = .ok () state') :
    ∃ dhOut dhOut', L.x25519Dh state.dhSelfSec header.dhPub = .ok dhOut ∧
      L.x25519Dh secretKey header.dhPub = .ok dhOut' ∧
      state' = { state with
        PN := state.Ns
        Ns := 0
        Nr := 0
        dhRemotePub := some header.dhPub
        receivingChainKey := some (kdfRk L state.rootKey dhOut).2
        dhSelfPub := L.x25519Base secretKey
        dhSelfSec := secretKey
        rootKey := (kdfRk L (kdfRk L state.rootKey dhOut).1 dhOut').1
        sendingChainKey := some (kdfRk L (kdfRk L state.rootKey dhOut).1 dhOut').2 } := by
  unfold dhRatchet at h
  rw [run_modify_bind, run_get_bind] at h
  obtain ⟨dhOut, hout, h⟩ := attempt_bind_eq_ok.mp h
  rw [run_modify_bind, run_modify_bind] at h
  obtain ⟨dhOut', hout', h⟩ := attempt_bind_eq_ok.mp h
  cases h
  exact ⟨dhOut, dhOut', hout, hout', rfl⟩

/-- Reading in a chain: the index is not behind the counter, which ends one past it. -/
theorem receiveFromChain_ok (h : (receiveFromChain L header).run state = .ok messageKey state') :
    state.Nr ≤ header.N ∧ ∃ chainKey skipped, state' = { state with
        receivingChainKey := some chainKey, Nr := header.N + 1, skipped } ∧
      ComesFrom state.skipped skipped (chainNames (state.dhRemotePub.getD []) state.Nr header.N) := by
  unfold receiveFromChain at h
  rw [run_get_bind] at h
  obtain ⟨hN, h⟩ := ensure_bind_eq_ok.mp h
  obtain ⟨_, mid, hskip, h⟩ := bind_eq_ok.mp h
  obtain ⟨chain, Nr, skipped, rfl, hNr, hfrom⟩ := skipMessageKeys_ok hskip
  rw [run_get_bind] at h
  cases chain with
  | none => cases h
  | some chainKey =>
    have hcounter := hNr rfl
    cases h
    refine ⟨hN, (kdfCk L chainKey).1, skipped, ?_, hfrom⟩
    dsimp only
    rw [hcounter, Nat.max_eq_right hN]
    rfl

/-! ## The three ways through a receive -/

/-- What a receive that returns has done. -/
inductive Receive (L : LibCrypto) (state : RatchetState) (header : RatchetHeader) (secretKey : Bytes) :
    RatchetState → Prop
  | stored {mk : Bytes} (hget : state.skipped.get (skippedKey header.dhPub header.N) = some mk) :
    Receive L state header secretKey
      { state with skipped := state.skipped.delete (skippedKey header.dhPub header.N) }
  | current (chainKey : Bytes) (skipped : OrdMap String Bytes)
      (hget : state.skipped.get (skippedKey header.dhPub header.N) = none)
      (hremote : state.dhRemotePub = some header.dhPub) (hN : state.Nr ≤ header.N)
      (hfrom : ComesFrom state.skipped skipped (chainNames header.dhPub state.Nr header.N)) :
    Receive L state header secretKey
      { state with receivingChainKey := some chainKey, Nr := header.N + 1, skipped }
  | newDh (chainKey : Bytes) (skipped : OrdMap String Bytes) (dhOut dhOut' : Bytes)
      (hget : state.skipped.get (skippedKey header.dhPub header.N) = none)
      (hremote : state.dhRemotePub ≠ some header.dhPub)
      (hout : L.x25519Dh state.dhSelfSec header.dhPub = .ok dhOut)
      (hout' : L.x25519Dh secretKey header.dhPub = .ok dhOut')
      (hfrom : ComesFrom state.skipped skipped fun key =>
        chainNames (state.dhRemotePub.getD []) state.Nr header.PN key ∨ chainNames header.dhPub 0 header.N key) :
    Receive L state header secretKey
      { state with
        PN := state.Ns
        Ns := 0
        Nr := header.N + 1
        dhRemotePub := some header.dhPub
        receivingChainKey := some chainKey
        dhSelfPub := L.x25519Base secretKey
        dhSelfSec := secretKey
        rootKey := (kdfRk L (kdfRk L state.rootKey dhOut).1 dhOut').1
        sendingChainKey := some (kdfRk L (kdfRk L state.rootKey dhOut).1 dhOut').2
        skipped }

theorem ratchetDecrypt_ok (h : (ratchetDecrypt L header secretKey).run state = .ok messageKey state') :
    Receive L state header secretKey state' := by
  cases hget : state.skipped.get (skippedKey header.dhPub header.N) with
  | some mk =>
    rw [ratchetDecrypt_run_hit L hget] at h
    cases h
    exact .stored hget
  | none =>
    cases hnew : state.isNewDh header with
    | false =>
      have hremote : state.dhRemotePub = some header.dhPub := by simpa [RatchetState.isNewDh] using hnew
      rw [ratchetDecrypt_run_current L hget hnew] at h
      obtain ⟨hN, chainKey, skipped, rfl, hfrom⟩ := receiveFromChain_ok h
      rw [hremote, Option.getD_some] at hfrom
      exact .current chainKey skipped hget hremote hN hfrom
    | true =>
      have hremote : state.dhRemotePub ≠ some header.dhPub := by simpa [RatchetState.isNewDh] using hnew
      unfold ratchetDecrypt at h
      rw [run_bind_of_ok (trySkipped_run_miss hget)] at h
      dsimp only at h
      rw [run_get_bind, if_pos hnew] at h
      obtain ⟨_, left, hskip, h⟩ := bind_eq_ok.mp h
      obtain ⟨_, mid, hdh, h⟩ := bind_eq_ok.mp h
      obtain ⟨chain, Nr, skipped, rfl, -, hfrom⟩ := skipMessageKeys_ok hskip
      obtain ⟨dhOut, dhOut', hout, hout', rfl⟩ := dhRatchet_ok hdh
      obtain ⟨-, chainKey, skipped', rfl, hfrom'⟩ := receiveFromChain_ok h
      exact .newDh chainKey skipped' dhOut dhOut' hget hremote hout hout' (hfrom.trans hfrom')

/-! ## Every receive changes the state -/

theorem size_ofList_le (es : List (String × Bytes)) : (OrdMap.ofList es).size ≤ es.length := by
  have hfold : ∀ m : OrdMap String Bytes,
      (es.foldl (fun m e => m.set e.1 e.2) m).size ≤ m.size + es.length := by
    induction es with
    | nil => exact fun m => Nat.le_refl _
    | cons e es ih =>
      intro m
      have hset := OrdMap.size_set_le m e.1 e.2
      have hrest := ih (m.set e.1 e.2)
      rw [List.foldl_cons, List.length_cons]
      omega
  have hempty := hfold OrdMap.empty
  rwa [OrdMap.size_empty, Nat.zero_add] at hempty

/-- A clone stores no more keys than its original. -/
theorem size_cloneRatchet_le (state : RatchetState) :
    (cloneRatchet state).skipped.size ≤ state.skipped.size := by
  refine Nat.le_trans (size_ofList_le _) ?_
  rw [List.length_map]
  exact Nat.le_of_eq (List.length_map _)

theorem size_delete_lt {m : OrdMap String Bytes} {key : String} {mk : Bytes} (h : m.get key = some mk) :
    (m.delete key).size < m.size := by
  refine List.length_filter_lt_length_iff_exists.mpr ⟨(key, mk), OrdMap.get_eq_some_iff.mp h, ?_⟩
  simp

theorem receive_ne (h : Receive L (cloneRatchet state) header secretKey state') : state' ≠ state := by
  intro heq
  cases h with
  | stored hget =>
    have hsize := congrArg (fun s : RatchetState => s.skipped.size) heq
    have hlt := size_delete_lt hget
    have hle := size_cloneRatchet_le state
    dsimp only at hsize
    omega
  | current chainKey skipped hget hremote hN hfrom =>
    have hcounter := congrArg RatchetState.Nr heq
    rw [show (cloneRatchet state).Nr = state.Nr from rfl] at hN
    dsimp only at hcounter
    omega
  | newDh chainKey skipped dhOut dhOut' hget hremote hout hout' hfrom =>
    exact hremote (congrArg RatchetState.dhRemotePub heq).symm

end P2Party
