import P2Party.Cryptography.Ratchet

/-!
# What every ratchet state satisfies

Every state reached from the set-up by `ratchetEncrypt` and `ratchetDecrypt` has
keys of 32 bytes, a remote key as soon as it has a chain, and a bounded skipped map
whose names and keys are spelled the way `skipMessageKeys` spells them.

- `RatchetOk`: the invariant; `RatchetOk.canonical`: such a state clones to itself;
- `initRatchet_ok`, `primeResponderRatchet_ok`: the set-up establishes it;
- `RatchetOk.encrypt`, `ratchetDecrypt_keeps`: one step of either side keeps it;
- `RatchetOk.wiped`: so does wiping.
-/

namespace P2Party

open Base

/-- One skipped key: named after a public key and a safe index. -/
def SkippedOk (entry : String × Bytes) : Prop :=
  ∃ dhPub n, entry.1 = skippedKey dhPub n ∧ dhPub.length = 32 ∧ n ≤ MAX_SAFE_INTEGER ∧
    entry.2.length = 32

/-- The lengths and names of a ratchet state. -/
structure RatchetShape (state : RatchetState) : Prop where
  rootKey : state.rootKey.length = 32
  dhSelfPub : state.dhSelfPub.length = 32
  dhSelfSec : state.dhSelfSec.length = 32
  sending : ∀ key ∈ state.sendingChainKey, key.length = 32
  receiving : ∀ key ∈ state.receivingChainKey, key.length = 32
  remote : ∀ key ∈ state.dhRemotePub, key.length = 32
  linked : state.sendingChainKey.isSome = true ∨ state.receivingChainKey.isSome = true ∨
    0 < state.skipped.size → state.dhRemotePub ≠ none
  skipped : ∀ entry ∈ state.skipped.entries, SkippedOk entry

/-- What every ratchet state satisfies. -/
structure RatchetOk (state : RatchetState) : Prop extends RatchetShape state where
  size : state.skipped.size ≤ MAX_SKIP_SESSION

theorem RatchetOk.canonical {state : RatchetState} (h : RatchetOk state) : state.Canonical :=
  fun e he => by
    obtain ⟨dhPub, n, hkey, -⟩ := h.skipped e he
    exact ⟨dhPub, n, hkey⟩

variable {L : LibCrypto} {state state' : RatchetState} {header : RatchetHeader} {secretKey : Bytes}

/-! ## Key schedules -/

theorem length_kdfCk (chainKey : Bytes) :
    (kdfCk L chainKey).1.length = 32 ∧ (kdfCk L chainKey).2.length = 32 := by
  simp [kdfCk]

theorem length_kdfRk (rootKey dhOut : Bytes) :
    (kdfRk L rootKey dhOut).1.length = 32 ∧ (kdfRk L rootKey dhOut).2.length = 32 := by
  simp [kdfRk]

/-! ## Sending and wiping -/

theorem RatchetOk.encrypt (h : RatchetOk state) {result : Bytes × RatchetHeader}
    (hrun : (ratchetEncrypt L).run state = .ok result state') :
    RatchetOk state' ∧ state'.rootSuite = state.rootSuite := by
  cases hchain : state.sendingChainKey with
  | none =>
    have herr : (ratchetEncrypt L).run state = .error (.error "ratchet: no sending chain") state := by
      unfold ratchetEncrypt
      rw [run_get_bind, hchain]
      rfl
    rw [herr] at hrun
    cases hrun
  | some chainKey =>
    rw [ratchetEncrypt_run L hchain] at hrun
    cases hrun
    refine ⟨⟨⟨h.rootKey, h.dhSelfPub, h.dhSelfSec, ?_, h.receiving, h.remote, ?_, h.skipped⟩, h.size⟩,
      rfl⟩
    · rintro _ ⟨⟩
      exact (length_kdfCk chainKey).1
    · exact fun _ => h.linked (.inl (by rw [hchain]; rfl))

theorem RatchetOk.wiped (h : RatchetOk state) :
    RatchetOk (wipeRatchet state) ∧ (wipeRatchet state).rootSuite = state.rootSuite := by
  have hzeros : ∀ {value : Option Bytes}, (∀ key ∈ value, key.length = 32) →
      ∀ key ∈ value.map (fun bs => List.replicate bs.length (0 : UInt8)), key.length = 32 := by
    intro value hvalue key hkey
    obtain ⟨original, horiginal, rfl⟩ := Option.map_eq_some_iff.mp hkey
    rw [List.length_replicate, hvalue original horiginal]
  refine ⟨⟨⟨?_, h.dhSelfPub, ?_, hzeros h.sending, hzeros h.receiving, h.remote, ?_, ?_⟩, ?_⟩, rfl⟩
  · exact List.length_replicate.trans h.rootKey
  · exact List.length_replicate.trans h.dhSelfSec
  · intro hchain
    refine h.linked ?_
    simpa [wipeRatchet, OrdMap.size] using hchain
  · intro entry hentry
    obtain ⟨original, horiginal, rfl⟩ := List.mem_map.mp hentry
    obtain ⟨dhPub, n, hkey, hdh, hn, hmk⟩ := h.skipped original horiginal
    exact ⟨dhPub, n, hkey, hdh, hn, List.length_replicate.trans hmk⟩
  · show (List.map _ _).length ≤ _
    rw [List.length_map]
    exact h.size

/-! ## Receiving -/

/-- A step of the receiving side keeps this: the invariant and the suite. -/
def RatchetIn (suite : RatchetRootSuite) (state : RatchetState) : Prop :=
  RatchetOk state ∧ state.rootSuite = suite

theorem RatchetShape.skipOne (h : RatchetShape state) (hchain : state.receivingChainKey.isSome = true)
    (hNr : state.Nr ≤ MAX_SAFE_INTEGER) : RatchetShape (skipOne L state) := by
  have hremote : state.dhRemotePub ≠ none := h.linked (.inr (.inl hchain))
  refine ⟨h.rootKey, h.dhSelfPub, h.dhSelfSec, h.sending, ?_, h.remote, fun _ => hremote, ?_⟩
  · rintro _ ⟨⟩
    exact (length_kdfCk _).1
  · intro entry hentry
    rcases OrdMap.mem_set_entries.mp hentry with rfl | ⟨hold, -⟩
    · obtain ⟨pub, hpub⟩ := Option.ne_none_iff_exists'.mp hremote
      exact ⟨pub, state.Nr, by rw [hpub]; rfl, h.remote pub hpub, hNr, (length_kdfCk _).2⟩
    · exact h.skipped entry hold

/-- The loop of `skipMessageKeys` up to a safe index. -/
theorem RatchetShape.skipLoop (n : Nat) (h : RatchetShape state)
    (hchain : state.receivingChainKey.isSome = true) (hend : state.Nr + n ≤ MAX_SAFE_INTEGER + 1) :
    RatchetShape (skipLoop L n state) ∧ (skipLoop L n state).receivingChainKey.isSome = true ∧
      (skipLoop L n state).rootSuite = state.rootSuite := by
  induction n generalizing state with
  | zero => exact ⟨h, hchain, rfl⟩
  | succ n ih =>
    have hNr : state.Nr ≤ MAX_SAFE_INTEGER := by omega
    have hnext : (P2Party.skipOne L state).Nr + n ≤ MAX_SAFE_INTEGER + 1 := by
      show state.Nr + 1 + n ≤ _
      omega
    exact ih (h.skipOne hchain hNr) rfl hnext

theorem evictSkipped_ok (h : RatchetShape state) (hchain : state.receivingChainKey.isSome = true) :
    RatchetOk (evictSkipped state) := by
  have hremote : state.dhRemotePub ≠ none := h.linked (.inr (.inl hchain))
  exact ⟨⟨h.rootKey, h.dhSelfPub, h.dhSelfSec, h.sending, h.receiving, h.remote, fun _ => hremote,
    fun entry hentry => h.skipped entry (OrdMap.mem_of_mem_evictLoop hentry)⟩,
    OrdMap.size_evictLoop_le fun _ hk => hk⟩

theorem skipMessageKeys_keeps {suite : RatchetRootSuite} {upTo : Nat}
    (hupTo : upTo ≤ MAX_SAFE_INTEGER) : Keeps (RatchetIn suite) (skipMessageKeys L upTo) := by
  rintro state ⟨h, hsuite⟩
  by_cases hskip : upTo ≤ state.Nr + MAX_SKIP
  · cases hchain : state.receivingChainKey with
    | none =>
      rw [skipMessageKeys_run_none L hskip hchain]
      exact ⟨h, hsuite⟩
    | some chainKey =>
      rw [skipMessageKeys_run_some L hskip hchain]
      have hsome : state.receivingChainKey.isSome = true := by rw [hchain]; rfl
      by_cases hle : state.Nr ≤ upTo
      · obtain ⟨hshape, hchain', hsuite'⟩ := h.toRatchetShape.skipLoop (L := L) (upTo - state.Nr)
          hsome (by omega)
        exact ⟨evictSkipped_ok hshape hchain', hsuite'.trans hsuite⟩
      · have hzero : upTo - state.Nr = 0 := by omega
        rw [hzero]
        exact ⟨evictSkipped_ok h.toRatchetShape hsome, hsuite⟩
  · unfold skipMessageKeys
    rw [run_get_bind, run_ensure_of_not hskip]
    exact ⟨h, hsuite⟩

theorem dhRatchet_keeps {suite : RatchetRootSuite} (hdh : header.dhPub.length = 32)
    (hsec : secretKey.length = 32) : Keeps (RatchetIn suite) (dhRatchet L header secretKey) := by
  rintro state ⟨h, hsuite⟩
  have hremote : ∀ key ∈ some header.dhPub, key.length = 32 := by
    rintro _ ⟨⟩
    exact hdh
  have hkey : ∀ rk dhOut : Bytes, ∀ key ∈ some (kdfRk L rk dhOut).2, key.length = 32 := by
    rintro rk dhOut _ ⟨⟩
    exact (length_kdfRk rk dhOut).2
  unfold dhRatchet LibCrypto.x25519Dh
  simp only [EStateM.run_bind, EStateM.run_modify, EStateM.run_get]
  cases hfirst : L.x25519Scalarmult state.dhSelfSec header.dhPub with
  | none =>
    exact ⟨⟨⟨h.rootKey, h.dhSelfPub, h.dhSelfSec, h.sending, h.receiving, hremote,
      fun _ => Option.some_ne_none _, h.skipped⟩, h.size⟩, hsuite⟩
  | some dhOut =>
    cases hsecond : L.x25519Scalarmult secretKey header.dhPub with
    | none =>
      exact ⟨⟨⟨(length_kdfRk _ _).1, L.length_x25519Base _, hsec, h.sending, hkey _ _, hremote,
        fun _ => Option.some_ne_none _, h.skipped⟩, h.size⟩, hsuite⟩
    | some dhOut' =>
      exact ⟨⟨⟨(length_kdfRk _ _).1, L.length_x25519Base _, hsec, hkey _ _, hkey _ _, hremote,
        fun _ => Option.some_ne_none _, h.skipped⟩, h.size⟩, hsuite⟩

theorem trySkipped_keeps {suite : RatchetRootSuite} : Keeps (RatchetIn suite) (trySkipped header) := by
  rintro state ⟨h, hsuite⟩
  cases hget : state.skipped.get (skippedKey header.dhPub header.N) with
  | none =>
    rw [trySkipped_run_miss hget]
    exact ⟨h, hsuite⟩
  | some mk =>
    rw [trySkipped_run_hit hget]
    have hpos : 0 < state.skipped.size :=
      List.length_pos_of_mem (OrdMap.get_eq_some_iff.mp hget)
    refine ⟨⟨⟨h.rootKey, h.dhSelfPub, h.dhSelfSec, h.sending, h.receiving, h.remote,
      fun _ => h.linked (.inr (.inr hpos)), fun entry hentry => ?_⟩, ?_⟩, hsuite⟩
    · exact h.skipped entry (OrdMap.mem_delete_entries.mp hentry).1
    · exact Nat.le_trans (OrdMap.size_delete_le _ _) h.size

theorem receiveFromChain_keeps {suite : RatchetRootSuite} (hN : header.N ≤ MAX_SAFE_INTEGER) :
    Keeps (RatchetIn suite) (receiveFromChain L header) := by
  rintro state ⟨h, hsuite⟩
  unfold receiveFromChain
  rw [run_get_bind]
  by_cases hNr : state.Nr ≤ header.N
  · rw [run_ensure_of hNr]
    refine Keeps.bind (skipMessageKeys_keeps hN) (fun _ => ?_) state ⟨h, hsuite⟩
    rintro state' ⟨h', hsuite'⟩
    rw [run_get_bind]
    cases hchain : state'.receivingChainKey with
    | none => exact ⟨h', hsuite'⟩
    | some chainKey =>
      refine ⟨⟨⟨h'.rootKey, h'.dhSelfPub, h'.dhSelfSec, h'.sending, ?_, h'.remote, ?_, h'.skipped⟩,
        h'.size⟩, hsuite'⟩
      · rintro _ ⟨⟩
        exact (length_kdfCk chainKey).1
      · exact fun _ => h'.linked (.inr (.inl (by rw [hchain]; rfl)))
  · rw [run_ensure_of_not hNr]
    exact ⟨h, hsuite⟩

/-- A receive with a header that fits the wire keeps the invariant, whether it
returns or throws. -/
theorem ratchetDecrypt_keeps {suite : RatchetRootSuite} (hdh : header.dhPub.length = 32)
    (hN : header.N ≤ MAX_SAFE_INTEGER) (hPN : header.PN ≤ MAX_SAFE_INTEGER)
    (hsec : secretKey.length = 32) :
    Keeps (RatchetIn suite) (ratchetDecrypt L header secretKey) := by
  refine Keeps.bind trySkipped_keeps fun found => ?_
  cases found with
  | some messageKey => exact fun state h => h
  | none =>
    rintro state h
    rw [run_get_bind]
    by_cases hnew : state.isNewDh header = true
    · simp only [hnew, if_true]
      exact Keeps.bind (skipMessageKeys_keeps hPN)
        (fun _ => Keeps.bind (dhRatchet_keeps hdh hsec) fun _ => receiveFromChain_keeps hN) state h
    · simp only [hnew]
      exact receiveFromChain_keeps hN state h

/-! ## The set-up -/

theorem initRatchet_ok {rootSeed : Bytes} {amInitiator : Bool} {remoteDhPub : Option Bytes}
    {suite : RatchetRootSuite} (hseed : rootSeed.length = 32) (hsec : secretKey.length = 32)
    (hremote : ∀ key ∈ remoteDhPub, key.length = 32)
    (h : initRatchet L rootSeed amInitiator remoteDhPub suite secretKey = .ok state) :
    RatchetIn suite state := by
  have hnone : ∀ key ∈ (none : Option Bytes), key.length = 32 := by
    rintro _ ⟨⟩
  have hempty : ∀ entry ∈ (OrdMap.empty : OrdMap String Bytes).entries, SkippedOk entry := by
    rintro _ ⟨⟩
  unfold initRatchet at h
  cases amInitiator with
  | false =>
    cases h
    refine ⟨⟨⟨hseed, L.length_x25519Base _, hsec, hnone, hnone, hnone, ?_, hempty⟩, Nat.zero_le _⟩, rfl⟩
    rintro (h | h | h) <;> cases h
  | true =>
    cases remoteDhPub with
    | none => cases h
    | some remote =>
      obtain ⟨dhOut, -, h⟩ := except_bind_eq_ok.mp h
      cases h
      refine ⟨⟨⟨(length_kdfRk _ _).1, L.length_x25519Base _, hsec, ?_, hnone, hremote,
        fun _ => Option.some_ne_none _, hempty⟩, Nat.zero_le _⟩, rfl⟩
      rintro _ ⟨⟩
      exact (length_kdfRk _ _).2

theorem primeResponderRatchet_ok {suite : RatchetRootSuite} {initiatorDhPub : Bytes}
    (hsec : secretKey.length = 32) (h : RatchetIn suite state)
    (hrun : (primeResponderRatchet L initiatorDhPub secretKey).run state = .ok () state') :
    RatchetIn suite state' := by
  unfold primeResponderRatchet at hrun
  obtain ⟨_, s₁, hlen, hrun⟩ := bind_eq_ok.mp hrun
  rw [run_ensure] at hlen
  split at hlen
  case isFalse => cases hlen
  case isTrue hdh =>
    cases hlen
    rw [run_get_bind] at hrun
    obtain ⟨_, s₂, hpristine, hrun⟩ := bind_eq_ok.mp hrun
    rw [run_ensure] at hpristine
    split at hpristine
    case isFalse => cases hpristine
    case isTrue =>
      cases hpristine
      have hkeeps := @dhRatchet_keeps L ⟨initiatorDhPub, 0, 0⟩ secretKey suite hdh hsec state h
      rw [hrun] at hkeeps
      exact hkeeps

end P2Party
