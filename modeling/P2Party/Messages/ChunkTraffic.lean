import P2Party.Cryptography.RatchetAgreement
import P2Party.Messages.CommitOnAuthentication

/-!
# Chunks on a hostile network

Two parties seal chunks for each other, and a network that reorders, repeats, alters and
invents frames delivers whatever it likes. It cannot move a receiver with anything but a
chunk of a message that its peer sealed and that it has not yet taken.

Both parties walk the rungs of one ladder of DH keys. A frame that authenticates carries the
header of a sealed chunk, by the AEAD. If it made a DH step, that chunk was keyed from the
root key of the receiver, by the KDF, and only the peer's next rung is.

- `Party`, `World`, `Step`: the parties and the network;
- `Ideal`: what AEAD and KDF are trusted for, at one delivery;
- `Standing`, `Inv`: where the parties stand;
- `Inv.deliver`, `inv_reachable`: a delivery keeps it, and so does a run;
- `commits_on_authentication`: a frame changes a receiver exactly when it authenticates, and
  a repeated or invented one never does.
-/

namespace P2Party

open Base PqHealing RatchetAgreement

namespace ChunkTraffic

variable (L : LibCrypto)

/-! ## The system -/

/-- A message a party began: its key and header, and the root key and DH output its chain
was derived from. -/
structure Message where
  key : Bytes
  header : RatchetHeader
  origin : Bytes × Bytes

/-- A chunk a party sealed. -/
structure Sealed where
  key : Bytes
  nonce : Bytes
  merkleRoot : Bytes
  header : RatchetHeader
  pqEpoch : Nat
  ciphertext : Bytes
  origin : Bytes × Bytes

/-- The associated data of a sealed chunk. -/
def Sealed.aad (s : Sealed) : Bytes := chunkAad s.merkleRoot s.header s.pqEpoch

/-- One party: its receiver, what it began and sealed, the messages it has taken, and what
its sending chain was derived from. -/
structure Party where
  receiver : ChunkReceiver
  messages : List Message
  sealed : List Sealed
  accepted : List (Bytes × Nat)
  origin : Bytes × Bytes

/-- Both parties, every DH public key and every root key so far. -/
structure World where
  party : Role → Party
  drawn : List Bytes
  roots : List Bytes

/-- The shared secret of a DH step. -/
def dhOut (secretKey publicKey : Bytes) : Bytes := (L.x25519Scalarmult secretKey publicKey).getD []

/-- What the receiving chain of a DH step is derived from. -/
def receivingOrigin (state : RatchetState) (header : RatchetHeader) : Bytes × Bytes :=
  (state.rootKey, dhOut L state.dhSelfSec header.dhPub)

/-- What its sending chain is derived from. -/
def sendingOrigin (state : RatchetState) (header : RatchetHeader) (secretKey : Bytes) : Bytes × Bytes :=
  ((kdfRk L state.rootKey (dhOut L state.dhSelfSec header.dhPub)).1, dhOut L secretKey header.dhPub)

/-- A frame arrives. When it is adopted its message is noted, and with a DH step the new keys. -/
def World.deliver (w : World) (r : Role) (frame merkleRoot : Bytes)
    (resolver : Option PqMessageKeyContextResolver) (secretKey : Bytes) : World :=
  let before := (w.party r).receiver
  let after := afterChunk L before frame merkleRoot resolver secretKey
  match parseChunkFrameHeader frame with
  | .error _ => { w with party := upd w.party r { w.party r with receiver := after } }
  | .ok parsed =>
    if after.cache = before.cache then { w with party := upd w.party r { w.party r with receiver := after } }
    else
      let accepted := (parsed.header.dhPub, parsed.header.N) :: (w.party r).accepted
      if stepsDh before.state parsed.header then
        { party := upd w.party r { w.party r with
            receiver := after, accepted, origin := sendingOrigin L before.state parsed.header secretKey }
          drawn := after.state.dhSelfPub :: w.drawn
          roots := after.state.rootKey :: w.roots }
      else { w with party := upd w.party r { w.party r with receiver := after, accepted } }

/-- AEAD and KDF at one delivery: a frame that verifies under a key was sealed under it; a
chunk sealed with its header has the key of a DH step only if it was derived from the same
root key and DH output; and the keys of a DH step are new. -/
structure Ideal (w : World) (r : Role) (frame merkleRoot : Bytes)
    (resolver : Option PqMessageKeyContextResolver) (secretKey : Bytes) : Prop where
  unforged : ∀ parsed cacheK key clone,
    Commits L (w.party r).receiver frame merkleRoot resolver secretKey parsed cacheK key clone →
    ∃ q, ∃ s ∈ (w.party q).sealed, s.key = key ∧ s.nonce = frameNonce frame ∧
      s.aad = frameAad merkleRoot frame ∧ s.ciphertext = frameCiphertext frame
  separated : ∀ parsed cacheK key clone,
    Commits L (w.party r).receiver frame merkleRoot resolver secretKey parsed cacheK key clone →
    stepsDh (w.party r).receiver.state parsed.header = true →
    ∀ q, ∀ s ∈ (w.party q).sealed, s.header = parsed.header → s.key = key →
      s.origin = receivingOrigin L (w.party r).receiver.state parsed.header
  fresh : ∀ parsed cacheK key clone,
    Commits L (w.party r).receiver frame merkleRoot resolver secretKey parsed cacheK key clone →
    stepsDh (w.party r).receiver.state parsed.header = true →
    clone.dhSelfPub ∉ w.drawn ∧ clone.rootKey ∉ w.roots

/-- One step: a party begins a message or seals a chunk of one, any frame arrives, or a
cached key is dropped. -/
inductive Step : World → World → Prop
  | encrypt (w : World) (r : Role) {mk : Bytes} {header : RatchetHeader} {state : RatchetState}
      (hrun : (ratchetEncrypt L).run (w.party r).receiver.state = .ok (mk, header) state) :
      Step w { w with party := upd w.party r { w.party r with
        receiver := { (w.party r).receiver with state }
        messages := ⟨mk, header, (w.party r).origin⟩ :: (w.party r).messages } }
  | sealOne (w : World) (r : Role) {m : Message} (hm : m ∈ (w.party r).messages) {chunk merkleRoot : Bytes}
      {pqContext : Option PqMessageKeyContext} {nonce : Nonce} {key frame : Bytes}
      (hkey : chunkKey L m.key m.header pqContext = .ok key)
      (hseal : sealChunk L m.key m.header chunk merkleRoot pqContext nonce = .ok frame) :
      Step w { w with party := upd w.party r { w.party r with
        sealed := ⟨key, nonce.val, merkleRoot, m.header, (pqContext.map (·.epoch)).getD 0,
          L.aeadSeal key nonce.val (chunkAad merkleRoot m.header ((pqContext.map (·.epoch)).getD 0)) chunk,
          m.origin⟩ :: (w.party r).sealed } }
  | deliver (w : World) (r : Role) (frame merkleRoot : Bytes)
      (resolver : Option PqMessageKeyContextResolver) (secretKey : Bytes)
      (hideal : Ideal L w r frame merkleRoot resolver secretKey) :
      Step w (w.deliver L r frame merkleRoot resolver secretKey)
  | forget (w : World) (r : Role) (cacheK : String) :
      Step w { w with party := upd w.party r { w.party r with
        receiver := { (w.party r).receiver with cache := (w.party r).receiver.cache.delete cacheK } } }

/-- The set-up: the ratchets of `Initial`, nothing sent, and three distinct root keys. -/
structure Setup (w : World) : Prop where
  setup : ∃ seed suite secI secR secR' unprimed,
    initRatchet L seed false none suite secR = .ok unprimed ∧
    initRatchet L seed true (some unprimed.dhSelfPub) suite secI = .ok (w.party .initiator).receiver.state ∧
    (primeResponderRatchet L (w.party .initiator).receiver.state.dhSelfPub secR').run unprimed =
      .ok () (w.party .responder).receiver.state ∧
    (w.party .initiator).origin = (seed, dhOut L secI unprimed.dhSelfPub) ∧
    (w.party .responder).origin = sendingOrigin L unprimed
      ⟨(w.party .initiator).receiver.state.dhSelfPub, 0, 0⟩ secR' ∧
    w.drawn = [L.x25519Base secR', L.x25519Base secI, L.x25519Base secR] ∧
    w.roots = [(w.party .responder).receiver.state.rootKey, (w.party .initiator).receiver.state.rootKey, seed]
  distinct : w.drawn.Nodup ∧ w.roots.Nodup
  silent : ∀ r, (w.party r).messages = [] ∧ (w.party r).sealed = [] ∧ (w.party r).accepted = []

/-! ## Where the parties stand -/

/-- A header and the origin of its chain belong to a rung of a party on rung `k`. -/
def OwnRung (pub root : Nat → Bytes) (k : Nat) (header : RatchetHeader) (origin : Bytes × Bytes) : Prop :=
  ∃ c, 1 ≤ c ∧ c ≤ k ∧ (k - c) % 2 = 0 ∧ header.dhPub = pub c ∧ origin.1 = root (c - 1) ∧
    (kdfRk L origin.1 origin.2).1 = root c

/-- A party on rung `k`: its own keys, its root key, and of the peer's rungs which messages
are stored and which were taken. -/
structure Standing (pub root : Nat → Bytes) (k : Nat) (p : Party) : Prop where
  one_le : 1 ≤ k
  selfPub : p.receiver.state.dhSelfPub = pub k
  remote : p.receiver.state.dhRemotePub = some (pub (k - 1))
  rootKey : p.receiver.state.rootKey = root k
  origin : p.origin.1 = root (k - 1) ∧ (kdfRk L p.origin.1 p.origin.2).1 = root k
  stored : ∀ key mk, p.receiver.state.skipped.get key = some mk →
    ∃ c N, key = skippedKey (pub c) N ∧ c + 1 ≤ k ∧ (k - c) % 2 = 1 ∧
      (c + 1 = k → N < p.receiver.state.Nr) ∧ (pub c, N) ∉ p.accepted
  accepted : ∀ a ∈ p.accepted, ∃ c, a.1 = pub c ∧ c + 1 ≤ k ∧ (c + 1 = k → a.2 < p.receiver.state.Nr)
  messages : ∀ m ∈ p.messages, OwnRung L pub root k m.header m.origin
  sealed : ∀ s ∈ p.sealed, OwnRung L pub root k s.header s.origin

/-- A sealed chunk has a root of 64 bytes and a header that fits its frame. -/
def Sealed.Fits (s : Sealed) : Prop := s.merkleRoot.length = HASH_BYTES ∧ HeaderFits s.header s.pqEpoch

/-- Both parties stand on neighbouring rungs, the rungs have distinct keys, and everything
sealed fits. -/
structure Inv (pub root : Nat → Bytes) (rung : Role → Nat) (top : Nat) (w : World) : Prop where
  le_top : ∀ r, rung r ≤ top
  near : ∀ r, top ≤ rung r + 1
  apart : ∀ r, rung r ≠ rung r.peer
  pub_inj : ∀ i ≤ top, ∀ j ≤ top, pub i = pub j → i = j
  root_inj : ∀ i ≤ top, ∀ j ≤ top, root i = root j → i = j
  drawn : ∀ j ≤ top, pub j ∈ w.drawn
  roots : ∀ j ≤ top, root j ∈ w.roots
  standing : ∀ r, Standing L pub root (rung r) (w.party r)
  fits : ∀ r, ∀ s ∈ (w.party r).sealed, s.Fits

variable {L} {pub root pub' root' : Nat → Bytes} {k : Nat} {p : Party}

theorem OwnRung.congr {header : RatchetHeader} {origin : Bytes × Bytes} (h : OwnRung L pub root k header origin)
    (hpub : ∀ j ≤ k, pub' j = pub j) (hroot : ∀ j ≤ k, root' j = root j) :
    OwnRung L pub' root' k header origin := by
  obtain ⟨c, h1, hc, hparity, hheader, horigin, hnext⟩ := h
  exact ⟨c, h1, hc, hparity, by rw [hpub c hc, hheader], by rw [hroot (c - 1) (by omega), horigin],
    by rw [hroot c hc, hnext]⟩

theorem OwnRung.climb {header : RatchetHeader} {origin : Bytes × Bytes} (h : OwnRung L pub root k header origin)
    (hpub : ∀ j ≤ k, pub' j = pub j) (hroot : ∀ j ≤ k, root' j = root j) :
    OwnRung L pub' root' (k + 2) header origin := by
  obtain ⟨c, h1, hc, hparity, hrest⟩ := h.congr hpub hroot
  exact ⟨c, h1, by omega, by omega, hrest⟩

/-- Higher rungs do not concern a party. -/
theorem Standing.congr (h : Standing L pub root k p) (hpub : ∀ j ≤ k, pub' j = pub j)
    (hroot : ∀ j ≤ k, root' j = root j) : Standing L pub' root' k p where
  one_le := h.one_le
  selfPub := by rw [hpub k (Nat.le_refl k), h.selfPub]
  remote := by rw [hpub (k - 1) (Nat.sub_le k 1), h.remote]
  rootKey := by rw [hroot k (Nat.le_refl k), h.rootKey]
  origin := by rw [hroot (k - 1) (Nat.sub_le k 1), hroot k (Nat.le_refl k)]; exact h.origin
  stored key mk hget := by
    obtain ⟨c, N, hkey, hc, hparity, hN, hnew⟩ := h.stored key mk hget
    have hsame := hpub c (by omega)
    exact ⟨c, N, by rw [hsame, hkey], hc, hparity, hN, by rw [hsame]; exact hnew⟩
  accepted a ha := by
    obtain ⟨c, hpubc, hc, hN⟩ := h.accepted a ha
    exact ⟨c, by rw [hpub c (by omega), hpubc], hc, hN⟩
  messages m hm := (h.messages m hm).congr hpub hroot
  sealed s hs := (h.sealed s hs).congr hpub hroot

/-- A state that stores keys under the names of rungs clones to itself. -/
theorem Standing.clone (h : Standing L pub root k p) :
    cloneRatchet p.receiver.state = p.receiver.state := by
  refine cloneRatchet_eq fun e he => ?_
  obtain ⟨c, N, hkey, -⟩ := h.stored e.1 e.2 (OrdMap.get_eq_some_iff.mpr he)
  exact ⟨pub c, N, hkey⟩

/-! ## Taking a message -/

/-- A party that takes a message. -/
def Party.take (p : Party) (receiver : ChunkReceiver) (header : RatchetHeader) : Party :=
  { p with receiver, accepted := (header.dhPub, header.N) :: p.accepted }

section Take

variable {header : RatchetHeader} {cache : OrdMap String Bytes} {top : Nat}

/-- A stored message was not taken before. -/
theorem Standing.stored_new (h : Standing L pub root k p) {mk : Bytes}
    (hget : p.receiver.state.skipped.get (skippedKey header.dhPub header.N) = some mk) :
    ∃ c, header.dhPub = pub c ∧ c + 1 ≤ k ∧ (k - c) % 2 = 1 ∧ (c + 1 = k → header.N < p.receiver.state.Nr) ∧
      (header.dhPub, header.N) ∉ p.accepted := by
  obtain ⟨c, N, hkey, hc, hparity, hN, hnew⟩ := h.stored _ mk hget
  obtain ⟨hpub, hN'⟩ := skippedKey_inj.mp hkey
  rw [hpub, hN']
  exact ⟨c, rfl, hc, hparity, hN, hnew⟩

/-- Taking a stored message forgets its key. -/
theorem Standing.take_stored (h : Standing L pub root k p) {mk : Bytes}
    (hget : p.receiver.state.skipped.get (skippedKey header.dhPub header.N) = some mk) :
    Standing L pub root k (p.take ⟨{ p.receiver.state with
      skipped := p.receiver.state.skipped.delete (skippedKey header.dhPub header.N) }, cache⟩ header) := by
  obtain ⟨c₀, hpub₀, hc₀, -, hN₀, -⟩ := h.stored_new hget
  refine ⟨h.one_le, h.selfPub, h.remote, h.rootKey, h.origin, ?_, ?_, h.messages, h.sealed⟩
  · intro key mk' hkey
    by_cases hsame : key = skippedKey header.dhPub header.N
    · rw [hsame] at hkey
      cases (OrdMap.get_delete_self _ _).symm.trans hkey
    · obtain ⟨c, N, rfl, hc, hparity, hN, hnew⟩ := h.stored key mk'
        ((OrdMap.get_delete_ne _ hsame).symm.trans hkey)
      refine ⟨c, N, rfl, hc, hparity, hN, fun hmem => ?_⟩
      rcases List.mem_cons.mp hmem with heq | hold
      · obtain ⟨hpub, hindex⟩ := Prod.mk.inj heq
        exact hsame (skippedKey_inj.mpr ⟨hpub, hindex⟩)
      · exact hnew hold
  · intro a ha
    rcases List.mem_cons.mp ha with rfl | hold
    · exact ⟨c₀, hpub₀, hc₀, hN₀⟩
    · exact h.accepted a hold

/-- A message of the current chain that is not behind the counter was not taken before. -/
theorem Standing.current_new (h : Standing L pub root k p)
    (hinj : ∀ i ≤ top, ∀ j ≤ top, pub i = pub j → i = j) (hk : k ≤ top) {N : Nat}
    (hN : p.receiver.state.Nr ≤ N) : (pub (k - 1), N) ∉ p.accepted := by
  intro hmem
  obtain ⟨c, hpub, hc, hbound⟩ := h.accepted _ hmem
  have h1 := h.one_le
  have hsame := hinj (k - 1) (by omega) c (by omega) hpub
  have hlt := hbound (by omega)
  dsimp only at hlt
  omega

/-- Taking a message of the current chain stores those it passes. -/
theorem Standing.take_current (h : Standing L pub root k p)
    (hinj : ∀ i ≤ top, ∀ j ≤ top, pub i = pub j → i = j) (hk : k ≤ top) {chainKey : Bytes}
    {skipped : OrdMap String Bytes} (hremote : p.receiver.state.dhRemotePub = some header.dhPub)
    (hN : p.receiver.state.Nr ≤ header.N)
    (hfrom : ComesFrom p.receiver.state.skipped skipped
      (chainNames header.dhPub p.receiver.state.Nr header.N)) :
    Standing L pub root k (p.take ⟨{ p.receiver.state with
      receivingChainKey := some chainKey, Nr := header.N + 1, skipped }, cache⟩ header) := by
  have h1 := h.one_le
  have hpub : header.dhPub = pub (k - 1) := Option.some.inj (hremote.symm.trans h.remote)
  refine ⟨h.one_le, h.selfPub, h.remote, h.rootKey, h.origin, ?_, ?_, h.messages, h.sealed⟩
  · intro key mk hkey
    rcases hfrom key mk hkey with hold | ⟨i, ha, hb, rfl⟩
    · obtain ⟨c, N, rfl, hc, hparity, hbound, hnew⟩ := h.stored key mk hold
      refine ⟨c, N, rfl, hc, hparity, fun hlast => ?_, fun hmem => ?_⟩
      · have hlt := hbound hlast
        show N < header.N + 1
        omega
      · rcases List.mem_cons.mp hmem with heq | hmem
        · obtain ⟨hpubc, hindex⟩ := Prod.mk.inj heq
          have hsame := hinj c (by omega) (k - 1) (by omega) (hpubc.trans hpub)
          have hlt := hbound (by omega)
          omega
        · exact hnew hmem
    · refine ⟨k - 1, i, by rw [hpub], by omega, by omega, fun _ => ?_, fun hmem => ?_⟩
      · show i < header.N + 1
        omega
      · rcases List.mem_cons.mp hmem with heq | hmem
        · have hindex := (Prod.mk.inj heq).2
          omega
        · exact h.current_new hinj hk ha hmem
  · intro a ha
    rcases List.mem_cons.mp ha with rfl | hold
    · exact ⟨k - 1, hpub, by omega, fun _ => Nat.lt_succ_self _⟩
    · obtain ⟨c, hpubc, hc, hbound⟩ := h.accepted a hold
      refine ⟨c, hpubc, hc, fun hlast => ?_⟩
      have hlt := hbound hlast
      show a.2 < header.N + 1
      omega

/-- A message of the peer's next rung was not taken before. -/
theorem Standing.next_new (h : Standing L pub root k p)
    (hinj : ∀ i ≤ top, ∀ j ≤ top, pub i = pub j → i = j) (hk : k + 1 ≤ top) {N : Nat} :
    (pub (k + 1), N) ∉ p.accepted := by
  intro hmem
  obtain ⟨c, hpub, hc, -⟩ := h.accepted _ hmem
  have hsame := hinj (k + 1) hk c (by omega) hpub
  omega

/-- Taking a message of the peer's next rung climbs past it. -/
theorem Standing.take_next (h : Standing L pub root k p)
    (hinj : ∀ i ≤ top, ∀ j ≤ top, pub i = pub j → i = j) (hk : k + 1 ≤ top)
    (hpub : header.dhPub = pub (k + 1)) {selfPub selfSec rootKey : Bytes} {sending receiving : Option Bytes}
    {skipped : OrdMap String Bytes} {origin : Bytes × Bytes}
    (horigin : origin.1 = root (k + 1) ∧ (kdfRk L origin.1 origin.2).1 = rootKey)
    (hfrom : ComesFrom p.receiver.state.skipped skipped fun key =>
      chainNames (p.receiver.state.dhRemotePub.getD []) p.receiver.state.Nr header.PN key ∨
        chainNames header.dhPub 0 header.N key) :
    Standing L (Function.update pub (k + 2) selfPub) (Function.update root (k + 2) rootKey) (k + 2)
      { p.take ⟨{ p.receiver.state with
          PN := p.receiver.state.Ns
          Ns := 0
          Nr := header.N + 1
          dhRemotePub := some header.dhPub
          receivingChainKey := receiving
          dhSelfPub := selfPub
          dhSelfSec := selfSec
          rootKey := rootKey
          sendingChainKey := sending
          skipped }, cache⟩ header with origin } := by
  have h1 := h.one_le
  have hpubs : ∀ j, j ≤ k + 1 → Function.update pub (k + 2) selfPub j = pub j :=
    fun j hj => Function.update_of_ne (by omega) _ _
  have hroots : ∀ j, j ≤ k + 1 → Function.update root (k + 2) rootKey j = root j :=
    fun j hj => Function.update_of_ne (by omega) _ _
  -- whoever is stored or taken was so below rung `k`
  have hnot : ∀ c N, c + 1 ≤ k → (pub c, N) ∉ p.accepted →
      (pub c, N) ∉ (header.dhPub, header.N) :: p.accepted := by
    intro c N hc hnew hmem
    rcases List.mem_cons.mp hmem with heq | hmem
    · have hsame := hinj c (by omega) (k + 1) hk ((Prod.mk.inj heq).1.trans hpub)
      omega
    · exact hnew hmem
  have hself : selfPub = Function.update pub (k + 2) selfPub (k + 2) := by rw [Function.update_self]
  have hrootKey : rootKey = Function.update root (k + 2) rootKey (k + 2) := by rw [Function.update_self]
  refine ⟨by omega, hself, ?_, hrootKey, ?_, ?_, ?_, fun m hm => ?_, fun s hs => ?_⟩
  · rw [show k + 2 - 1 = k + 1 from rfl, hpubs _ (Nat.le_refl _), ← hpub]
    rfl
  · rw [show k + 2 - 1 = k + 1 from rfl, hroots _ (Nat.le_refl _), ← hrootKey]
    exact horigin
  · intro key mk hkey
    rcases hfrom key mk hkey with hold | ⟨i, ha, hb, rfl⟩ | ⟨i, -, hb, rfl⟩
    · obtain ⟨c, N, rfl, hc, hparity, -, hnew⟩ := h.stored key mk hold
      refine ⟨c, N, by rw [hpubs c (by omega)], by omega, by omega, fun hlast => by omega, ?_⟩
      rw [hpubs c (by omega)]
      exact hnot c N hc hnew
    · rw [h.remote, Option.getD_some]
      refine ⟨k - 1, i, by rw [hpubs _ (by omega)], by omega, by omega, fun hlast => by omega, ?_⟩
      rw [hpubs _ (by omega)]
      exact hnot (k - 1) i (by omega) (h.current_new hinj (by omega) ha)
    · refine ⟨k + 1, i, by rw [hpubs _ (Nat.le_refl _), hpub], by omega, by omega, fun _ => ?_, fun hmem => ?_⟩
      · show i < header.N + 1
        omega
      · rw [hpubs _ (Nat.le_refl _)] at hmem
        rcases List.mem_cons.mp hmem with heq | hmem
        · have hindex := (Prod.mk.inj heq).2
          omega
        · exact h.next_new hinj hk hmem
  · intro a ha
    rcases List.mem_cons.mp ha with rfl | hold
    · exact ⟨k + 1, by rw [hpubs _ (Nat.le_refl _), ← hpub], by omega, fun _ => Nat.lt_succ_self _⟩
    · obtain ⟨c, hpubc, hc, -⟩ := h.accepted a hold
      exact ⟨c, by rw [hpubs c (by omega), hpubc], by omega, fun hlast => by omega⟩
  · exact (h.messages m hm).climb (fun j hj => hpubs j (by omega)) fun j hj => hroots j (by omega)
  · exact (h.sealed s hs).climb (fun j hj => hpubs j (by omega)) fun j hj => hroots j (by omega)

end Take

/-! ## Deliveries -/

/-- A frame with the associated data of a sealed chunk has its header. -/
theorem header_of_aad {s : Sealed} {frame merkleRoot : Bytes} {parsed : ParsedChunkFrame} (hfits : s.Fits)
    (hroot : merkleRoot.length = HASH_BYTES) (hparse : parseChunkFrameHeader frame = .ok parsed)
    (haad : s.aad = frameAad merkleRoot frame) : s.header = parsed.header := by
  have hlong : CHUNK_FRAME_HEADER_LEN ≤ frame.length := by
    unfold parseChunkFrameHeader at hparse
    obtain ⟨_, hlen, -⟩ := except_bind_eq_ok.mp hparse
    exact demand_eq_ok.mp hlen
  have htake : (LibCrypto.pad MESSAGE_LEN frame).take CHUNK_AAD_HEADER_LEN = frame.take CHUNK_AAD_HEADER_LEN := by
    rw [LibCrypto.pad, List.take_take, Nat.min_eq_left (by decide), List.take_append_of_le_length]
    simp only [CHUNK_FRAME_HEADER_LEN, CHUNK_AAD_HEADER_LEN] at hlong ⊢
    omega
  obtain ⟨-, hheader⟩ := List.append_inj haad (hfits.1.trans hroot.symm)
  rw [htake] at hheader
  have hnonce : ((frame.drop CHUNK_AAD_HEADER_LEN).take 12).length = 12 := by
    simp only [CHUNK_FRAME_HEADER_LEN, CHUNK_AAD_HEADER_LEN] at hlong ⊢
    rw [List.length_take, List.length_drop]
    omega
  have hframe : frame = chunkHeader s.header s.pqEpoch ((frame.drop CHUNK_AAD_HEADER_LEN).take 12) ++
      (frame.drop CHUNK_AAD_HEADER_LEN).drop 12 := by
    calc frame = frame.take CHUNK_AAD_HEADER_LEN ++ frame.drop CHUNK_AAD_HEADER_LEN :=
          (List.take_append_drop _ _).symm
      _ = frame.take CHUNK_AAD_HEADER_LEN ++ ((frame.drop CHUNK_AAD_HEADER_LEN).take 12 ++
            (frame.drop CHUNK_AAD_HEADER_LEN).drop 12) := by rw [List.take_append_drop 12]
      _ = _ := by
        rw [← hheader]
        simp [chunkHeader]
  have hsame := parse_chunkHeader hfits.2 hnonce ((frame.drop CHUNK_AAD_HEADER_LEN).drop 12)
  rw [← hframe, hparse] at hsame
  rw [Except.ok.inj hsame]

theorem dhOut_of_ok {secret point shared : Bytes} (h : L.x25519Dh secret point = .ok shared) :
    dhOut L secret point = shared := by
  unfold LibCrypto.x25519Dh at h
  unfold dhOut
  split at h
  · next hsome =>
    rw [hsome]
    exact Except.ok.inj h
  · cases h

section Deliver

variable {rung : Role → Nat} {top : Nat} {w : World} {r : Role} {frame merkleRoot secretKey key : Bytes}
  {resolver : Option PqMessageKeyContextResolver} {parsed : ParsedChunkFrame} {cacheK : String}
  {clone : RatchetState}

/-- What a frame that is adopted is: a chunk the peer sealed, of a message that was not taken
before; and where it leads. -/
theorem Inv.taken (h : Inv L pub root rung top w) (hideal : Ideal L w r frame merkleRoot resolver secretKey)
    (hc : Commits L (w.party r).receiver frame merkleRoot resolver secretKey parsed cacheK key clone) :
    (∃ s ∈ (w.party r.peer).sealed, s.nonce = frameNonce frame ∧ s.aad = frameAad merkleRoot frame ∧
        s.ciphertext = frameCiphertext frame) ∧
      (parsed.header.dhPub, parsed.header.N) ∉ (w.party r).accepted ∧
      ((stepsDh (w.party r).receiver.state parsed.header = false ∧
          Standing L pub root (rung r) ((w.party r).take
            ⟨clone, (w.party r).receiver.cache.set cacheK key⟩ parsed.header)) ∨
        (stepsDh (w.party r).receiver.state parsed.header = true ∧ rung r + 1 = top ∧
          Standing L (Function.update pub (rung r + 2) clone.dhSelfPub)
            (Function.update root (rung r + 2) clone.rootKey) (rung r + 2)
            { (w.party r).take ⟨clone, (w.party r).receiver.cache.set cacheK key⟩ parsed.header with
              origin := sendingOrigin L (w.party r).receiver.state parsed.header secretKey })) := by
  have hst := h.standing r
  have hk := h.le_top r
  have h1 := hst.one_le
  obtain ⟨q, s, hs, hkey, hnonce, haad, hciphertext⟩ := hideal.unforged _ _ _ _ hc
  have hheader : s.header = parsed.header := header_of_aad (h.fits q s hs) hc.rootLength hc.parses haad
  obtain ⟨c, hc1, hcq, hparity, hpub, horigin, hnext⟩ := (h.standing q).sealed s hs
  rw [hheader] at hpub
  have hctop := Nat.le_trans hcq (h.le_top q)
  -- the chunk is from a rung of the peer
  have hpeer : (¬ (c ≤ rung r ∧ (rung r - c) % 2 = 0)) → ∃ s ∈ (w.party r.peer).sealed,
      s.nonce = frameNonce frame ∧ s.aad = frameAad merkleRoot frame ∧ s.ciphertext = frameCiphertext frame := by
    intro hother
    rcases Role.eq_or_eq_peer r q with rfl | rfl
    · exact absurd ⟨hcq, hparity⟩ hother
    · exact ⟨s, hs, hnonce, haad, hciphertext⟩
  obtain ⟨pqContext, messageKey, -, hrun, -⟩ := hc.derives
  rw [hst.clone] at hrun
  cases ratchetDecrypt_ok hrun with
  | stored hget =>
    obtain ⟨c', hpub', hc', hparity', -, hnew⟩ := hst.stored_new hget
    obtain rfl := h.pub_inj c hctop c' (by omega) (hpub.symm.trans hpub')
    refine ⟨hpeer (by omega), hnew, Or.inl ⟨?_, hst.take_stored hget⟩⟩
    rw [stepsDh, hget]
    rfl
  | current chainKey skipped hget hremote hN hfrom =>
    have hlast : parsed.header.dhPub = pub (rung r - 1) := Option.some.inj (hremote.symm.trans hst.remote)
    obtain rfl := h.pub_inj c hctop (rung r - 1) (by omega) (hpub.symm.trans hlast)
    refine ⟨hpeer (by omega), ?_, Or.inl ⟨?_, hst.take_current h.pub_inj hk hremote hN hfrom⟩⟩
    · rw [hlast]
      exact hst.current_new h.pub_inj hk hN
    · rw [stepsDh, RatchetState.isNewDh, hremote]
      simp
  | newDh chainKey skipped out out' hget hremote hout hout' hfrom =>
    have hsteps : stepsDh (w.party r).receiver.state parsed.header = true := by
      simp [stepsDh, RatchetState.isNewDh, hget, hremote]
    have hdh := dhOut_of_ok hout
    have hdh' := dhOut_of_ok hout'
    have hsource := hideal.separated _ _ _ _ hc hsteps q s hs hheader hkey
    rw [receivingOrigin, hdh, hst.rootKey] at hsource
    rw [hsource] at horigin hnext
    -- the root keys are distinct, so the chunk is from the rung after the receiver's
    have hrung := h.root_inj (rung r) hk (c - 1) (by omega) horigin
    obtain rfl : c = rung r + 1 := by omega
    have htop : rung r + 1 = top := by
      have hnear := h.near r
      omega
    refine ⟨hpeer (by omega), ?_, Or.inr ⟨hsteps, htop,
      hst.take_next h.pub_inj (Nat.le_of_eq htop) hpub ⟨?_, ?_⟩ hfrom⟩⟩
    rotate_left
    · rw [sendingOrigin, hdh, hst.rootKey, hnext]
    · rw [sendingOrigin, hdh, hdh']
    rw [hpub]
    exact hst.next_new h.pub_inj (Nat.le_of_eq htop)

/-- A step of one party that leaves its rung. -/
theorem Inv.stay {p : Party} (h : Inv L pub root rung top w) (hst : Standing L pub root (rung r) p)
    (hfits : ∀ s ∈ p.sealed, s.Fits) : Inv L pub root rung top { w with party := upd w.party r p } := by
  refine ⟨h.le_top, h.near, h.apart, h.pub_inj, h.root_inj, h.drawn, h.roots, fun q => ?_, fun q => ?_⟩
  · rcases Role.eq_or_eq_peer r q with rfl | rfl
    · simpa using hst
    · simpa using h.standing r.peer
  · rcases Role.eq_or_eq_peer r q with rfl | rfl
    · simpa using hfits
    · simpa using h.fits r.peer

/-- A step of one party onto a new rung, past its peer. -/
theorem Inv.climb {p : Party} {selfPub rootKey : Bytes} (h : Inv L pub root rung top w) (htop : rung r + 1 = top)
    (hst : Standing L (Function.update pub (rung r + 2) selfPub) (Function.update root (rung r + 2) rootKey)
      (rung r + 2) p)
    (hpub : selfPub ∉ w.drawn) (hroot : rootKey ∉ w.roots) (hfits : ∀ s ∈ p.sealed, s.Fits) :
    Inv L (Function.update pub (rung r + 2) selfPub) (Function.update root (rung r + 2) rootKey)
      (upd rung r (rung r + 2)) (rung r + 2)
      ⟨upd w.party r p, selfPub :: w.drawn, rootKey :: w.roots⟩ := by
  have hpeer : rung r.peer = rung r + 1 := by
    have hnear := h.near r.peer
    have hle := h.le_top r.peer
    have hapart := h.apart r
    omega
  have hdistinct : ∀ {f : Nat → Bytes} {new : Bytes} {seen : List Bytes}, new ∉ seen → (∀ j ≤ top, f j ∈ seen) →
      (∀ i ≤ top, ∀ j ≤ top, f i = f j → i = j) →
      ∀ i ≤ rung r + 2, ∀ j ≤ rung r + 2,
        Function.update f (rung r + 2) new i = Function.update f (rung r + 2) new j → i = j := by
    intro f new seen hnew hseen hinj i hi j hj heq
    by_cases hit : i = rung r + 2
    · by_cases hjt : j = rung r + 2
      · omega
      · rw [hit, Function.update_self, Function.update_of_ne hjt] at heq
        exact absurd (heq ▸ hseen j (by omega)) hnew
    · by_cases hjt : j = rung r + 2
      · rw [hjt, Function.update_self, Function.update_of_ne hit] at heq
        exact absurd (heq ▸ hseen i (by omega)) hnew
      · rw [Function.update_of_ne hit, Function.update_of_ne hjt] at heq
        exact hinj i (by omega) j (by omega) heq
  have hmem : ∀ {f : Nat → Bytes} {new : Bytes} {seen : List Bytes}, (∀ j ≤ top, f j ∈ seen) →
      ∀ j ≤ rung r + 2, Function.update f (rung r + 2) new j ∈ new :: seen := by
    intro f new seen hseen j hj
    by_cases hjt : j = rung r + 2
    · rw [hjt, Function.update_self]
      exact List.mem_cons_self
    · rw [Function.update_of_ne hjt]
      exact List.mem_cons_of_mem _ (hseen j (by omega))
  have hnext := climb_neighbours hpeer
  refine ⟨fun q => (hnext q).1, fun q => (hnext q).2.1, fun q => (hnext q).2.2, hdistinct hpub h.drawn h.pub_inj,
    hdistinct hroot h.roots h.root_inj, hmem h.drawn, hmem h.roots, fun q => ?_, fun q => ?_⟩
  · rcases Role.eq_or_eq_peer r q with rfl | rfl
    · simpa using hst
    · simp only [upd_peer]
      exact (h.standing r.peer).congr (fun j hj => Function.update_of_ne (by omega) _ _)
        fun j hj => Function.update_of_ne (by omega) _ _
  · rcases Role.eq_or_eq_peer r q with rfl | rfl
    · simpa using hfits
    · simpa using h.fits r.peer

/-- A frame that is not adopted changes nothing. -/
theorem deliver_keep (h : ¬ ∃ parsed cacheK key clone,
      Commits L (w.party r).receiver frame merkleRoot resolver secretKey parsed cacheK key clone) :
    w.deliver L r frame merkleRoot resolver secretKey = { w with party := upd w.party r (w.party r) } := by
  unfold World.deliver
  dsimp only
  rw [afterChunk_keep h]
  split
  · rfl
  · rw [if_pos rfl]

/-- A frame that is adopted without a DH step. -/
theorem deliver_take
    (hc : Commits L (w.party r).receiver frame merkleRoot resolver secretKey parsed cacheK key clone)
    (hsteps : stepsDh (w.party r).receiver.state parsed.header = false) :
    w.deliver L r frame merkleRoot resolver secretKey = { w with
      party := upd w.party r ((w.party r).take
        ⟨clone, (w.party r).receiver.cache.set cacheK key⟩ parsed.header) } := by
  have hchanged := afterChunk_changes_iff.2.mpr ⟨parsed, cacheK, key, clone, hc⟩
  unfold World.deliver
  dsimp only
  rw [hc.parses]
  dsimp only
  rw [if_neg hchanged, afterChunk_commit hc, hsteps, if_neg Bool.false_ne_true]
  rfl

/-- A frame that is adopted with a DH step. -/
theorem deliver_climb
    (hc : Commits L (w.party r).receiver frame merkleRoot resolver secretKey parsed cacheK key clone)
    (hsteps : stepsDh (w.party r).receiver.state parsed.header = true) :
    w.deliver L r frame merkleRoot resolver secretKey =
      ⟨upd w.party r { (w.party r).take ⟨clone, (w.party r).receiver.cache.set cacheK key⟩ parsed.header with
          origin := sendingOrigin L (w.party r).receiver.state parsed.header secretKey },
        clone.dhSelfPub :: w.drawn, clone.rootKey :: w.roots⟩ := by
  have hchanged := afterChunk_changes_iff.2.mpr ⟨parsed, cacheK, key, clone, hc⟩
  unfold World.deliver
  dsimp only
  rw [hc.parses]
  dsimp only
  rw [if_neg hchanged, afterChunk_commit hc, hsteps, if_pos rfl]
  rfl

/-- Any frame keeps the invariant. -/
theorem Inv.deliver (h : Inv L pub root rung top w) (hideal : Ideal L w r frame merkleRoot resolver secretKey) :
    ∃ pub root rung top, Inv L pub root rung top (w.deliver L r frame merkleRoot resolver secretKey) := by
  by_cases hcommits : ∃ parsed cacheK key clone,
      Commits L (w.party r).receiver frame merkleRoot resolver secretKey parsed cacheK key clone
  · obtain ⟨parsed, cacheK, key, clone, hc⟩ := hcommits
    obtain ⟨-, -, ⟨hsteps, hst⟩ | ⟨hsteps, htop, hst⟩⟩ := h.taken hideal hc
    · rw [deliver_take hc hsteps]
      exact ⟨pub, root, rung, top, h.stay hst (h.fits r)⟩
    · obtain ⟨hpub, hroot⟩ := hideal.fresh _ _ _ _ hc hsteps
      rw [deliver_climb hc hsteps]
      exact ⟨_, _, _, _, h.climb htop hst hpub hroot (h.fits r)⟩
  · rw [deliver_keep hcommits]
    exact ⟨pub, root, rung, top, h.stay (h.standing r) (h.fits r)⟩

theorem Inv.step {w' : World} (h : Inv L pub root rung top w) (hstep : Step L w w') :
    ∃ pub root rung top, Inv L pub root rung top w' := by
  cases hstep with
  | encrypt r hrun =>
    have hst := h.standing r
    cases hchain : (w.party r).receiver.state.sendingChainKey with
    | none => simp [ratchetEncrypt, hchain] at hrun
    | some chainKey =>
      rw [ratchetEncrypt_run L hchain] at hrun
      cases hrun
      refine ⟨pub, root, rung, top, h.stay ⟨hst.one_le, hst.selfPub, hst.remote, hst.rootKey, hst.origin,
        hst.stored, hst.accepted, fun m hm => ?_, hst.sealed⟩ (h.fits r)⟩
      rcases List.mem_cons.mp hm with rfl | hm
      · exact ⟨rung r, hst.one_le, Nat.le_refl _, by rw [Nat.sub_self], hst.selfPub, hst.origin⟩
      · exact hst.messages m hm
  | sealOne r hm hkey hseal =>
    have hst := h.standing r
    refine ⟨pub, root, rung, top, h.stay ⟨hst.one_le, hst.selfPub, hst.remote, hst.rootKey, hst.origin,
      hst.stored, hst.accepted, hst.messages, fun s hs => ?_⟩ fun s hs => ?_⟩
    · rcases List.mem_cons.mp hs with rfl | hs
      · exact hst.messages _ hm
      · exact hst.sealed s hs
    · rcases List.mem_cons.mp hs with rfl | hs
      · unfold sealChunk at hseal
        obtain ⟨_, hroot, hseal⟩ := except_bind_eq_ok.mp hseal
        obtain ⟨_, hpack, -⟩ := except_bind_eq_ok.mp hseal
        exact ⟨demand_eq_ok.mp hroot, (headerFits_of_pack hpack).1⟩
      · exact h.fits r s hs
  | deliver r frame merkleRoot resolver secretKey hideal => exact h.deliver hideal
  | forget r cacheK =>
    have hst := h.standing r
    exact ⟨pub, root, rung, top, h.stay ⟨hst.one_le, hst.selfPub, hst.remote, hst.rootKey, hst.origin,
      hst.stored, hst.accepted, hst.messages, hst.sealed⟩ (h.fits r)⟩

end Deliver

/-! ## Runs -/

/-- The rungs of the set-up. -/
def firstRungs (zero one two : Bytes) : Nat → Bytes
  | 0 => zero
  | 1 => one
  | _ => two

theorem firstRungs_inj {zero one two : Bytes} (h : [two, one, zero].Nodup) :
    ∀ i ≤ 2, ∀ j ≤ 2, firstRungs zero one two i = firstRungs zero one two j → i = j := by
  simp only [List.nodup_cons, List.mem_cons, List.not_mem_nil, or_false, not_or] at h
  obtain ⟨⟨htwo, htwo'⟩, hone, -⟩ := h
  intro i hi j hj heq
  obtain rfl | rfl | rfl : i = 0 ∨ i = 1 ∨ i = 2 := by omega
  all_goals obtain rfl | rfl | rfl : j = 0 ∨ j = 1 ∨ j = 2 := by omega
  · rfl
  · exact absurd heq.symm hone
  · exact absurd heq.symm htwo'
  · exact absurd heq hone
  · rfl
  · exact absurd heq.symm htwo
  · exact absurd heq htwo'
  · exact absurd heq htwo
  · rfl

theorem mem_firstRungs {zero one two : Bytes} : ∀ j ≤ 2, firstRungs zero one two j ∈ [two, one, zero] := by
  intro j hj
  obtain rfl | rfl | rfl : j = 0 ∨ j = 1 ∨ j = 2 := by omega
  all_goals simp [firstRungs]

/-- The set-up stands on rungs one and two. -/
theorem Setup.inv (hdh : L.DhLaws) {w : World} (h : Setup L w) :
    ∃ pub root rung top, Inv L pub root rung top w := by
  obtain ⟨seed, suite, secI, secR, secR', unprimed, hR, hI, hprime, hfirst, hsecond, hdrawn, hroots⟩ := h.setup
  obtain ⟨out, out', hout, hcomm, hout', rfl, hI, hR⟩ := setup_states L hdh hR hI hprime
  rw [hI] at hsecond
  have horiginI : (w.party .initiator).origin = (seed, out) := by
    rw [hfirst, dhOut, hout, Option.getD_some]
  have horiginR : (w.party .responder).origin = ((kdfRk L seed out).1, out') := by
    rw [hsecond, sendingOrigin, dhOut, dhOut, hcomm, hout', Option.getD_some, Option.getD_some]
  have hdistinct := h.distinct
  rw [hdrawn, hroots] at hdistinct
  refine ⟨firstRungs (L.x25519Base secR) (L.x25519Base secI) (L.x25519Base secR'),
    firstRungs seed (w.party .initiator).receiver.state.rootKey (w.party .responder).receiver.state.rootKey,
    initialLevel, 2, by rintro (_ | _) <;> decide, by rintro (_ | _) <;> decide,
    by rintro (_ | _) <;> decide, firstRungs_inj hdistinct.1, firstRungs_inj hdistinct.2, ?_, ?_, ?_, ?_⟩
  · rw [hdrawn]
    exact mem_firstRungs
  · rw [hroots]
    exact mem_firstRungs
  · rintro (_ | _)
    · obtain ⟨hmessages, hsealed, haccepted⟩ := h.silent .initiator
      refine ⟨Nat.le_refl 1, by rw [hI]; rfl, by rw [hI]; rfl, rfl, ?_, ?_, ?_, ?_, ?_⟩
      · rw [horiginI, hI]
        exact ⟨rfl, rfl⟩
      · rw [hI]
        intro key mk hget
        cases hget
      · simp [haccepted]
      · simp [hmessages]
      · simp [hsealed]
    · obtain ⟨hmessages, hsealed, haccepted⟩ := h.silent .responder
      refine ⟨Nat.le_succ 1, by rw [hR]; rfl, by rw [hR]; rfl, rfl, ?_, ?_, ?_, ?_, ?_⟩
      · rw [horiginR, hI, hR]
        exact ⟨rfl, rfl⟩
      · rw [hR]
        intro key mk hget
        cases hget
      · simp [haccepted]
      · simp [hmessages]
      · simp [hsealed]
  · intro r s hs
    rw [(h.silent r).2.1] at hs
    cases hs

theorem inv_reachable (hdh : L.DhLaws) {w₀ w : World} (hinit : Setup L w₀) (hrun : Runs (Step L) w₀ w) :
    ∃ pub root rung top, Inv L pub root rung top w := by
  refine Runs.invariant (P := fun w => ∃ pub root rung top, Inv L pub root rung top w) ?_ (hinit.inv hdh) hrun
  rintro w w' ⟨pub, root, rung, top, h⟩ hstep
  exact h.step hstep

/-! ## Repeated and invented frames -/

variable (L)

/-- A frame of a message the party has taken before. -/
def Replayed (p : Party) (frame : Bytes) : Prop :=
  ∃ parsed, parseChunkFrameHeader frame = .ok parsed ∧ (parsed.header.dhPub, parsed.header.N) ∈ p.accepted

/-- A frame the peer did not seal, for this root. -/
def Forged (peer : Party) (frame merkleRoot : Bytes) : Prop :=
  ∀ s ∈ peer.sealed, ¬ (s.nonce = frameNonce frame ∧ s.aad = frameAad merkleRoot frame ∧
    s.ciphertext = frameCiphertext frame)

/-- The key of a frame is not cached. -/
def Uncached (receiver : ChunkReceiver) (frame : Bytes) (resolver : Option PqMessageKeyContextResolver) : Prop :=
  ∀ parsed cacheK, parseChunkFrameHeader frame = .ok parsed →
    messageCacheKey parsed.header.dhPub parsed.header.N
      (if resolver.isSome then some parsed.pqEpoch else none) = .ok cacheK → receiver.cache.get cacheK = none

/-- Ratchet and cache change exactly when the key of a frame was not cached, its epoch was
resolved, its key derived on the clone and its tag verified; then the clone is adopted and
one entry is added. And in every world that is reached, a repeated or invented frame whose
key is not cached is rejected with nothing changed. -/
theorem commits_on_authentication (hdh : L.DhLaws) :
    (∀ receiver frame merkleRoot resolver secretKey,
      ((afterChunk L receiver frame merkleRoot resolver secretKey).state ≠ receiver.state ↔
        ∃ parsed cacheK key clone,
          Commits L receiver frame merkleRoot resolver secretKey parsed cacheK key clone) ∧
      ((afterChunk L receiver frame merkleRoot resolver secretKey).cache ≠ receiver.cache ↔
        ∃ parsed cacheK key clone,
          Commits L receiver frame merkleRoot resolver secretKey parsed cacheK key clone) ∧
      ∀ parsed cacheK key clone,
        Commits L receiver frame merkleRoot resolver secretKey parsed cacheK key clone →
        (afterChunk L receiver frame merkleRoot resolver secretKey).state = clone ∧
        (afterChunk L receiver frame merkleRoot resolver secretKey).cache.entries
          = receiver.cache.entries ++ [(cacheK, key)]) ∧
    ∀ w₀ w, Setup L w₀ → Runs (Step L) w₀ w → ∀ r frame merkleRoot resolver secretKey,
      Ideal L w r frame merkleRoot resolver secretKey →
      Uncached (w.party r).receiver frame resolver →
      Replayed (w.party r) frame ∨ Forged (w.party r.peer) frame merkleRoot →
      (decryptMessageChunk L frame merkleRoot resolver secretKey).run (w.party r).receiver
          = .ok droppedChunk (w.party r).receiver ∨
        ∃ e, (decryptMessageChunk L frame merkleRoot resolver secretKey).run (w.party r).receiver
          = .error e (w.party r).receiver := by
  constructor
  · intro receiver frame merkleRoot resolver secretKey
    refine ⟨afterChunk_changes_iff.1, afterChunk_changes_iff.2, fun parsed cacheK key clone hc => ?_⟩
    rw [afterChunk_commit hc]
    exact ⟨rfl, cache_set_entries hc⟩
  · intro w₀ w hinit hrun r frame merkleRoot resolver secretKey hideal huncached hbad
    obtain ⟨pub, root, rung, top, h⟩ := inv_reachable hdh hinit hrun
    have hnone : ¬ ∃ parsed cacheK key clone,
        Commits L (w.party r).receiver frame merkleRoot resolver secretKey parsed cacheK key clone := by
      rintro ⟨parsed, cacheK, key, clone, hc⟩
      obtain ⟨⟨s, hs, hsame⟩, hnew, -⟩ := h.taken hideal hc
      rcases hbad with ⟨parsed', hparse, hmem⟩ | hforged
      · cases hc.parses.symm.trans hparse
        exact hnew hmem
      · exact hforged s hs hsame
    obtain ⟨e, hthrows⟩ | hdrops | ⟨parsed, cacheK, key, hparse, hname, hcached, -⟩ :=
      decryptMessageChunk_keep hnone
    · exact Or.inr ⟨e, hthrows⟩
    · exact Or.inl hdrops
    · rw [huncached parsed cacheK hparse hname] at hcached
      cases hcached

/-! ### A replay -/

section Sample

open LibCrypto

/-- Both parties of the sample set-up, before anything is sent. -/
def sampleWorld : World where
  party := fun
    | .initiator => ⟨⟨sampleLink.state .initiator, .empty⟩, [], [], [],
        (List.replicate 32 7, dhOut transparent [1] (transparent.x25519Base [2]))⟩
    | .responder => ⟨⟨sampleLink.state .responder, .empty⟩, [], [], [],
        ((sampleLink.state .initiator).rootKey, dhOut transparent [3] (transparent.x25519Base [1]))⟩
  drawn := sampleLink.drawn
  roots := [(sampleLink.state .responder).rootKey, (sampleLink.state .initiator).rootKey, List.replicate 32 7]

theorem sampleWorld_setup : Setup transparent sampleWorld := by
  refine ⟨⟨List.replicate 32 7, .hybridMlkem768, [1], [2], [3], _, rfl, rfl, rfl, rfl, rfl, rfl, rfl⟩,
    ⟨by decide, by decide⟩, fun r => ?_⟩
  cases r <;> exact ⟨rfl, rfl, rfl⟩

/-- The header of the responder's first message. -/
def sampleHeader : RatchetHeader := ⟨transparent.x25519Base [3], 0, 0⟩

/-- Its key. -/
def sampleKey : Bytes := messageKeyAt transparent
  ((sampleLink.state .responder).sendingChainKey.getD []) 0

/-- A chunk of zeros under the key, for a header. -/
def sampleChunk (header : RatchetHeader) : Bytes := sealedChunk transparent sampleKey header 0
  (List.replicate DECRYPTED_LEN 0) (List.replicate 64 0) ⟨List.replicate 12 0, length_zeros_twelve⟩

theorem sampleChunk_parts {header : RatchetHeader} (h : header.dhPub.length = 32) :
    frameNonce (sampleChunk header) = List.replicate 12 0 ∧
      frameAad (List.replicate 64 0) (sampleChunk header) = chunkAad (List.replicate 64 0) header 0 ∧
      frameCiphertext (sampleChunk header) = transparent.aeadSeal sampleKey (List.replicate 12 0)
        (chunkAad (List.replicate 64 0) header 0) (List.replicate DECRYPTED_LEN 0) :=
  sealedChunk_parts h List.length_replicate

/-- The chunk as it was sealed. -/
def sampleSealed : Sealed where
  key := sampleKey
  nonce := List.replicate 12 0
  merkleRoot := List.replicate 64 0
  header := sampleHeader
  pqEpoch := 0
  ciphertext := transparent.aeadSeal sampleKey (List.replicate 12 0)
    (chunkAad (List.replicate 64 0) sampleHeader 0) (List.replicate DECRYPTED_LEN 0)
  origin := (sampleWorld.party .responder).origin

theorem sampleHeader_fits : HeaderFits sampleHeader 0 := ⟨rfl, Nat.zero_le _, Nat.zero_le _, Nat.zero_le _⟩

/-- The responder begins a message and seals the chunk. -/
theorem sealed_reached : ∃ w, Runs (Step transparent) sampleWorld w ∧
    (w.party .responder).sealed = [sampleSealed] ∧ w.party .initiator = sampleWorld.party .initiator ∧
    w.drawn = sampleWorld.drawn ∧ w.roots = sampleWorld.roots := by
  have hencrypt := @Step.encrypt transparent sampleWorld .responder sampleKey sampleHeader _ rfl
  refine ⟨_, .tail (.tail .refl hencrypt) (@Step.sealOne transparent _ .responder
    ⟨sampleKey, sampleHeader, (sampleWorld.party .responder).origin⟩ ?_ (List.replicate DECRYPTED_LEN 0)
    (List.replicate 64 0) none ⟨List.replicate 12 0, rfl⟩ sampleKey (sampleChunk sampleHeader) rfl
    (sealChunk_plain rfl sampleHeader_fits)), rfl, rfl, rfl, rfl⟩
  exact List.mem_cons_self

/-- The initiator after the chunk. -/
def takenState : RatchetState :=
  finalState ((ratchetDecrypt transparent sampleHeader [4]).run (sampleLink.state .initiator))

/-- The chunk arrives at the initiator, which does not know its key. -/
theorem sample_commits : Commits transparent (sampleWorld.party .initiator).receiver (sampleChunk sampleHeader)
    (List.replicate 64 0) none [4]
    ⟨sampleHeader, 0, List.replicate 12 0, sampleSealed.ciphertext⟩ (skippedKey sampleHeader.dhPub 0) sampleKey
    takenState := by
  obtain ⟨hnonce, haad, hciphertext⟩ := @sampleChunk_parts sampleHeader rfl
  refine ⟨rfl, parse_sealedChunk sampleHeader_fits, rfl, rfl, ⟨none, sampleKey, rfl, rfl, rfl⟩, ?_⟩
  rw [hnonce, haad, hciphertext, transparent_aeadLaws.open_seal]
  exact Option.some_ne_none _

/-- Only the chunk was sealed under its key, its chain is that of the DH step, whose keys are new. -/
theorem sample_ideal {w : World} (hsealed : (w.party .responder).sealed = [sampleSealed])
    (hparty : w.party .initiator = sampleWorld.party .initiator) (hdrawn : w.drawn = sampleWorld.drawn)
    (hroots : w.roots = sampleWorld.roots) :
    Ideal transparent w .initiator (sampleChunk sampleHeader) (List.replicate 64 0) none [4] := by
  refine ⟨fun parsed cacheK key clone hc => ?_, fun parsed cacheK key clone hc _ => ?_,
    fun parsed cacheK key clone hc _ => ?_⟩
  -- what commits is the chunk, under its key
  all_goals
    rw [hparty] at hc
    obtain ⟨rfl, rfl, rfl, rfl⟩ := sample_commits.unique hc
  · obtain ⟨hnonce, haad, hciphertext⟩ := @sampleChunk_parts sampleHeader rfl
    exact ⟨.responder, sampleSealed, by rw [hsealed]; exact List.mem_cons_self, rfl, hnonce.symm, haad.symm,
      hciphertext.symm⟩
  · rw [hparty]
    rintro (_ | _) s hs - -
    · rw [hparty] at hs
      cases hs
    · rw [hsealed, List.mem_singleton] at hs
      rw [hs]
      decide
  · rw [hdrawn, hroots]
    decide

/-- The initiator takes the chunk with a DH step and drops its key. -/
theorem taken_reached : ∃ w, Runs (Step transparent) sampleWorld w ∧
    (w.party .initiator).receiver = ⟨takenState,
      (OrdMap.empty.set (skippedKey sampleHeader.dhPub 0) sampleKey).delete (skippedKey sampleHeader.dhPub 0)⟩ ∧
    (w.party .initiator).accepted = [(sampleHeader.dhPub, 0)] ∧ (w.party .responder).sealed = [sampleSealed] := by
  obtain ⟨w, hrun, hsealed, hparty, hdrawn, hroots⟩ := sealed_reached
  have hsteps : stepsDh (w.party .initiator).receiver.state sampleHeader = true := by
    rw [hparty]
    decide
  have hcommits := sample_commits
  rw [← hparty] at hcommits
  have hdeliver := Step.deliver w .initiator (sampleChunk sampleHeader) (List.replicate 64 0) none [4]
    (sample_ideal hsealed hparty hdrawn hroots)
  rw [deliver_climb hcommits hsteps] at hdeliver
  refine ⟨_, (hrun.tail hdeliver).tail (Step.forget _ .initiator (skippedKey sampleHeader.dhPub 0)), ?_, ?_, ?_⟩
  · simp only [upd_self, Party.take, hparty]
    rfl
  · simp only [upd_self, Party.take, hparty]
    rfl
  · exact hsealed

/-- A header of the chain that the initiator has left. -/
def supersededHeader : RatchetHeader := ⟨transparent.x25519Base [2], 0, 0⟩

/-- When the chunk comes again it is rejected with nothing changed, and so is a frame of the chain
that the DH step has superseded, for which the clone makes another step. -/
theorem commits_on_authentication_superseded : ∃ w, Setup transparent sampleWorld ∧
    Runs (Step transparent) sampleWorld w ∧ Replayed (w.party .initiator) (sampleChunk sampleHeader) ∧
    stepsDh (w.party .initiator).receiver.state supersededHeader = true ∧
    ∀ header ∈ [sampleHeader, supersededHeader],
      (decryptMessageChunk transparent (sampleChunk header) (List.replicate 64 0) none [5]).run
          (w.party .initiator).receiver = .ok droppedChunk (w.party .initiator).receiver ∨
        ∃ e, (decryptMessageChunk transparent (sampleChunk header) (List.replicate 64 0) none [5]).run
          (w.party .initiator).receiver = .error e (w.party .initiator).receiver := by
  obtain ⟨w, hrun, hreceiver, haccepted, hsealed⟩ := taken_reached
  have hfits : ∀ header ∈ [sampleHeader, supersededHeader], HeaderFits header 0 := by
    simp only [List.forall_mem_cons, List.not_mem_nil, false_implies, implies_true, and_true]
    exact ⟨sampleHeader_fits, rfl, Nat.zero_le _, Nat.zero_le _, Nat.zero_le _⟩
  have hreplayed : Replayed (w.party .initiator) (sampleChunk sampleHeader) :=
    ⟨_, parse_sealedChunk sampleHeader_fits, by rw [haccepted]; exact List.mem_cons_self⟩
  have hforged : Forged (w.party .responder) (sampleChunk supersededHeader) (List.replicate 64 0) := by
    intro s hs hsame
    rw [hsealed, List.mem_singleton] at hs
    rw [hs, (@sampleChunk_parts supersededHeader rfl).2.1] at hsame
    exact absurd hsame.2.1 (by decide)
  refine ⟨w, sampleWorld_setup, hrun, hreplayed, by rw [hreceiver]; decide, fun header hheader => ?_⟩
  have hparse := @parse_sealedChunk transparent header 0 ⟨List.replicate 12 0, length_zeros_twelve⟩
    (List.replicate 64 0) (List.replicate DECRYPTED_LEN 0) sampleKey (hfits header hheader)
  have hnone : ∀ parsed cacheK key clone, ¬ Commits transparent (w.party .initiator).receiver
      (sampleChunk header) (List.replicate 64 0) none [5] parsed cacheK key clone := by
    intro parsed cacheK key clone hc
    have hverifies := hc.verifies
    rw [hreceiver] at hc
    obtain ⟨_, _, hgate, hdecrypt, hkey⟩ := hc.derives
    cases hc.parses.symm.trans hparse
    cases hgate
    rcases List.mem_pair.mp hheader with rfl | rfl
    · -- the counter is past the message
      cases hdecrypt
    · -- the clone derives a key, which is not the one the frame was sealed under
      cases hdecrypt
      cases hkey
      obtain ⟨hnonce, haad, hciphertext⟩ := @sampleChunk_parts supersededHeader rfl
      rw [hnonce, haad, hciphertext] at hverifies
      exact hverifies (transparent_open_other (by decide) _)
  have hideal : Ideal transparent w .initiator (sampleChunk header) (List.replicate 64 0) none [5] :=
    ⟨fun _ _ _ _ hc => absurd hc (hnone _ _ _ _), fun _ _ _ _ hc => absurd hc (hnone _ _ _ _),
      fun _ _ _ _ hc => absurd hc (hnone _ _ _ _)⟩
  have huncached : Uncached (w.party .initiator).receiver (sampleChunk header) none := by
    intro parsed cacheK _ _
    rw [hreceiver]
    rfl
  -- the chunk has been taken, and the peer has not sealed the other frame
  refine (commits_on_authentication transparent transparent_dhLaws).2 sampleWorld w sampleWorld_setup hrun .initiator
    (sampleChunk header) (List.replicate 64 0) none [5] hideal huncached ?_
  rcases List.mem_pair.mp hheader with rfl | rfl
  · exact .inl hreplayed
  · exact .inr hforged

end Sample

end ChunkTraffic

end P2Party
