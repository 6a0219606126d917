import P2Party.Base.TwoParty
import P2Party.Cryptography.Ratchet

/-!
# Double Ratchet key agreement

Two parties run `ratchetEncrypt` and `ratchetDecrypt` against each other over a
network that loses, delays and reorders headers but delivers each at most once.
The section proves that every delivery returns the key the sender got.

Both parties walk one ladder of DH key pairs. Rung `0` is the responder's
handshake key, rung `1` the initiator's, and each DH step adds the next rung; the
chain of rung `k` is what the owner of key `k` sends on. A party at rung `k`
sends on chain `k` and receives on chain `k - 1`, and the two parties always
stand on neighbouring rungs, so no chain is ever passed over whole.

- `Link`, `Step`: the system and its steps;
- `Ladder`: the ghost record of all rungs so far;
- `Standing`: one party's state seen from the ladder;
- `Inv`, `Inv.encrypt`, `Inv.deliver`: the invariant and its step lemmas;
- `ratchetDecrypt_agrees`: key agreement along every run.
-/

namespace P2Party

open Base

namespace RatchetAgreement

variable (L : LibCrypto)

/-! ## The system -/

/-- A header on the wire, with the key its sender got for it. -/
structure Packet where
  header : RatchetHeader
  messageKey : Bytes

/-- Both ratchet states, the undelivered packets each party emitted, and every DH
public key generated so far. -/
structure Link where
  state : Role → RatchetState
  inFlight : Role → List Packet
  drawn : List Bytes

/-- Whether `ratchetDecrypt` will take a DH step on this header. -/
def stepsDh (state : RatchetState) (header : RatchetHeader) : Bool :=
  (state.skipped.get (skippedKey header.dhPub header.N)).isNone && state.isNewDh header

/-- How many keys of each chain `ratchetDecrypt` has to skip for this header. -/
def skipsNeeded (state : RatchetState) (header : RatchetHeader) : List Nat :=
  if (state.skipped.get (skippedKey header.dhPub header.N)).isSome then []
  else if state.isNewDh header then [header.PN - state.Nr, header.N]
  else [header.N - state.Nr]

/-- No chain needs more than `MAX_SKIP` keys skipped and the skipped map stays
within `MAX_SKIP_SESSION` entries. -/
def WithinSkipBounds (state : RatchetState) (header : RatchetHeader) : Prop :=
  (∀ k ∈ skipsNeeded state header, k ≤ MAX_SKIP) ∧
    state.skipped.size + (skipsNeeded state header).sum ≤ MAX_SKIP_SESSION

instance (state : RatchetState) (header : RatchetHeader) :
    Decidable (WithinSkipBounds state header) :=
  inferInstanceAs (Decidable (_ ∧ _))

/-- The bounds of a receive with a DH step. -/
theorem WithinSkipBounds.newDh {state : RatchetState} {header : RatchetHeader}
    (h : WithinSkipBounds state header)
    (hget : state.skipped.get (skippedKey header.dhPub header.N) = none)
    (hnew : state.isNewDh header = true) :
    header.PN ≤ state.Nr + MAX_SKIP ∧ header.N ≤ MAX_SKIP ∧
      state.skipped.size + (header.PN - state.Nr) + header.N ≤ MAX_SKIP_SESSION := by
  have hskips : skipsNeeded state header = [header.PN - state.Nr, header.N] := by
    simp [skipsNeeded, hget, hnew]
  obtain ⟨hmax, hsize⟩ := h
  rw [hskips] at hmax hsize
  have hPN := hmax (header.PN - state.Nr) (by simp)
  have hN := hmax header.N (by simp)
  simp only [List.sum_cons, List.sum_nil] at hsize
  omega

/-- The bounds of a receive on the current chain. -/
theorem WithinSkipBounds.current {state : RatchetState} {header : RatchetHeader}
    (h : WithinSkipBounds state header)
    (hget : state.skipped.get (skippedKey header.dhPub header.N) = none)
    (hcur : state.isNewDh header = false) :
    header.N ≤ state.Nr + MAX_SKIP ∧
      state.skipped.size + (header.N - state.Nr) ≤ MAX_SKIP_SESSION := by
  have hskips : skipsNeeded state header = [header.N - state.Nr] := by
    simp [skipsNeeded, hget, hcur]
  obtain ⟨hmax, hsize⟩ := h
  rw [hskips] at hmax hsize
  have hN := hmax (header.N - state.Nr) (by simp)
  simp only [List.sum_cons, List.sum_nil] at hsize
  omega

/-- One step of the two parties and the network. A key pair generated by a
delivery has a public key never drawn before. -/
inductive Step : Link → Link → Prop
  | encrypt (σ : Link) (r : Role) {mk : Bytes} {header : RatchetHeader} {s : RatchetState}
      (hrun : (ratchetEncrypt L).run (σ.state r) = .ok (mk, header) s) :
      Step σ { σ with
        state := upd σ.state r s
        inFlight := upd σ.inFlight r (σ.inFlight r ++ [⟨header, mk⟩]) }
  | deliver (σ : Link) (r : Role) (secretKey : Bytes) {pre post : List Packet} {p : Packet}
      (hin : σ.inFlight r.peer = pre ++ p :: post)
      (hbounds : WithinSkipBounds (σ.state r) p.header)
      (hfresh : stepsDh (σ.state r) p.header = true → L.x25519Base secretKey ∉ σ.drawn) :
      Step σ
        { state := upd σ.state r
            (finalState ((ratchetDecrypt L p.header secretKey).run (σ.state r)))
          inFlight := upd σ.inFlight r.peer (pre ++ post)
          drawn := if stepsDh (σ.state r) p.header then L.x25519Base secretKey :: σ.drawn
            else σ.drawn }
  | lose (σ : Link) (r : Role) {pre post : List Packet} {p : Packet}
      (hin : σ.inFlight r = pre ++ p :: post) :
      Step σ { σ with inFlight := upd σ.inFlight r (pre ++ post) }

/-- The set-up: `initRatchet` on both sides from one seed, then
`primeResponderRatchet`, with three distinct DH public keys. -/
structure Initial (σ : Link) : Prop where
  setup : ∃ seed suite secI secR secR' unprimed,
    initRatchet L seed false none suite secR = .ok unprimed ∧
    initRatchet L seed true (some unprimed.dhSelfPub) suite secI = .ok (σ.state .initiator) ∧
    (primeResponderRatchet L (σ.state .initiator).dhSelfPub secR').run unprimed =
      .ok () (σ.state .responder) ∧
    σ.drawn = [L.x25519Base secR', L.x25519Base secI, L.x25519Base secR]
  distinct : σ.drawn.Nodup
  noPackets : ∀ r, σ.inFlight r = []

/-! ## The ladder -/

/-- Every rung so far: DH secret, root key and chain key, and how many messages
were sent on the rung's chain. -/
structure Ladder where
  sec : Nat → Bytes
  root : Nat → Bytes
  chain : Nat → Bytes
  sent : Nat → Nat

namespace Ladder

/-- The DH public key of a rung. -/
def pub (g : Ladder) (k : Nat) : Bytes := L.x25519Base (g.sec k)

/-- The rungs up to `top` follow from one another and have distinct public keys. -/
structure Linked (g : Ladder) (top : Nat) : Prop where
  link : ∀ j < top, ∃ out, L.x25519Scalarmult (g.sec j) (g.pub L (j + 1)) = some out ∧
    kdfRk L (g.root j) out = (g.root (j + 1), g.chain (j + 1))
  pub_inj : ∀ i ≤ top, ∀ j ≤ top, g.pub L i = g.pub L j → i = j
  sent_zero : g.sent 0 = 0
  sent_above : ∀ j, top < j → g.sent j = 0

/-- Add rung `k`. -/
def extend (g : Ladder) (k : Nat) (sec root chain : Bytes) : Ladder :=
  { sec := Function.update g.sec k sec
    root := Function.update g.root k root
    chain := Function.update g.chain k chain
    sent := g.sent }

/-- Count one more message on chain `k`. -/
def bump (g : Ladder) (k : Nat) : Ladder :=
  { g with sent := Function.update g.sent k (g.sent k + 1) }

variable {g : Ladder} {sec root chain : Bytes} {i k : Nat}

@[simp] theorem extend_sec_self : (g.extend k sec root chain).sec k = sec := by simp [extend]
@[simp] theorem extend_root_self : (g.extend k sec root chain).root k = root := by simp [extend]
@[simp] theorem extend_chain_self : (g.extend k sec root chain).chain k = chain := by
  simp [extend]
theorem extend_sec_ne (h : i ≠ k) : (g.extend k sec root chain).sec i = g.sec i := by
  simp [extend, h]

theorem extend_root_ne (h : i ≠ k) : (g.extend k sec root chain).root i = g.root i := by
  simp [extend, h]

theorem extend_chain_ne (h : i ≠ k) : (g.extend k sec root chain).chain i = g.chain i := by
  simp [extend, h]

theorem extend_pub_self : (g.extend k sec root chain).pub L k = L.x25519Base sec := by
  simp [pub]

theorem extend_pub_ne (h : i ≠ k) : (g.extend k sec root chain).pub L i = g.pub L i := by
  rw [pub, pub, extend_sec_ne h]

@[simp] theorem bump_sent_self : (g.bump k).sent k = g.sent k + 1 := by simp [bump]

theorem bump_sent_ne (h : i ≠ k) : (g.bump k).sent i = g.sent i := by simp [bump, h]

theorem le_bump_sent (g : Ladder) (k i : Nat) : g.sent i ≤ (g.bump k).sent i := by
  by_cases h : i = k
  · subst h
    simp
  · exact Nat.le_of_eq (bump_sent_ne h).symm

@[simp] theorem bump_pub (g : Ladder) (k : Nat) : (g.bump k).pub L = g.pub L := rfl

theorem Linked.bump {top : Nat} (h : g.Linked L top) (h1 : 1 ≤ k) (hk : k ≤ top) :
    (g.bump k).Linked L top where
  link := h.link
  pub_inj := h.pub_inj
  sent_zero := by rw [bump_sent_ne (by omega), h.sent_zero]
  sent_above j hj := by rw [bump_sent_ne (by omega), h.sent_above j hj]

/-- A fresh key pair and its agreement with the top rung make the next rung. -/
theorem Linked.extend {top : Nat} (h : g.Linked L top) (sec root chain : Bytes) (hdh : L.DhLaws)
    {out : Bytes}
    (hfresh : ∀ j ≤ top, L.x25519Base sec ≠ g.pub L j)
    (hout : L.x25519Scalarmult sec (g.pub L top) = some out)
    (hkdf : kdfRk L (g.root top) out = (root, chain)) :
    (g.extend (top + 1) sec root chain).Linked L (top + 1) where
  link j hj := by
    by_cases hjt : j = top
    · subst hjt
      refine ⟨out, ?_, ?_⟩
      · rw [extend_sec_ne (by omega), extend_pub_self, hdh.commutes]
        exact hout
      · rw [extend_root_ne (by omega), extend_root_self, extend_chain_self, hkdf]
    · obtain ⟨out', h1, h2⟩ := h.link j (by omega)
      refine ⟨out', ?_, ?_⟩
      · rw [extend_sec_ne (by omega), extend_pub_ne L (by omega)]
        exact h1
      · rw [extend_root_ne (by omega), extend_root_ne (by omega), extend_chain_ne (by omega)]
        exact h2
  pub_inj i hi j hj hij := by
    by_cases hit : i = top + 1
    · by_cases hjt : j = top + 1
      · omega
      · rw [hit, extend_pub_self, extend_pub_ne L hjt] at hij
        exact absurd hij (hfresh j (by omega))
    · by_cases hjt : j = top + 1
      · rw [hjt, extend_pub_self, extend_pub_ne L hit] at hij
        exact absurd hij.symm (hfresh i (by omega))
      · rw [extend_pub_ne L hit, extend_pub_ne L hjt] at hij
        exact h.pub_inj i (by omega) j (by omega) hij
  sent_zero := h.sent_zero
  sent_above j hj := h.sent_above j (by omega)

end Ladder

/-! ## One party on the ladder -/

/-- A party on rung `k`: it sends on chain `k`, receives on chain `k - 1`, and
its skipped map holds keys of chains it has moved past. -/
structure Standing (g : Ladder) (k : Nat) (s : RatchetState) : Prop where
  one_le : 1 ≤ k
  self_sec : s.dhSelfSec = g.sec k
  self_pub : s.dhSelfPub = g.pub L k
  remote : s.dhRemotePub = some (g.pub L (k - 1))
  root : s.rootKey = g.root k
  sending : s.sendingChainKey = some (chainKeyAt L (g.chain k) s.Ns)
  sent : s.Ns = g.sent k
  previous : s.PN = g.sent (k - 2)
  receiving : 2 ≤ k → s.receivingChainKey = some (chainKeyAt L (g.chain (k - 1)) s.Nr)
  first : k = 1 → s.receivingChainKey = none ∧ s.Nr = 0
  received : s.Nr ≤ g.sent (k - 1)
  stored : ∀ key mk, s.skipped.get key = some mk →
    ∃ c N, key = skippedKey (g.pub L c) N ∧ c ≤ k - 1 ∧ (c = k - 1 → N < s.Nr)

/-- Message `N` of chain `c` can still be read by a party on rung `k`: the chain
is the peer's next one, or the current one and not yet passed, or the key is
stored. -/
def Pending (g : Ladder) (k : Nat) (s : RatchetState) (c N : Nat) : Prop :=
  c = k + 1 ∨ (c = k - 1 ∧ s.Nr ≤ N) ∨
    s.skipped.get (skippedKey (g.pub L c) N) = some (messageKeyAt L (g.chain c) N)

/-- A packet is message `N` of chain `c`. -/
structure IsMessage (g : Ladder) (p : Packet) (c N : Nat) : Prop where
  one_le : 1 ≤ c
  header_eq : p.header = ⟨g.pub L c, N, g.sent (c - 2)⟩
  key_eq : p.messageKey = messageKeyAt L (g.chain c) N
  sent_lt : N < g.sent c

/-- A packet of a peer on rung `top` that a party on rung `k` can still read. -/
def Readable (g : Ladder) (k : Nat) (s : RatchetState) (top : Nat) (p : Packet) : Prop :=
  ∃ c N, IsMessage L g p c N ∧ c ≤ top ∧ Pending L g k s c N

/-! ### Growing the ladder under a party -/

theorem Standing.extend {g : Ladder} {k j : Nat} {s : RatchetState} {sec root chain : Bytes}
    (h : Standing L g k s) (hj : k < j) : Standing L (g.extend j sec root chain) k s where
  one_le := h.one_le
  self_sec := by rw [Ladder.extend_sec_ne (by omega), h.self_sec]
  self_pub := by rw [Ladder.extend_pub_ne L (by omega), h.self_pub]
  remote := by rw [Ladder.extend_pub_ne L (by omega), h.remote]
  root := by rw [Ladder.extend_root_ne (by omega), h.root]
  sending := by rw [Ladder.extend_chain_ne (by omega), h.sending]
  sent := h.sent
  previous := h.previous
  receiving hk := by rw [Ladder.extend_chain_ne (by omega), h.receiving hk]
  first := h.first
  received := h.received
  stored key mk hget := by
    obtain ⟨c, N, hkey, hc, hN⟩ := h.stored key mk hget
    exact ⟨c, N, by rw [Ladder.extend_pub_ne L (by omega)]; exact hkey, hc, hN⟩

theorem IsMessage.extend {g : Ladder} {p : Packet} {c N j : Nat} {sec root chain : Bytes}
    (h : IsMessage L g p c N) (hj : c < j) : IsMessage L (g.extend j sec root chain) p c N where
  one_le := h.one_le
  header_eq := by rw [Ladder.extend_pub_ne L (by omega)]; exact h.header_eq
  key_eq := by rw [Ladder.extend_chain_ne (by omega)]; exact h.key_eq
  sent_lt := h.sent_lt

theorem Pending.extend {g : Ladder} {k c N j : Nat} {s : RatchetState} {sec root chain : Bytes}
    (h : Pending L g k s c N) (hj : c < j) : Pending L (g.extend j sec root chain) k s c N := by
  rw [Pending, Ladder.extend_pub_ne L (by omega), Ladder.extend_chain_ne (by omega)]
  exact h

theorem Readable.extend {g : Ladder} {k top j : Nat} {s : RatchetState} {p : Packet}
    (h : Readable L g k s top p) (sec root chain : Bytes) (hj : top < j) :
    Readable L (g.extend j sec root chain) k s top p := by
  obtain ⟨c, N, hmsg, hc, hpend⟩ := h
  exact ⟨c, N, hmsg.extend L (by omega), hc, hpend.extend L (by omega)⟩

/-- A party on a neighbouring rung does not notice a message sent on chain `j`. -/
theorem Standing.bump {g : Ladder} {k j : Nat} {s : RatchetState} (h : Standing L g k s)
    (hj : j ≠ k) (hj2 : j ≠ k - 2) : Standing L (g.bump j) k s where
  one_le := h.one_le
  self_sec := h.self_sec
  self_pub := h.self_pub
  remote := h.remote
  root := h.root
  sending := h.sending
  sent := by rw [Ladder.bump_sent_ne (by omega), h.sent]
  previous := by rw [Ladder.bump_sent_ne (by omega), h.previous]
  receiving := h.receiving
  first := h.first
  received := Nat.le_trans h.received (Ladder.le_bump_sent g j _)
  stored := h.stored

theorem Readable.bump {g : Ladder} {k top j : Nat} {s : RatchetState} {p : Packet}
    (h : Readable L g k s top p) (h1 : 1 ≤ j) (hj : top < j + 2) :
    Readable L (g.bump j) k s top p := by
  obtain ⟨c, N, hmsg, hc, hpend⟩ := h
  refine ⟨c, N, ⟨hmsg.one_le, ?_, hmsg.key_eq, ?_⟩, hc, hpend⟩
  · rw [Ladder.bump_sent_ne (by omega)]
    exact hmsg.header_eq
  · exact Nat.lt_of_lt_of_le hmsg.sent_lt (Ladder.le_bump_sent g j c)

/-! ### One send -/

/-- A party on rung `k` sends message `sent k` of chain `k` and stays there. -/
theorem Standing.encrypt {g : Ladder} {k : Nat} {s s' : RatchetState} {mk : Bytes}
    {header : RatchetHeader} (h : Standing L g k s)
    (hrun : (ratchetEncrypt L).run s = .ok (mk, header) s') :
    Standing L (g.bump k) k s' ∧ IsMessage L (g.bump k) ⟨header, mk⟩ k (g.sent k) := by
  have h1 := h.one_le
  rw [ratchetEncrypt_run L h.sending] at hrun
  obtain ⟨hpair, rfl⟩ := EStateM.Result.ok.inj hrun
  obtain ⟨rfl, rfl⟩ := Prod.mk.inj hpair
  refine ⟨⟨h.one_le, h.self_sec, h.self_pub, h.remote, h.root, rfl, ?_, ?_, h.receiving, h.first,
    Nat.le_trans h.received (Ladder.le_bump_sent g k _), h.stored⟩, ⟨h.one_le, ?_, ?_, ?_⟩⟩
  · simp [h.sent]
  · rw [Ladder.bump_sent_ne (by omega)]
    exact h.previous
  · rw [Ladder.bump_pub, Ladder.bump_sent_ne (by omega), ← h.self_pub, ← h.sent, ← h.previous]
  · rw [← h.sent]
    rfl
  · simp

/-! ### One receive -/

/-- What a receive of message `N` of chain `c` leaves: the party stands on rung
`k'`, and every other message up to rung `top` it could read it can still read. -/
structure Received (g g' : Ladder) (k k' top : Nat) (s s' : RatchetState) (c N : Nat) :
    Prop where
  standing : Standing L g' k' s'
  others : ∀ c' N', (c', N') ≠ (c, N) → 1 ≤ c' → c' ≤ top → N' < g.sent c' →
    Pending L g k s c' N' → Pending L g' k' s' c' N'

theorem Received.mono {g g' : Ladder} {k k' top top' c N : Nat} {s s' : RatchetState}
    (h : Received L g g' k k' top s s' c N) (hle : top' ≤ top) :
    Received L g g' k k' top' s s' c N where
  standing := h.standing
  others c' N' hne h1 hc' hsent hpend := h.others c' N' hne h1 (Nat.le_trans hc' hle) hsent hpend

/-- Different messages have different skipped-map keys. -/
theorem skippedKey_ne {g : Ladder} {top c c' N N' : Nat} (hlinked : g.Linked L top)
    (hc : c ≤ top) (hc' : c' ≤ top) (h : (c', N') ≠ (c, N)) :
    skippedKey (g.pub L c') N' ≠ skippedKey (g.pub L c) N := by
  intro heq
  obtain ⟨hpub, hN⟩ := skippedKey_inj.mp heq
  exact h (Prod.ext (hlinked.pub_inj c' hc' c hc hpub) hN)

/-- `new` is `old` after the keys of chain `m` with indices in `[a, b)` were
stored. -/
structure Stashed (g : Ladder) (m a b : Nat) (old new : OrdMap String Bytes) : Prop where
  inside : ∀ i, a ≤ i → i < b →
    new.get (skippedKey (g.pub L m) i) = some (messageKeyAt L (g.chain m) i)
  outside : ∀ key, (∀ i, a ≤ i → i < b → key ≠ skippedKey (g.pub L m) i) →
    new.get key = old.get key

/-- Storing a stretch of one chain keeps every correctly stored key. -/
theorem Stashed.keeps {g : Ladder} {m a b top c N : Nat} {old new : OrdMap String Bytes}
    (h : Stashed L g m a b old new) (hlinked : g.Linked L top) (hm : m ≤ top) (hc : c ≤ top)
    (hget : old.get (skippedKey (g.pub L c) N) = some (messageKeyAt L (g.chain c) N)) :
    new.get (skippedKey (g.pub L c) N) = some (messageKeyAt L (g.chain c) N) := by
  by_cases hin : c = m ∧ a ≤ N ∧ N < b
  · obtain ⟨rfl, ha, hb⟩ := hin
    exact h.inside N ha hb
  · rw [h.outside, hget]
    intro i ha hb heq
    obtain ⟨hpub, rfl⟩ := skippedKey_inj.mp heq
    exact hin ⟨hlinked.pub_inj c hc m hm hpub, ha, hb⟩

/-- Whatever the map holds after the store was stored now or before. -/
theorem Stashed.origin {g : Ladder} {m a b : Nat} {old new : OrdMap String Bytes} {key : String}
    {mk : Bytes} (h : Stashed L g m a b old new) (hget : new.get key = some mk) :
    (∃ i, a ≤ i ∧ i < b ∧ key = skippedKey (g.pub L m) i) ∨ old.get key = some mk := by
  by_cases hin : ∃ i, a ≤ i ∧ i < b ∧ key = skippedKey (g.pub L m) i
  · exact Or.inl hin
  · refine Or.inr ?_
    rw [← h.outside key fun i ha hb heq => hin ⟨i, ha, hb, heq⟩]
    exact hget

/-- A stored key: the map answers with the sender's key and forgets it. -/
theorem Standing.receive_hit {g : Ladder} {k top c N : Nat} {s : RatchetState} {p : Packet}
    {mk : Bytes} (h : Standing L g k s) (hlinked : g.Linked L top) (hk : k ≤ top) (hc : c ≤ top)
    (hmsg : IsMessage L g p c N) (hpend : Pending L g k s c N)
    (hget : s.skipped.get (skippedKey p.header.dhPub p.header.N) = some mk) :
    mk = p.messageKey ∧ Received L g g k k top s
      { s with skipped := s.skipped.delete (skippedKey p.header.dhPub p.header.N) } c N := by
  rw [hmsg.header_eq] at hget ⊢
  obtain ⟨c₀, N₀, hkey, hc₀, hlt⟩ := h.stored _ _ hget
  obtain ⟨hpub, rfl⟩ := skippedKey_inj.mp hkey
  obtain rfl := hlinked.pub_inj c hc c₀ (by omega) hpub
  have h1 := h.one_le
  constructor
  · -- only the third way of being pending leaves an entry in the map
    rcases hpend with hnext | ⟨hcur, hle⟩ | hstored
    · omega
    · exact absurd (hlt hcur) (Nat.not_lt.mpr hle)
    · rw [hget] at hstored
      rw [hmsg.key_eq, Option.some.inj hstored]
  · refine ⟨⟨h.one_le, h.self_sec, h.self_pub, h.remote, h.root, h.sending, h.sent, h.previous,
      h.receiving, h.first, h.received, ?_⟩, ?_⟩
    · intro key mk' hget'
      refine h.stored key mk' ?_
      by_cases hne : key = skippedKey (g.pub L c) N
      · rw [hne, OrdMap.get_delete_self] at hget'
        cases hget'
      · rwa [OrdMap.get_delete_ne _ hne] at hget'
    · intro c' N' hne _ hc' _ hpend'
      rcases hpend' with hnext | hcur | hstored
      · exact Or.inl hnext
      · exact Or.inr (Or.inl hcur)
      · refine Or.inr (Or.inr ?_)
        rw [OrdMap.get_delete_ne _ (skippedKey_ne L hlinked hc hc' hne), hstored]

/-- A message of the current chain: the gap before it is stored and the chain
moves past it. -/
theorem Standing.receive_current {g : Ladder} {k top N : Nat} {s : RatchetState} {p : Packet}
    (h : Standing L g k s) (hlinked : g.Linked L top) (hk : k ≤ top)
    (hmsg : IsMessage L g p (k - 1) N) (hle : s.Nr ≤ N) (hskip : N ≤ s.Nr + MAX_SKIP)
    (hsize : s.skipped.size + (N - s.Nr) ≤ MAX_SKIP_SESSION) :
    ∃ s', (receiveFromChain L p.header).run s = .ok p.messageKey s' ∧
      Received L g g k k top s s' (k - 1) N := by
  have hk2 : 2 ≤ k := by
    have := hmsg.one_le
    omega
  have hN : p.header.N = N := by rw [hmsg.header_eq]
  obtain ⟨skipped, hrun, hinside, houtside⟩ :=
    receiveFromChain_run L p.header h.remote (h.receiving hk2) (hN ▸ hle) (hN ▸ hskip)
      (hN ▸ hsize)
  rw [hN] at hrun hinside houtside
  rw [← hmsg.key_eq] at hrun
  have hstash : Stashed L g (k - 1) s.Nr N s.skipped skipped := ⟨hinside, houtside⟩
  refine ⟨_, hrun, ⟨⟨h.one_le, h.self_sec, h.self_pub, h.remote, h.root,
    h.sending, h.sent, h.previous, fun _ => rfl, fun hk1 => by omega, hmsg.sent_lt, ?_⟩, ?_⟩⟩
  · intro key mk hget
    rcases hstash.origin L hget with ⟨i, -, hi, rfl⟩ | hold
    · exact ⟨k - 1, i, rfl, Nat.le_refl _, fun _ => Nat.lt_succ_of_lt hi⟩
    · obtain ⟨c, N₀, hkey, hc, hlt⟩ := h.stored key mk hold
      exact ⟨c, N₀, hkey, hc, fun hck => Nat.lt_succ_of_lt (Nat.lt_of_lt_of_le (hlt hck) hle)⟩
  · intro c' N' hne _ hc' _ hpend
    rcases hpend with hnext | ⟨rfl, hle'⟩ | hstored
    · exact Or.inl hnext
    · -- the same chain: passed now, or still ahead
      rcases Nat.lt_trichotomy N' N with hlt | rfl | hgt
      · exact Or.inr (Or.inr (hstash.inside N' hle' hlt))
      · exact absurd rfl hne
      · exact Or.inr (Or.inl ⟨rfl, hgt⟩)
    · exact Or.inr (Or.inr (hstash.keeps L hlinked (by omega) hc' hstored))

/-- Before a DH step the rest of the receiving chain is stored. -/
theorem Standing.finish_chain {g : Ladder} {k top : Nat} {s : RatchetState}
    (h : Standing L g k s) (hlinked : g.Linked L top)
    (hskip : g.sent (k - 1) ≤ s.Nr + MAX_SKIP)
    (hsize : s.skipped.size + (g.sent (k - 1) - s.Nr) ≤ MAX_SKIP_SESSION) :
    ∃ chainKey Nr skipped,
      (skipMessageKeys L (g.sent (k - 1))).run s = .ok () { s with
        receivingChainKey := chainKey
        Nr := Nr
        skipped := skipped } ∧
      Stashed L g (k - 1) s.Nr (g.sent (k - 1)) s.skipped skipped ∧
      skipped.size ≤ s.skipped.size + (g.sent (k - 1) - s.Nr) := by
  by_cases hk : k = 1
  · -- the initiator before its first receive: there is no chain to finish
    subst hk
    obtain ⟨hnone, hNr⟩ := h.first rfl
    have hzero : g.sent (1 - 1) = 0 := hlinked.sent_zero
    refine ⟨s.receivingChainKey, s.Nr, s.skipped, skipMessageKeys_run_none L hskip hnone,
      ⟨fun i _ hi => by omega, fun _ _ => rfl⟩, by omega⟩
  · have hk2 : 2 ≤ k := by
      have := h.one_le
      omega
    obtain ⟨skipped, hloop, hinside, houtside, hle⟩ :=
      skipLoop_spec L (g.sent (k - 1) - s.Nr) h.remote (h.receiving hk2)
    have hrun := skipMessageKeys_run_some L hskip (h.receiving hk2)
    rw [hloop, evictSkipped_of_size_le (Nat.le_trans hle hsize)] at hrun
    exact ⟨_, _, skipped, hrun, ⟨fun i ha hb => hinside i ha (by omega),
      fun key hkey => houtside key fun i ha hb => hkey i ha (by omega)⟩, hle⟩

/-- A message of the peer's next chain: the party finishes the old chain, climbs
two rungs with a fresh key pair, and reads from the new chain. -/
theorem Standing.receive_newDh {g : Ladder} {k N : Nat} {s : RatchetState} {p : Packet}
    {secretKey : Bytes} (hdh : L.DhLaws) (h : Standing L g k s) (hlinked : g.Linked L (k + 1))
    (hmsg : IsMessage L g p (k + 1) N)
    (hmiss : s.skipped.get (skippedKey p.header.dhPub p.header.N) = none)
    (hskip : g.sent (k - 1) ≤ s.Nr + MAX_SKIP) (hskip' : N ≤ MAX_SKIP)
    (hsize : s.skipped.size + (g.sent (k - 1) - s.Nr) + N ≤ MAX_SKIP_SESSION)
    (hfresh : ∀ j ≤ k + 1, L.x25519Base secretKey ≠ g.pub L j) :
    ∃ s' root chain, (ratchetDecrypt L p.header secretKey).run s = .ok p.messageKey s' ∧
      (g.extend (k + 2) secretKey root chain).Linked L (k + 2) ∧
      Received L g (g.extend (k + 2) secretKey root chain) k (k + 2) (k + 1) s s' (k + 1) N := by
  have h1 := h.one_le
  have hheader := hmsg.header_eq
  have hnew : s.isNewDh p.header = true := by
    rw [RatchetState.isNewDh, h.remote, hheader, bne_iff_ne]
    intro heq
    have := hlinked.pub_inj (k - 1) (by omega) (k + 1) (Nat.le_refl _) (Option.some.inj heq)
    omega
  -- the old chain
  obtain ⟨oldChain, oldNr, skipped, hfinish, hstash, hle⟩ :=
    h.finish_chain L hlinked hskip (by omega)
  -- the two agreements of the DH step
  obtain ⟨out, hout, hkdf⟩ := hlinked.link k (by omega)
  rw [← h.root] at hkdf
  obtain ⟨out', hout'⟩ := Option.isSome_iff_exists.mp (hdh.defined secretKey (g.sec (k + 1)))
  have hstep := dhRatchet_run L
    { s with receivingChainKey := oldChain, Nr := oldNr, skipped := skipped } p.header secretKey
    (by rw [hheader]; simp only [h.self_sec]; exact hout) (by rw [hheader]; exact hout')
  simp only [hkdf] at hstep
  -- the new chain
  have hN : p.header.N = N := by rw [hheader]
  have hPN : p.header.PN = g.sent (k - 1) := by rw [hheader]; rfl
  let climbed : RatchetState :=
    { s with
      PN := s.Ns
      Ns := 0
      Nr := 0
      dhRemotePub := some p.header.dhPub
      receivingChainKey := some (g.chain (k + 1))
      dhSelfPub := L.x25519Base secretKey
      dhSelfSec := secretKey
      rootKey := (kdfRk L (g.root (k + 1)) out').1
      sendingChainKey := some (kdfRk L (g.root (k + 1)) out').2
      skipped := skipped }
  have hchain : climbed.receivingChainKey = some (chainKeyAt L (g.chain (k + 1)) climbed.Nr) := rfl
  obtain ⟨skipped', hrun, hinside, houtside⟩ :=
    receiveFromChain_run L p.header (show climbed.dhRemotePub = some p.header.dhPub from rfl) hchain
      (Nat.zero_le _) (by simp only [climbed]; omega) (by simp only [climbed]; omega)
  have hpub : p.header.dhPub = g.pub L (k + 1) := by rw [hheader]
  rw [hN] at hrun hinside houtside
  rw [← hmsg.key_eq] at hrun
  rw [hpub] at hinside houtside
  have hstash' : Stashed L g (k + 1) 0 N skipped skipped' := ⟨hinside, houtside⟩
  rw [← ratchetDecrypt_run_newDh L hmiss hnew (hPN ▸ hfinish) hstep] at hrun
  refine ⟨_, (kdfRk L (g.root (k + 1)) out').1, (kdfRk L (g.root (k + 1)) out').2, hrun,
    hlinked.extend L secretKey _ _ hdh hfresh hout' rfl, ⟨?_, ?_⟩⟩
  · exact
      { one_le := by omega
        self_sec := Ladder.extend_sec_self.symm
        self_pub := (Ladder.extend_pub_self L).symm
        remote := by
          show some p.header.dhPub = some (Ladder.pub L _ (k + 1))
          rw [Ladder.extend_pub_ne L (by omega), hpub]
        root := Ladder.extend_root_self.symm
        sending := by rw [Ladder.extend_chain_self]; rfl
        sent := (hlinked.sent_above (k + 2) (by omega)).symm
        previous := h.sent
        receiving := fun _ => by rw [Ladder.extend_chain_ne (by omega)]; rfl
        first := fun hk => by omega
        received := hmsg.sent_lt
        stored := fun key mk hget => by
          rcases hstash'.origin L hget with ⟨i, -, hi, rfl⟩ | hget
          · exact ⟨k + 1, i, by rw [Ladder.extend_pub_ne L (by omega)], Nat.le_refl _,
              fun _ => Nat.lt_succ_of_lt hi⟩
          · rcases hstash.origin L hget with ⟨i, -, hi, rfl⟩ | hget
            · exact ⟨k - 1, i, by rw [Ladder.extend_pub_ne L (by omega)], by omega,
                fun hk => by omega⟩
            · obtain ⟨c, N₀, hkey, hc, -⟩ := h.stored key mk hget
              exact ⟨c, N₀, by rw [Ladder.extend_pub_ne L (by omega)]; exact hkey, by omega,
                fun hk => by omega⟩ }
  · intro c' N' hne hc1 hc' hsent hpend
    refine Pending.extend L ?_ (by omega)
    rcases hpend with rfl | ⟨rfl, hle'⟩ | hstored
    · -- the new chain itself: passed now, or still ahead
      rcases Nat.lt_trichotomy N' N with hlt | rfl | hgt
      · exact Or.inr (Or.inr (hstash'.inside N' (Nat.zero_le _) hlt))
      · exact absurd rfl hne
      · exact Or.inr (Or.inl ⟨rfl, hgt⟩)
    · -- the finished chain: its tail was stored up to everything ever sent on it
      exact Or.inr (Or.inr (hstash'.keeps L hlinked (Nat.le_refl _) hc'
        (hstash.inside N' hle' hsent)))
    · exact Or.inr (Or.inr (hstash'.keeps L hlinked (Nat.le_refl _) hc'
        (hstash.keeps L hlinked (by omega) hc' hstored)))

/-- Any readable message of a neighbouring peer: the receive returns the sender's
key, with a DH step or without. -/
theorem Standing.receive {g : Ladder} {k top c N : Nat} {s : RatchetState} {p : Packet}
    {secretKey : Bytes} (hdh : L.DhLaws) (h : Standing L g k s) (hlinked : g.Linked L top)
    (hk : k ≤ top) (htop : top ≤ k + 1) (hmsg : IsMessage L g p c N) (hc : c ≤ top)
    (hpend : Pending L g k s c N) (hbounds : WithinSkipBounds s p.header)
    (hfresh : stepsDh s p.header = true → ∀ j ≤ top, L.x25519Base secretKey ≠ g.pub L j) :
    ∃ s', (ratchetDecrypt L p.header secretKey).run s = .ok p.messageKey s' ∧
      ((stepsDh s p.header = false ∧ Received L g g k k top s s' c N) ∨
        (stepsDh s p.header = true ∧ top = k + 1 ∧ ∃ root chain,
          (g.extend (k + 2) secretKey root chain).Linked L (k + 2) ∧
          Received L g (g.extend (k + 2) secretKey root chain) k (k + 2) top s s' c N)) := by
  have h1 := h.one_le
  cases hget : s.skipped.get (skippedKey p.header.dhPub p.header.N) with
  | some mk =>
    obtain ⟨hmk, hrec⟩ := h.receive_hit L hlinked hk hc hmsg hpend hget
    refine ⟨_, ?_, Or.inl ⟨by simp [stepsDh, hget], hrec⟩⟩
    rw [ratchetDecrypt_run_hit L hget, hmk]
  | none =>
    have hN : p.header.N = N := by rw [hmsg.header_eq]
    have hpub : p.header.dhPub = g.pub L c := by rw [hmsg.header_eq]
    have hPN : p.header.PN = g.sent (c - 2) := by rw [hmsg.header_eq]
    rcases hpend with rfl | ⟨rfl, hle⟩ | hstored
    · -- the peer's next chain
      obtain rfl : top = k + 1 := by omega
      have hnew : s.isNewDh p.header = true := by
        rw [RatchetState.isNewDh, h.remote, hpub, bne_iff_ne]
        intro heq
        have := hlinked.pub_inj (k - 1) (by omega) (k + 1) (Nat.le_refl _) (Option.some.inj heq)
        omega
      have hsteps : stepsDh s p.header = true := by simp [stepsDh, hget, hnew]
      obtain ⟨hskip, hskip', hsize⟩ := hbounds.newDh hget hnew
      have hidx : k + 1 - 2 = k - 1 := by omega
      rw [hPN, hidx] at hskip hsize
      rw [hN] at hskip' hsize
      obtain ⟨s', root, chain, hrun, hlinked', hrec⟩ :=
        h.receive_newDh L hdh hlinked hmsg hget hskip hskip' hsize (hfresh hsteps)
      exact ⟨s', hrun, Or.inr ⟨hsteps, rfl, root, chain, hlinked', hrec⟩⟩
    · -- the current chain
      have hcur : s.isNewDh p.header = false := by
        rw [RatchetState.isNewDh, h.remote, hpub, bne_self_eq_false]
      obtain ⟨hskip, hsize⟩ := hbounds.current hget hcur
      rw [hN] at hskip hsize
      obtain ⟨s', hrun, hrec⟩ := h.receive_current L hlinked hk hmsg hle hskip hsize
      rw [← ratchetDecrypt_run_current L hget hcur] at hrun
      exact ⟨s', hrun, Or.inl ⟨by simp [stepsDh, hcur], hrec⟩⟩
    · rw [hpub, hN, hstored] at hget
      cases hget

/-! ## The invariant -/

/-- What identifies a packet on the wire. -/
def Packet.slot (p : Packet) : Bytes × Nat := (p.header.dhPub, p.header.N)

/-- Both parties stand on neighbouring rungs of one ladder and can read every
packet still under way to them. -/
structure Inv (g : Ladder) (level : Role → Nat) (top : Nat) (σ : Link) : Prop where
  linked : g.Linked L top
  le_top : ∀ r, level r ≤ top
  near : ∀ r, top ≤ level r + 1
  apart : ∀ r, level r ≠ level r.peer
  standing : ∀ r, Standing L g (level r) (σ.state r)
  readable : ∀ r, ∀ p ∈ σ.inFlight r.peer, Readable L g (level r) (σ.state r) (level r.peer) p
  drawn : ∀ j ≤ top, g.pub L j ∈ σ.drawn
  distinct : ∀ r, ((σ.inFlight r).map Packet.slot).Nodup

/-- A party that climbs past its peer is its neighbour again. -/
theorem climb_neighbours {level : Role → Nat} {r : Role} (hpeer : level r.peer = level r + 1) (q : Role) :
    upd level r (level r + 2) q ≤ level r + 2 ∧ level r + 2 ≤ upd level r (level r + 2) q + 1 ∧
      upd level r (level r + 2) q ≠ upd level r (level r + 2) q.peer := by
  rcases Role.eq_or_eq_peer r q with rfl | rfl
  · simp [hpeer]
  · simp [hpeer]

/-- Only the counter and the map of the reader matter. -/
theorem Readable.congr {g : Ladder} {k top : Nat} {s s' : RatchetState} {p : Packet}
    (h : Readable L g k s top p) (hNr : s'.Nr = s.Nr) (hskipped : s'.skipped = s.skipped) :
    Readable L g k s' top p := by
  obtain ⟨c, N, hmsg, hc, hpend⟩ := h
  refine ⟨c, N, hmsg, hc, ?_⟩
  rw [Pending, hNr, hskipped]
  exact hpend

/-- A send keeps the invariant. -/
theorem Inv.encrypt {g : Ladder} {level : Role → Nat} {top : Nat} {σ : Link} (h : Inv L g level top σ)
    {r : Role} {mk : Bytes} {header : RatchetHeader} {s : RatchetState}
    (hrun : (ratchetEncrypt L).run (σ.state r) = .ok (mk, header) s) :
    Inv L (g.bump (level r)) level top { σ with
      state := upd σ.state r s
      inFlight := upd σ.inFlight r (σ.inFlight r ++ [⟨header, mk⟩]) } := by
  have hst := h.standing r
  have h1 := hst.one_le
  have hle := h.le_top r
  have hle' := h.le_top r.peer
  have hnear := h.near r
  have hapart := h.apart r
  obtain ⟨hst', hmsg⟩ := hst.encrypt L hrun
  have hkeeps : s.Nr = (σ.state r).Nr ∧ s.skipped = (σ.state r).skipped := by
    rw [ratchetEncrypt_run L hst.sending] at hrun
    obtain ⟨-, rfl⟩ := EStateM.Result.ok.inj hrun
    exact ⟨rfl, rfl⟩
  refine ⟨h.linked.bump L h1 hle, h.le_top, h.near, h.apart, ?_, ?_, h.drawn, ?_⟩
  · intro q
    rcases Role.eq_or_eq_peer r q with rfl | rfl
    · simpa using hst'
    · simpa using (h.standing r.peer).bump L hapart (by omega)
  · intro q p hp
    rcases Role.eq_or_eq_peer r q with rfl | rfl
    · -- packets to the sender: only its counters moved
      simp only [upd_self, upd_peer] at hp ⊢
      exact ((h.readable q p hp).bump L h1 (by omega)).congr L hkeeps.1 hkeeps.2
    · -- packets to the peer: the old ones and the new one
      simp only [upd_self, upd_peer, Role.peer_peer, List.mem_append, List.mem_singleton] at hp ⊢
      rcases hp with hp | rfl
      · have := h.readable r.peer p (by rwa [Role.peer_peer])
        rw [Role.peer_peer] at this
        exact this.bump L h1 (by omega)
      · refine ⟨level r, g.sent (level r), hmsg, Nat.le_refl _, ?_⟩
        have hlevel : level r = level r.peer + 1 ∨ level r = level r.peer - 1 := by
          have := h.near r.peer
          omega
        rcases hlevel with hup | hdown
        · exact Or.inl hup
        · refine Or.inr (Or.inl ⟨hdown, ?_⟩)
          have := (h.standing r.peer).received
          rwa [← hdown] at this
  · intro q
    rcases Role.eq_or_eq_peer r q with rfl | rfl
    · simp only [upd_self, List.map_append, List.map_singleton]
      rw [List.nodup_append]
      refine ⟨h.distinct q, by simp, fun a ha b hb hab => ?_⟩
      rw [List.mem_singleton] at hb
      subst hb
      subst hab
      -- an earlier packet with this slot would be message `sent` of the same chain
      obtain ⟨p, hp, hslot⟩ := List.mem_map.mp ha
      have hread := h.readable q.peer p (by rwa [Role.peer_peer])
      obtain ⟨c, N, hm, hc, -⟩ := hread
      rw [Role.peer_peer] at hc
      rw [Packet.slot, Packet.slot, hm.header_eq, hmsg.header_eq] at hslot
      obtain ⟨hpub, hN⟩ := Prod.mk.inj hslot
      obtain rfl := h.linked.pub_inj c (by omega) (level q) hle hpub
      have := hm.sent_lt
      simp only at hN
      omega
    · simpa using h.distinct r.peer

/-- The packets left after a delivery stay readable. -/
theorem Received.readable {g g' : Ladder} {k k' top c N : Nat} {s s' : RatchetState}
    {pre post : List Packet} {p : Packet} (h : Received L g g' k k' top s s' c N)
    (hmsg : IsMessage L g p c N)
    (hext : ∀ q c N, c ≤ top → IsMessage L g q c N → IsMessage L g' q c N)
    (hread : ∀ q ∈ pre ++ p :: post, Readable L g k s top q)
    (hnodup : ((pre ++ p :: post).map Packet.slot).Nodup) :
    ∀ q ∈ pre ++ post, Readable L g' k' s' top q := by
  intro q hq
  have hmem : q ∈ pre ++ p :: post := by
    rw [List.mem_append] at hq ⊢
    exact hq.imp_right (List.mem_cons_of_mem p)
  have hslot : q.slot ≠ p.slot := by
    rw [List.map_append, List.map_cons, List.nodup_middle, ← List.map_append,
      List.nodup_cons] at hnodup
    exact fun heq => hnodup.1 (List.mem_map.mpr ⟨q, hq, heq⟩)
  obtain ⟨c', N', hmsg', hc', hpend⟩ := hread q hmem
  refine ⟨c', N', hext q c' N' hc' hmsg', hc', h.others c' N' ?_ hmsg'.one_le hc' hmsg'.sent_lt hpend⟩
  intro heq
  obtain ⟨rfl, rfl⟩ := Prod.mk.inj heq
  exact hslot (by rw [Packet.slot, Packet.slot, hmsg.header_eq, hmsg'.header_eq])

/-- Removing one packet keeps the slots of the rest distinct. -/
theorem nodup_slots_erase {pre post : List Packet} {p : Packet}
    (h : ((pre ++ p :: post).map Packet.slot).Nodup) : ((pre ++ post).map Packet.slot).Nodup :=
  ((List.sublist_append_right [p] post |>.append_left pre).map Packet.slot).nodup h

/-- A delivery within the bounds returns the sender's key and keeps the invariant. -/
theorem Inv.deliver (hdh : L.DhLaws) {g : Ladder} {level : Role → Nat} {top : Nat} {σ : Link}
    (h : Inv L g level top σ) {r : Role} {secretKey : Bytes} {pre post : List Packet} {p : Packet}
    (hin : σ.inFlight r.peer = pre ++ p :: post)
    (hbounds : WithinSkipBounds (σ.state r) p.header)
    (hfresh : stepsDh (σ.state r) p.header = true → L.x25519Base secretKey ∉ σ.drawn) :
    ∃ s', (ratchetDecrypt L p.header secretKey).run (σ.state r) = .ok p.messageKey s' ∧
      ∃ g' level' top', Inv L g' level' top'
        { state := upd σ.state r s'
          inFlight := upd σ.inFlight r.peer (pre ++ post)
          drawn := if stepsDh (σ.state r) p.header then L.x25519Base secretKey :: σ.drawn
            else σ.drawn } := by
  have hread : ∀ q ∈ pre ++ p :: post, Readable L g (level r) (σ.state r) (level r.peer) q :=
    fun q hq => h.readable r q (hin ▸ hq)
  have hnodup : ((pre ++ p :: post).map Packet.slot).Nodup := hin ▸ h.distinct r.peer
  have hle' := h.le_top r.peer
  have hdistinct : ∀ q, ((upd σ.inFlight r.peer (pre ++ post) q).map Packet.slot).Nodup := by
    intro q
    rcases Role.eq_or_eq_peer r q with rfl | rfl
    · simpa using h.distinct q
    · simpa using nodup_slots_erase hnodup
  obtain ⟨c, N, hmsg, hc, hpend⟩ := hread p (by simp)
  obtain ⟨s', hrun, hcase⟩ := (h.standing r).receive L hdh h.linked (h.le_top r) (h.near r) hmsg
    (Nat.le_trans hc hle') hpend hbounds
    fun hsteps j hj heq => hfresh hsteps (heq ▸ h.drawn j hj)
  refine ⟨s', hrun, ?_⟩
  rcases hcase with ⟨hsteps, hrec⟩ | ⟨hsteps, htop, root, chain, hlinked', hrec⟩
  · -- no DH step: the ladder and both rungs stay
    refine ⟨g, level, top, h.linked, h.le_top, h.near, h.apart, ?_, ?_, ?_, hdistinct⟩
    · intro q
      rcases Role.eq_or_eq_peer r q with rfl | rfl
      · simpa using hrec.standing
      · simpa using h.standing r.peer
    · intro q
      rcases Role.eq_or_eq_peer r q with rfl | rfl
      · simpa using (hrec.mono L hle').readable L hmsg (fun _ _ _ _ hm => hm) hread hnodup
      · simpa using h.readable r.peer
    · simpa [hsteps] using h.drawn
  · -- a DH step: the receiver climbs past its peer
    have hpeer : level r.peer = level r + 1 := by
      have := h.near r.peer
      have := h.apart r
      omega
    have hnext := climb_neighbours hpeer
    refine ⟨g.extend (level r + 2) secretKey root chain, upd level r (level r + 2), level r + 2,
      hlinked', fun q => (hnext q).1, fun q => (hnext q).2.1, fun q => (hnext q).2.2, ?_, ?_, ?_, hdistinct⟩
    · intro q
      rcases Role.eq_or_eq_peer r q with rfl | rfl
      · simpa using hrec.standing
      · simpa using (h.standing r.peer).extend L (by omega)
    · intro q
      rcases Role.eq_or_eq_peer r q with rfl | rfl
      · simpa using (hrec.mono L hle').readable L hmsg
          (fun _ _ _ hle hm => hm.extend L (by omega)) hread hnodup
      · intro p' hp'
        simp only [upd_peer, upd_self, upd_peer_self, Role.peer_peer] at hp' ⊢
        have hold := h.readable r.peer p' (by rwa [Role.peer_peer])
        rw [Role.peer_peer] at hold
        obtain ⟨c', N', hm, hc', hp⟩ := hold.extend L secretKey root chain
          (show level r < level r + 2 by omega)
        exact ⟨c', N', hm, by omega, hp⟩
    · intro j hj
      simp only [hsteps, if_true]
      by_cases hjt : j = level r + 2
      · rw [hjt, Ladder.extend_pub_self]
        exact List.mem_cons_self
      · rw [Ladder.extend_pub_ne L hjt]
        exact List.mem_cons_of_mem _ (h.drawn j (by omega))

/-- Losing a packet keeps the invariant. -/
theorem Inv.lose {g : Ladder} {level : Role → Nat} {top : Nat} {σ : Link} (h : Inv L g level top σ)
    {r : Role} {pre post : List Packet} {p : Packet} (hin : σ.inFlight r = pre ++ p :: post) :
    Inv L g level top { σ with inFlight := upd σ.inFlight r (pre ++ post) } := by
  refine ⟨h.linked, h.le_top, h.near, h.apart, h.standing, ?_, h.drawn, ?_⟩
  · intro q p' hp'
    rcases Role.eq_or_eq_peer r q with rfl | rfl
    · simp only [upd_peer] at hp'
      exact h.readable q p' hp'
    · simp only [Role.peer_peer, upd_self] at hp'
      refine h.readable r.peer p' ?_
      rw [Role.peer_peer, hin, List.mem_append]
      exact (List.mem_append.mp hp').imp_right (List.mem_cons_of_mem p)
  · intro q
    rcases Role.eq_or_eq_peer r q with rfl | rfl
    · simpa using nodup_slots_erase (hin ▸ h.distinct q)
    · simpa using h.distinct r.peer

/-- The rungs of the set-up. -/
def initialLevel : Role → Nat
  | .initiator => 1
  | .responder => 2

/-- The set-up written out: the two agreements, and the states of the two parties. -/
theorem setup_states (hdh : L.DhLaws) {seed secI secR secR' : Bytes} {suite : RatchetRootSuite}
    {unprimed I R : RatchetState} (hunprimed : initRatchet L seed false none suite secR = .ok unprimed)
    (hI : initRatchet L seed true (some unprimed.dhSelfPub) suite secI = .ok I)
    (hprime : (primeResponderRatchet L I.dhSelfPub secR').run unprimed = .ok () R) :
    ∃ out out', L.x25519Scalarmult secI (L.x25519Base secR) = some out ∧
      L.x25519Scalarmult secR (L.x25519Base secI) = some out ∧
      L.x25519Scalarmult secR' (L.x25519Base secI) = some out' ∧
      unprimed = ⟨suite, seed, none, none, L.x25519Base secR, secR, none, 0, 0, 0, .empty⟩ ∧
      I = ⟨suite, (kdfRk L seed out).1, some (kdfRk L seed out).2, none, L.x25519Base secI, secI,
        some (L.x25519Base secR), 0, 0, 0, .empty⟩ ∧
      R = ⟨suite, (kdfRk L (kdfRk L seed out).1 out').1, some (kdfRk L (kdfRk L seed out).1 out').2,
        some (kdfRk L seed out).2, L.x25519Base secR', secR', some (L.x25519Base secI), 0, 0, 0, .empty⟩ := by
  obtain ⟨out, hout⟩ := Option.isSome_iff_exists.mp (hdh.defined secI secR)
  obtain ⟨out', hout'⟩ := Option.isSome_iff_exists.mp (hdh.defined secR' secI)
  have hcomm : L.x25519Scalarmult secR (L.x25519Base secI) = some out := by rw [hdh.commutes, hout]
  simp only [initRatchet, Bool.false_eq_true, if_false, Except.ok.injEq] at hunprimed
  subst hunprimed
  simp only [initRatchet, if_true, LibCrypto.x25519Dh, hout] at hI
  cases hI
  rw [primeResponderRatchet_run L (L.length_x25519Base secI) rfl,
    dhRatchet_run L _ _ secR' hcomm hout'] at hprime
  cases hprime
  exact ⟨out, out', hout, hcomm, hout', rfl, rfl, rfl⟩

/-- The set-up stands on rungs one and two. -/
theorem Initial.inv (hdh : L.DhLaws) {σ : Link} (h : Initial L σ) :
    ∃ g level top, Inv L g level top σ := by
  obtain ⟨seed, suite, secI, secR, secR', unprimed, hR, hI, hprime, hdrawn⟩ := h.setup
  have hdistinct := h.distinct
  rw [hdrawn] at hdistinct
  simp only [List.nodup_cons, List.mem_cons, List.not_mem_nil, or_false, not_or] at hdistinct
  obtain ⟨⟨hne1, hne2⟩, hne3, -⟩ := hdistinct
  obtain ⟨out, out', hout, -, hout', rfl, hI, hR⟩ := setup_states L hdh hR hI hprime
  -- the ladder with its first three rungs
  let g₀ : Ladder := ⟨fun _ => secR, fun _ => seed, fun _ => seed, fun _ => 0⟩
  have hlinked₀ : g₀.Linked L 0 :=
    ⟨fun j hj => by omega, fun i hi j hj _ => by omega, rfl, fun _ _ => rfl⟩
  have hlinked₁ := hlinked₀.extend L secI (kdfRk L seed out).1 (kdfRk L seed out).2 hdh
    (fun j hj => hne3) hout rfl
  have hlinked₂ := hlinked₁.extend L secR' (kdfRk L (kdfRk L seed out).1 out').1
    (kdfRk L (kdfRk L seed out).1 out').2 hdh
    (fun j hj => by
      by_cases hj1 : j = 1
      · rw [hj1, Ladder.extend_pub_self]
        exact hne1
      · rw [Ladder.extend_pub_ne L hj1]
        exact hne2)
    (by rw [Ladder.extend_pub_self]; exact hout') (by rw [Ladder.extend_root_self])
  refine ⟨_, initialLevel, 2, hlinked₂, ?_, ?_, ?_, ?_, ?_, ?_, ?_⟩
  · rintro (_ | _) <;> decide
  · rintro (_ | _) <;> decide
  · rintro (_ | _) <;> decide
  · rintro (_ | _)
    · rw [hI]
      exact
        { one_le := Nat.le_refl _
          self_sec := rfl
          self_pub := rfl
          remote := rfl
          root := rfl
          sending := rfl
          sent := rfl
          previous := rfl
          receiving := fun hk => absurd hk (by decide)
          first := fun _ => ⟨rfl, rfl⟩
          received := Nat.le_refl _
          stored := fun key mk hget => by cases hget }
    · rw [hR]
      exact
        { one_le := by decide
          self_sec := rfl
          self_pub := rfl
          remote := rfl
          root := rfl
          sending := rfl
          sent := rfl
          previous := rfl
          receiving := fun _ => rfl
          first := fun hk => absurd hk (by decide)
          received := Nat.le_refl _
          stored := fun key mk hget => by cases hget }
  · intro r p hp
    simp [h.noPackets] at hp
  · intro j hj
    rw [hdrawn]
    obtain rfl | rfl | rfl : j = 0 ∨ j = 1 ∨ j = 2 := by omega
    · exact List.mem_cons_of_mem _ (List.mem_cons_of_mem _ List.mem_cons_self)
    · exact List.mem_cons_of_mem _ List.mem_cons_self
    · exact List.mem_cons_self
  · intro r
    simp [h.noPackets]

/-- Key agreement: along every run, every delivery within the skip bounds returns
exactly the key `ratchetEncrypt` returned with that header. -/
theorem ratchetDecrypt_agrees (hdh : L.DhLaws) {σ₀ σ : Link} (hinit : Initial L σ₀)
    (hrun : Runs (Step L) σ₀ σ) {r : Role} {p : Packet} {secretKey : Bytes}
    (hp : p ∈ σ.inFlight r.peer) (hbounds : WithinSkipBounds (σ.state r) p.header)
    (hfresh : stepsDh (σ.state r) p.header = true → L.x25519Base secretKey ∉ σ.drawn) :
    ∃ s', (ratchetDecrypt L p.header secretKey).run (σ.state r) = .ok p.messageKey s' := by
  have hinv : ∃ g level top, Inv L g level top σ := by
    refine Runs.invariant (P := fun σ => ∃ g level top, Inv L g level top σ) ?_
      (hinit.inv L hdh) hrun
    rintro σ σ' ⟨g, level, top, h⟩ hstep
    cases hstep with
    | encrypt r hrun => exact ⟨_, _, _, h.encrypt L hrun⟩
    | deliver r secretKey hin hbounds hfresh =>
      obtain ⟨s', hrun, g', level', top', h'⟩ := h.deliver L hdh hin hbounds hfresh
      rw [hrun]
      exact ⟨g', level', top', h'⟩
    | lose r hin => exact ⟨_, _, _, h.lose L hin⟩
  obtain ⟨g, level, top, h⟩ := hinv
  obtain ⟨pre, post, hin⟩ := List.append_of_mem hp
  obtain ⟨s', hrun', -⟩ := h.deliver L hdh hin hbounds hfresh
  exact ⟨s', hrun'⟩

/-- A set-up over the transparent module: the initiator's secret is `1`, the
responder's are `2` and then `3`. -/
def sampleLink : Link :=
  let L := LibCrypto.transparent
  let first := kdfRk L (List.replicate 32 7)
    ((L.x25519Scalarmult [1] (L.x25519Base [2])).getD [])
  let second := kdfRk L first.1 ((L.x25519Scalarmult [3] (L.x25519Base [1])).getD [])
  { state := fun
      | .initiator =>
        ⟨.hybridMlkem768, first.1, some first.2, none, L.x25519Base [1], [1],
          some (L.x25519Base [2]), 0, 0, 0, OrdMap.empty⟩
      | .responder =>
        ⟨.hybridMlkem768, second.1, some second.2, some first.2, L.x25519Base [3], [3],
          some (L.x25519Base [1]), 0, 0, 0, OrdMap.empty⟩
    inFlight := fun _ => []
    drawn := [L.x25519Base [3], L.x25519Base [1], L.x25519Base [2]] }

theorem sampleLink_initial : Initial .transparent sampleLink :=
  ⟨⟨List.replicate 32 7, .hybridMlkem768, [1], [2], [3], _, rfl, rfl, rfl, rfl⟩, by decide, fun _ => rfl⟩

/-- A party sends, or reads the packet at a place with a secret at hand. -/
inductive Move
  | send (r : Role)
  | read (r : Role) (place : Nat) (secretKey : Bytes)

/-- The link after a move that can be made. -/
def Link.move (σ : Link) : Move → Option Link
  | .send r =>
    match (ratchetEncrypt L).run (σ.state r) with
    | .ok (messageKey, header) s => some { σ with
        state := upd σ.state r s
        inFlight := upd σ.inFlight r (σ.inFlight r ++ [⟨header, messageKey⟩]) }
    | .error _ _ => none
  | .read r place secretKey =>
    (σ.inFlight r.peer)[place]?.bind fun p =>
      if WithinSkipBounds (σ.state r) p.header ∧
          (stepsDh (σ.state r) p.header = true → L.x25519Base secretKey ∉ σ.drawn) then
        some {
          state := upd σ.state r (finalState ((ratchetDecrypt L p.header secretKey).run (σ.state r)))
          inFlight := upd σ.inFlight r.peer ((σ.inFlight r.peer).eraseIdx place)
          drawn := if stepsDh (σ.state r) p.header then L.x25519Base secretKey :: σ.drawn else σ.drawn }
      else none

theorem read_move {σ σ' : Link} {r : Role} {place : Nat} {secretKey : Bytes}
    (h : σ.move L (.read r place secretKey) = some σ') :
    ∃ p, (σ.inFlight r.peer)[place]? = some p ∧ WithinSkipBounds (σ.state r) p.header ∧
      (stepsDh (σ.state r) p.header = true → L.x25519Base secretKey ∉ σ.drawn) ∧
      σ' = {
        state := upd σ.state r (finalState ((ratchetDecrypt L p.header secretKey).run (σ.state r)))
        inFlight := upd σ.inFlight r.peer ((σ.inFlight r.peer).eraseIdx place)
        drawn := if stepsDh (σ.state r) p.header then L.x25519Base secretKey :: σ.drawn else σ.drawn } := by
  obtain ⟨p, hp, h⟩ := Option.bind_eq_some_iff.mp h
  obtain ⟨⟨hbounds, hfresh⟩, heq⟩ := Option.ite_none_right_eq_some.mp h
  exact ⟨p, hp, hbounds, hfresh, (Option.some.inj heq).symm⟩

theorem step_of_move {σ σ' : Link} {m : Move} (h : σ.move L m = some σ') : Step L σ σ' := by
  cases m with
  | send r =>
    simp only [Link.move] at h
    split at h
    case h_1 mk header s hrun =>
      cases h
      exact .encrypt σ r hrun
    case h_2 => cases h
  | read r place secretKey =>
    obtain ⟨p, hp, hbounds, hfresh, rfl⟩ := read_move L h
    obtain ⟨hlt, rfl⟩ := List.getElem?_eq_some_iff.mp hp
    rw [List.eraseIdx_eq_take_drop_succ]
    exact .deliver σ r secretKey (by rw [← List.drop_eq_getElem_cons hlt, List.take_append_drop]) hbounds hfresh

/-- The initiator sends three times, and the second arrives first. Each answers the other once, so both
take a DH step, and then the first arrives. -/
def sampleMoves : List Move :=
  [.send .initiator, .send .initiator, .send .initiator, .read .responder 1 [4], .send .responder,
    .read .initiator 0 [5], .send .initiator, .read .responder 2 [6], .read .responder 0 [7]]

/-- The third message is still on the way; the responder has skipped its key, and reads it. -/
theorem ratchetDecrypt_agrees_late_message :
    ∃ σ, Initial .transparent sampleLink ∧ Runs (Step .transparent) sampleLink σ ∧
      σ.drawn.length = 5 ∧ (σ.state .responder).skipped.size = 1 ∧ (σ.inFlight .initiator).length = 1 ∧
      ∀ p ∈ σ.inFlight .initiator, ∃ s', (ratchetDecrypt .transparent p.header [8]).run (σ.state .responder) =
        .ok p.messageKey s' := by
  obtain ⟨σ, hσ, hdrawn, hskipped, hlate, hready⟩ : ∃ σ ∈ sampleMoves.foldlM (Link.move .transparent) sampleLink,
      σ.drawn.length = 5 ∧ (σ.state .responder).skipped.size = 1 ∧ (σ.inFlight .initiator).length = 1 ∧
      ∀ p ∈ σ.inFlight .initiator, WithinSkipBounds (σ.state .responder) p.header ∧
        stepsDh (σ.state .responder) p.header = false := by decide +kernel
  have hrun : Runs (Step .transparent) sampleLink σ := by
    refine Runs.of_moves (fun m _ σ σ' h => ?_) hσ
    exact step_of_move .transparent h
  exact ⟨σ, sampleLink_initial, hrun, hdrawn, hskipped, hlate, fun p hp =>
    ratchetDecrypt_agrees .transparent LibCrypto.transparent_dhLaws sampleLink_initial hrun hp (hready p hp).1
      fun hsteps => absurd hsteps (by rw [(hready p hp).2]; decide)⟩

end RatchetAgreement

end P2Party
