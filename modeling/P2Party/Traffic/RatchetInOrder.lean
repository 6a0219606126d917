import P2Party.Cryptography.RatchetAgreement
import P2Party.Cryptography.RatchetTurns

/-!
# Double Ratchet over a channel that keeps order

Two parties run `ratchetEncrypt` and `ratchetDecrypt` against each other, and each of them gets
the other's messages in the order they were sent; the two directions are as far apart as they
like. What is under way to a party is then known from the counters: the rest of the chain it
reads, and the chain after its own. So no key is ever skipped, whatever the two have sent.

- `expected`: the messages a party still has to read;
- `InOrder`: what is under way is what is expected, and nothing is stored;
- `HasRead`: the messages a party is past;
- `InOrder.encrypt`, `InOrder.deliver`: one send and one receive;
- `ratchet_in_order`: along every run every message gives its reader the sender's key, and no
  skipped key is ever stored.
-/

namespace P2Party

open Base

namespace RatchetAgreement

/-! ## What is still to be read -/

/-- The messages a party on rung `k` that has read `Nr` of its chain still has to read: the rest
of that chain, and the chain after its own. -/
def expected (g : Ladder) (k Nr : Nat) : List (Nat × Nat) :=
  (List.range' Nr (g.sent (k - 1) - Nr)).map (Prod.mk (k - 1)) ++
    (List.range (g.sent (k + 1))).map (Prod.mk (k + 1))

section Expected

variable {g : Ladder} {k Nr : Nat}

/-- The chain a party reads goes on. -/
theorem expected_current (h : Nr < g.sent (k - 1)) :
    expected g k Nr = (k - 1, Nr) :: expected g k (Nr + 1) := by
  unfold expected
  obtain ⟨n, hn⟩ : ∃ n, g.sent (k - 1) - Nr = n + 1 := ⟨g.sent (k - 1) - Nr - 1, by omega⟩
  have hrest : g.sent (k - 1) - (Nr + 1) = n := by omega
  rw [hn, hrest, List.range'_succ]
  rfl

/-- It is read, and the next one has begun: its reader climbs past it. -/
theorem expected_next (hread : Nr = g.sent (k - 1)) (hbegun : 0 < g.sent (k + 1))
    (hlast : g.sent (k + 3) = 0) :
    expected g k Nr = (k + 1, 0) :: expected g (k + 2) 1 := by
  obtain ⟨n, hn⟩ : ∃ n, g.sent (k + 1) = n + 1 := ⟨g.sent (k + 1) - 1, by omega⟩
  have hsub : k + 2 - 1 = k + 1 := rfl
  have hadd : k + 2 + 1 = k + 3 := rfl
  unfold expected
  rw [hsub, hadd, hlast, hn, hread, Nat.sub_self, Nat.add_sub_cancel, List.range_eq_range',
    List.range'_succ]
  simp

/-- Both are read. -/
theorem expected_nil (hread : Nr = g.sent (k - 1)) (hnone : g.sent (k + 1) = 0) :
    expected g k Nr = [] := by
  unfold expected
  rw [hnone, hread, Nat.sub_self]
  rfl

/-- A party does not expect what it sends itself. -/
theorem expected_bump_self (h : 1 ≤ k) : expected (g.bump k) k Nr = expected g k Nr := by
  unfold expected
  rw [Ladder.bump_sent_ne (by omega), Ladder.bump_sent_ne (by omega)]

/-- One more message of the chain after its own. -/
theorem expected_bump_above :
    expected (g.bump (k + 1)) k Nr = expected g k Nr ++ [(k + 1, g.sent (k + 1))] := by
  unfold expected
  rw [Ladder.bump_sent_ne (by omega), Ladder.bump_sent_self, List.range_succ, List.map_append,
    List.append_assoc]
  rfl

/-- One more message of the chain it reads, while there is none after its own. -/
theorem expected_bump_below (hread : Nr ≤ g.sent (k - 1)) (hnone : g.sent (k + 1) = 0) :
    expected (g.bump (k - 1)) k Nr = expected g k Nr ++ [(k - 1, g.sent (k - 1))] := by
  have hmore : g.sent (k - 1) + 1 - Nr = (g.sent (k - 1) - Nr) + 1 := by omega
  have hindex : Nr + (g.sent (k - 1) - Nr) = g.sent (k - 1) := by omega
  unfold expected
  rw [Ladder.bump_sent_self, Ladder.bump_sent_ne (by omega), hnone, hmore, List.range'_concat,
    Nat.one_mul, hindex, List.map_append]
  simp

end Expected

variable (L : LibCrypto)

/-! ## Reading the next message -/

section Next

variable {g : Ladder} {k : Nat} {s : RatchetState} {p : Packet}

/-- Nothing is stored for any message. -/
theorem get_unskipped (hempty : s.skipped = .empty) (key : String) : s.skipped.get key = none := by
  rw [hempty]
  rfl

/-- A message of the chain a party reads takes no DH step. -/
theorem Standing.current_dh (h : Standing L g k s) {N : Nat} (hmsg : IsMessage L g p (k - 1) N) :
    s.isNewDh p.header = false := by
  rw [RatchetState.isNewDh, h.remote, hmsg.header_eq, bne_self_eq_false]

/-- A message of the chain after its own takes one. -/
theorem Standing.next_dh (h : Standing L g k s) (hlinked : g.Linked L (k + 1)) {N : Nat}
    (hmsg : IsMessage L g p (k + 1) N) : s.isNewDh p.header = true := by
  rw [RatchetState.isNewDh, h.remote, hmsg.header_eq, bne_iff_ne]
  intro heq
  have hindex := hlinked.pub_inj (k - 1) (by omega) (k + 1) (Nat.le_refl _) (Option.some.inj heq)
  have hone := h.one_le
  omega

/-- The next message of the chain a party reads. -/
theorem Standing.reads_current (h : Standing L g k s) (hempty : s.skipped = .empty)
    (hmsg : IsMessage L g p (k - 1) s.Nr) (secretKey : Bytes) :
    (ratchetDecrypt L p.header secretKey).run s = .ok p.messageKey { s with
      receivingChainKey := some (chainKeyAt L (g.chain (k - 1)) (s.Nr + 1))
      Nr := s.Nr + 1 } := by
  have hk : 2 ≤ k := by
    have hone := hmsg.one_le
    omega
  have hN : p.header.N = s.Nr := by rw [hmsg.header_eq]
  have hsize : s.skipped.size ≤ MAX_SKIP_SESSION := by
    rw [hempty]
    exact Nat.zero_le _
  rw [ratchetDecrypt_run_current L (get_unskipped hempty _) (h.current_dh L hmsg),
    receiveFromChain_next hN (h.receiving hk) hsize, hmsg.key_eq]
  rfl

/-- The first message of the chain after its own, when the one it reads is at its end. -/
theorem Standing.reads_next (hdh : L.DhLaws) (h : Standing L g k s)
    (hlinked : g.Linked L (k + 1)) (hempty : s.skipped = .empty) (hread : s.Nr = g.sent (k - 1))
    (hmsg : IsMessage L g p (k + 1) 0) (secretKey : Bytes) :
    ∃ s', (ratchetDecrypt L p.header secretKey).run s = .ok p.messageKey s' ∧
      s'.skipped = .empty ∧ s'.Nr = 1 ∧ s'.rootSuite = s.rootSuite := by
  have hheader := hmsg.header_eq
  have hpub : p.header.dhPub = g.pub L (k + 1) := by rw [hheader]
  have hN : p.header.N = 0 := by rw [hheader]
  have hPN : p.header.PN = s.Nr := by
    rw [hheader, hread]
    rfl
  have hsize : s.skipped.size ≤ MAX_SKIP_SESSION := by
    rw [hempty]
    exact Nat.zero_le _
  have hskip : (skipMessageKeys L p.header.PN).run s = .ok () s := by
    rw [hPN]
    exact skipMessageKeys_here hsize
  obtain ⟨out, hout, hkdf⟩ := hlinked.link k (Nat.lt_succ_self k)
  rw [← h.root] at hkdf
  obtain ⟨out', hout'⟩ := Option.isSome_iff_exists.mp (hdh.defined secretKey (g.sec (k + 1)))
  have hstep := dhRatchet_run L s p.header secretKey
    (by rw [hpub, h.self_sec]; exact hout) (by rw [hpub]; exact hout')
  simp only [hkdf] at hstep
  have hkey : (kdfCk L (g.chain (k + 1))).2 = p.messageKey := hmsg.key_eq.symm
  have hrun := ratchetDecrypt_run_newDh L (get_unskipped hempty _) (h.next_dh L hlinked hmsg) hskip hstep
  rw [receiveFromChain_next (by exact hN) rfl (by exact hsize), hkey] at hrun
  exact ⟨_, hrun, hempty, rfl, rfl⟩

end Next

/-! ## What a party is past -/

/-- A party on rung `k` is past message `N` of this DH key: its chain lies below the one it reads,
or it is that chain, read beyond `N`. -/
def HasRead (g : Ladder) (k : Nat) (s : RatchetState) (pub : Bytes) (N : Nat) : Prop :=
  ∃ c, pub = g.pub L c ∧ c ≤ k - 1 ∧ (c = k - 1 → N < s.Nr)

section HasRead

variable {g g' : Ladder} {k k' N : Nat} {s s' : RatchetState} {pub : Bytes}

/-- A party that reads on or climbs stays past what it was past. -/
theorem HasRead.mono (h : HasRead L g k s pub N) (hone : 1 ≤ k)
    (hpub : ∀ c ≤ k - 1, g'.pub L c = g.pub L c) (hon : (k' = k ∧ s.Nr ≤ s'.Nr) ∨ k < k') :
    HasRead L g' k' s' pub N := by
  obtain ⟨c, hc, hle, hlt⟩ := h
  refine ⟨c, hc.trans (hpub c hle).symm, ?_, ?_⟩
  · omega
  · intro hlast
    rcases hon with ⟨rfl, hNr⟩ | hup
    · exact Nat.lt_of_lt_of_le (hlt hlast) hNr
    · omega

/-- It is not past a message that is still expected. -/
theorem HasRead.not_expected (h : HasRead L g k s (g.pub L k') N) {top : Nat}
    (hlinked : g.Linked L top) (hone : 1 ≤ k) (hk : k ≤ top) (hk' : k' ≤ top)
    (hexpected : k' = k + 1 ∨ (k' = k - 1 ∧ s.Nr ≤ N)) : False := by
  obtain ⟨c, hc, hle, hlt⟩ := h
  have hsame := hlinked.pub_inj k' hk' c (by omega) hc
  rcases hexpected with hnext | ⟨hcurrent, hNr⟩
  · omega
  · exact absurd (hlt (by omega)) (Nat.not_lt.mpr hNr)

end HasRead

/-! ## The channel -/

/-- Party `r` sends a packet. -/
def Link.send (σ : Link) (r : Role) (p : Packet) (s : RatchetState) : Link :=
  { σ with
    state := upd σ.state r s
    inFlight := upd σ.inFlight r (σ.inFlight r ++ [p]) }

/-- Party `r` receives the oldest packet of its peer. -/
def Link.receive (σ : Link) (r : Role) (p : Packet) (rest : List Packet) (secretKey : Bytes)
    (s : RatchetState) : Link where
  state := upd σ.state r s
  inFlight := upd σ.inFlight r.peer rest
  drawn := if stepsDh (σ.state r) p.header then L.x25519Base secretKey :: σ.drawn else σ.drawn

/-- One step of the two parties and of a channel that loses nothing and keeps the order. A key pair
that a receive generates is new. -/
inductive InOrderStep : Link → Link → Prop
  | encrypt (σ : Link) (r : Role) {mk : Bytes} {header : RatchetHeader} {s : RatchetState}
      (hrun : (ratchetEncrypt L).run (σ.state r) = .ok (mk, header) s) :
      InOrderStep σ (σ.send r ⟨header, mk⟩ s)
  | deliver (σ : Link) (r : Role) (secretKey : Bytes) {p : Packet} {rest : List Packet}
      (hin : σ.inFlight r.peer = p :: rest)
      (hfresh : stepsDh (σ.state r) p.header = true → L.x25519Base secretKey ∉ σ.drawn) :
      InOrderStep σ (σ.receive L r p rest secretKey
        (finalState ((ratchetDecrypt L p.header secretKey).run (σ.state r))))

/-- Two parties on neighbouring rungs of one ladder. What is under way to each of them is what it
expects, in that order, and neither has stored a key. -/
structure InOrder (g : Ladder) (level : Role → Nat) (top : Nat) (σ : Link) : Prop where
  linked : g.Linked L top
  le_top : ∀ r, level r ≤ top
  near : ∀ r, top ≤ level r + 1
  apart : ∀ r, level r ≠ level r.peer
  standing : ∀ r, Standing L g (level r) (σ.state r)
  drawn : ∀ j ≤ top, g.pub L j ∈ σ.drawn
  unskipped : ∀ r, (σ.state r).skipped = .empty
  queue : ∀ r, List.Forall₂ (fun p m => IsMessage L g p m.1 m.2) (σ.inFlight r.peer)
    (expected g (level r) (σ.state r).Nr)

section InOrder

variable {g : Ladder} {level : Role → Nat} {top : Nat} {σ : Link} {r : Role}

/-- The set-up is in order: nothing has been sent. -/
theorem Initial.inOrder (hdh : L.DhLaws) (h : Initial L σ) :
    ∃ g level top, InOrder L g level top σ := by
  obtain ⟨g, level, top, hinv⟩ := h.inv L hdh
  have hfresh : ∀ r, (σ.state r).skipped = .empty ∧ (σ.state r).Ns = 0 ∧ (σ.state r).PN = 0 := by
    obtain ⟨seed, suite, secI, secR, secR', unprimed, hR, hI, hprime, -⟩ := h.setup
    obtain ⟨_, _, -, -, -, -, hI, hR⟩ := setup_states L hdh hR hI hprime
    intro r
    cases r with
    | initiator =>
      rw [hI]
      exact ⟨rfl, rfl, rfl⟩
    | responder =>
      rw [hR]
      exact ⟨rfl, rfl, rfl⟩
  refine ⟨g, level, top, hinv.linked, hinv.le_top, hinv.near, hinv.apart, hinv.standing, hinv.drawn,
    fun r => (hfresh r).1, fun r => ?_⟩
  have hlevel : level r.peer = level r + 1 ∨ level r.peer + 1 = level r := by
    have hnear := hinv.near r
    have hnear' := hinv.near r.peer
    have hle := hinv.le_top r
    have hle' := hinv.le_top r.peer
    have hapart := hinv.apart r
    omega
  have hst := hinv.standing r
  have hst' := hinv.standing r.peer
  -- neither of the two chains has a message yet
  have hchains : g.sent (level r - 1) = 0 ∧ g.sent (level r + 1) = 0 := by
    have hNs := hst'.sent
    have hPN := hst'.previous
    rw [(hfresh r.peer).2.1] at hNs
    rw [(hfresh r.peer).2.2] at hPN
    rcases hlevel with hup | hdown
    · rw [hup] at hNs hPN
      exact ⟨hPN.symm, hNs.symm⟩
    · have hnear := hinv.near r.peer
      have hbelow : level r - 1 = level r.peer := by omega
      exact ⟨by rw [hbelow, ← hNs], hinv.linked.sent_above _ (by omega)⟩
  have hread : (σ.state r).Nr = g.sent (level r - 1) := by
    have hle := hst.received
    rw [hchains.1] at hle ⊢
    exact Nat.le_zero.mp hle
  rw [h.noPackets, expected_nil hread hchains.2]
  exact List.Forall₂.nil

/-- The message a party sends is the last one its peer expects. -/
theorem InOrder.encrypt (h : InOrder L g level top σ) {mk : Bytes} {header : RatchetHeader}
    {s : RatchetState} (hrun : (ratchetEncrypt L).run (σ.state r) = .ok (mk, header) s) :
    InOrder L (g.bump (level r)) level top (σ.send r ⟨header, mk⟩ s) := by
  have hst := h.standing r
  have hst' := h.standing r.peer
  have hone := hst.one_le
  have hone' := hst'.one_le
  have hle := h.le_top r
  have hle' := h.le_top r.peer
  have hnear := h.near r
  have hnear' := h.near r.peer
  have hapart := h.apart r
  obtain ⟨hstood, hmsg⟩ := hst.encrypt L hrun
  have hkeeps : s.Nr = (σ.state r).Nr ∧ s.skipped = (σ.state r).skipped := by
    rw [ratchetEncrypt_run L hst.sending] at hrun
    obtain ⟨-, rfl⟩ := EStateM.Result.ok.inj hrun
    exact ⟨rfl, rfl⟩
  -- no message is old enough to count the chain of the new one as its previous one
  have hold : ∀ {p : Packet} {c N : Nat}, IsMessage L g p c N →
      IsMessage L (g.bump (level r)) p c N := by
    intro p c N hp
    have hc : c ≤ top := by
      by_contra habove
      have hlt := hp.sent_lt
      rw [h.linked.sent_above c (Nat.lt_of_not_le habove)] at hlt
      exact absurd hlt (Nat.not_lt_zero N)
    refine ⟨hp.one_le, ?_, hp.key_eq, Nat.lt_of_lt_of_le hp.sent_lt (Ladder.le_bump_sent g _ c)⟩
    rw [Ladder.bump_sent_ne (by omega)]
    exact hp.header_eq
  have hqueue : ∀ q, List.Forall₂ (fun p m => IsMessage L (g.bump (level r)) p m.1 m.2)
      (σ.inFlight q.peer) (expected g (level q) (σ.state q).Nr) := by
    intro q
    exact (h.queue q).imp fun p m hp => hold hp
  refine ⟨h.linked.bump L hone hle, h.le_top, h.near, h.apart, fun q => ?_, h.drawn, fun q => ?_,
    fun q => ?_⟩
  · rcases Role.eq_or_eq_peer r q with rfl | rfl
    · simpa [Link.send] using hstood
    · simpa [Link.send] using hst'.bump L hapart (by omega)
  · rcases Role.eq_or_eq_peer r q with rfl | rfl
    · simpa [Link.send, hkeeps.2] using h.unskipped q
    · simpa [Link.send] using h.unskipped r.peer
  · rcases Role.eq_or_eq_peer r q with rfl | rfl
    · -- to the sender, whose own chain nobody sends it
      simp only [Link.send, upd_self, upd_peer, hkeeps.1]
      rw [expected_bump_self hone]
      exact hqueue q
    · simp only [Link.send, upd_self, upd_peer, Role.peer_peer]
      have hlast : List.Forall₂ (fun p m => IsMessage L (g.bump (level r)) p m.1 m.2)
          (σ.inFlight r.peer.peer ++ [⟨header, mk⟩])
          (expected g (level r.peer) (σ.state r.peer).Nr ++ [(level r, g.sent (level r))]) :=
        List.rel_append (hqueue r.peer) (List.Forall₂.cons hmsg List.Forall₂.nil)
      rw [Role.peer_peer] at hlast
      rcases (by omega : level r = level r.peer + 1 ∨ level r = level r.peer - 1) with hup | hdown
      · rw [hup] at hlast ⊢
        rw [expected_bump_above]
        exact hlast
      · have hnone : g.sent (level r.peer + 1) = 0 := h.linked.sent_above _ (by omega)
        rw [hdown] at hlast ⊢
        rw [expected_bump_below hst'.received hnone]
        exact hlast

/-- What a receive in order leaves: the ratchets as they stand afterwards, and each party past
what it was past; the reader is past the message too. -/
def Delivered (g : Ladder) (level : Role → Nat) (σ : Link) (r : Role) (p : Packet) (σ' : Link) : Prop :=
  ∃ g' level' top', InOrder L g' level' top' σ' ∧
    (∀ q pub N, HasRead L g (level q) (σ.state q) pub N →
      HasRead L g' (level' q) (σ'.state q) pub N) ∧
    HasRead L g' (level' r) (σ'.state r) p.header.dhPub p.header.N

/-- The oldest message under way is the next one expected: the rest of the chain the party reads,
or the first of the chain after its own. -/
theorem InOrder.head (h : InOrder L g level top σ) {p : Packet} {rest : List Packet}
    (hin : σ.inFlight r.peer = p :: rest) :
    (IsMessage L g p (level r - 1) (σ.state r).Nr ∧ List.Forall₂ (fun p m => IsMessage L g p m.1 m.2)
      rest (expected g (level r) ((σ.state r).Nr + 1))) ∨
    ((σ.state r).Nr = g.sent (level r - 1) ∧ top = level r + 1 ∧ level r.peer = level r + 1 ∧
      IsMessage L g p (level r + 1) 0 ∧ List.Forall₂ (fun p m => IsMessage L g p m.1 m.2)
        rest (expected g (level r + 2) 1)) := by
  have hqueue := h.queue r
  rw [hin] at hqueue
  have hle := h.le_top r
  have hle' := h.le_top r.peer
  have hnear := h.near r
  have hnear' := h.near r.peer
  have hapart := h.apart r
  rcases Nat.lt_or_eq_of_le (h.standing r).received with hmore | hread
  · rw [expected_current hmore] at hqueue
    obtain ⟨hmsg, hrest⟩ := List.forall₂_cons.mp hqueue
    exact .inl ⟨hmsg, hrest⟩
  · rcases Nat.eq_zero_or_pos (g.sent (level r + 1)) with hnone | hbegun
    · rw [expected_nil hread hnone] at hqueue
      cases hqueue
    · have htop : level r + 1 ≤ top := by
        by_contra habove
        rw [h.linked.sent_above _ (Nat.lt_of_not_le habove)] at hbegun
        exact absurd hbegun (Nat.lt_irrefl 0)
      rw [expected_next hread hbegun (h.linked.sent_above _ (by omega))] at hqueue
      obtain ⟨hmsg, hrest⟩ := List.forall₂_cons.mp hqueue
      exact .inr ⟨hread, by omega, by omega, hmsg, hrest⟩

/-- The oldest message gives its reader the sender's key, and nothing is stored. -/
theorem InOrder.reads (hdh : L.DhLaws) (h : InOrder L g level top σ) {p : Packet}
    {rest : List Packet} (hin : σ.inFlight r.peer = p :: rest) (secretKey : Bytes) :
    ∃ s', (ratchetDecrypt L p.header secretKey).run (σ.state r) = .ok p.messageKey s' ∧
      s'.skipped = .empty ∧ s'.rootSuite = (σ.state r).rootSuite := by
  have hst := h.standing r
  have hempty := h.unskipped r
  rcases h.head L hin with ⟨hmsg, -⟩ | ⟨hread, htop, -, hmsg, -⟩
  · exact ⟨_, hst.reads_current L hempty hmsg secretKey, hempty, rfl⟩
  · obtain ⟨s', hrun, hskipped, -, hsuite⟩ :=
      hst.reads_next L hdh (htop ▸ h.linked) hempty hread hmsg secretKey
    exact ⟨s', hrun, hskipped, hsuite⟩

/-- Its reader was not past it. -/
theorem InOrder.not_read (h : InOrder L g level top σ) {p : Packet} {rest : List Packet}
    (hin : σ.inFlight r.peer = p :: rest) :
    ¬ HasRead L g (level r) (σ.state r) p.header.dhPub p.header.N := by
  have hone := (h.standing r).one_le
  have hle := h.le_top r
  intro hpast
  rcases h.head L hin with ⟨hmsg, -⟩ | ⟨-, htop, -, hmsg, -⟩
  · rw [hmsg.header_eq] at hpast
    exact hpast.not_expected L h.linked hone hle (by omega) (.inr ⟨rfl, Nat.le_refl _⟩)
  · rw [hmsg.header_eq] at hpast
    exact hpast.not_expected L h.linked hone hle (by omega) (.inl rfl)

/-- A receive in order. -/
theorem InOrder.deliver (hdh : L.DhLaws) (h : InOrder L g level top σ) {p : Packet}
    {rest : List Packet} {secretKey : Bytes} (hin : σ.inFlight r.peer = p :: rest)
    (hfresh : stepsDh (σ.state r) p.header = true → L.x25519Base secretKey ∉ σ.drawn) :
    ∃ s', (ratchetDecrypt L p.header secretKey).run (σ.state r) = .ok p.messageKey s' ∧
      Delivered L g level σ r p (σ.receive L r p rest secretKey s') := by
  have hst := h.standing r
  have hempty := h.unskipped r
  have hone := hst.one_le
  have hone' := (h.standing r.peer).one_le
  have hle := h.le_top r
  have hnear := h.near r
  rcases h.head L hin with ⟨hmsg, hrest⟩ | ⟨hread, htop, hpeer, hmsg, hrest⟩
  · -- the chain it reads
    have hsize : (σ.state r).skipped.size + ((σ.state r).Nr - (σ.state r).Nr) ≤ MAX_SKIP_SESSION := by
      rw [hempty, Nat.sub_self]
      exact Nat.zero_le _
    have hsteps : stepsDh (σ.state r) p.header = false := by
      rw [stepsDh, hst.current_dh L hmsg, Bool.and_false]
    have hreads := hst.reads_current L hempty hmsg secretKey
    obtain ⟨s', hrun, hreceived⟩ := hst.receive_current L h.linked hle hmsg (Nat.le_refl _)
      (Nat.le_add_right _ _) hsize
    have hsame : (ratchetDecrypt L p.header secretKey).run (σ.state r) = _ :=
      ratchetDecrypt_run_current L (get_unskipped hempty _) (hst.current_dh L hmsg)
    rw [← hsame, hreads] at hrun
    obtain ⟨-, rfl⟩ := EStateM.Result.ok.inj hrun
    refine ⟨_, hreads, g, level, top, ⟨h.linked, h.le_top, h.near, h.apart, fun q => ?_, ?_,
      fun q => ?_, fun q => ?_⟩, fun q pub N hpast => ?_, ?_⟩
    · rcases Role.eq_or_eq_peer r q with rfl | rfl
      · simpa [Link.receive] using hreceived.standing
      · simpa [Link.receive] using h.standing r.peer
    · simpa [Link.receive, hsteps] using h.drawn
    · rcases Role.eq_or_eq_peer r q with rfl | rfl
      · simpa [Link.receive] using hempty
      · simpa [Link.receive] using h.unskipped r.peer
    · rcases Role.eq_or_eq_peer r q with rfl | rfl
      · simpa [Link.receive] using hrest
      · simpa [Link.receive] using h.queue r.peer
    · rcases Role.eq_or_eq_peer r q with rfl | rfl
      · simp only [Link.receive, upd_self]
        exact hpast.mono L hone (fun _ _ => rfl) (.inl ⟨rfl, Nat.le_succ _⟩)
      · simpa [Link.receive] using hpast
    · simp only [Link.receive, upd_self]
      rw [hmsg.header_eq]
      exact ⟨level r - 1, rfl, Nat.le_refl _, fun _ => Nat.lt_succ_self _⟩
  · -- the chain after its own: the party climbs past its peer
    subst htop
    have hsteps : stepsDh (σ.state r) p.header = true := by
      rw [stepsDh, hst.next_dh L h.linked hmsg, get_unskipped hempty]
      rfl
    have hunseen : ∀ j ≤ level r + 1, L.x25519Base secretKey ≠ g.pub L j := by
      intro j hj hsame
      exact hfresh hsteps (hsame ▸ h.drawn j hj)
    obtain ⟨s', hreads, hskipped, hNr, -⟩ := hst.reads_next L hdh h.linked hempty hread hmsg secretKey
    obtain ⟨s'', root, chain, hrun, hlinked, hreceived⟩ := hst.receive_newDh L hdh h.linked hmsg
      (get_unskipped hempty _) (by rw [hread]; exact Nat.le_add_right _ _) (Nat.zero_le _)
      (by rw [hread, Nat.sub_self, hempty]; exact Nat.zero_le _) hunseen
    obtain ⟨-, rfl⟩ := EStateM.Result.ok.inj (hreads.symm.trans hrun)
    have hbefore : ∀ c ≤ level r + 1, (g.extend (level r + 2) secretKey root chain).pub L c = g.pub L c :=
      fun c hc => Ladder.extend_pub_ne L (by omega)
    have hnext := climb_neighbours hpeer
    refine ⟨_, hreads, g.extend (level r + 2) secretKey root chain, upd level r (level r + 2),
      level r + 2, ⟨hlinked, fun q => (hnext q).1, fun q => (hnext q).2.1, fun q => (hnext q).2.2, fun q => ?_,
      fun j hj => ?_, fun q => ?_, fun q => ?_⟩, fun q pub N hpast => ?_, ?_⟩
    · rcases Role.eq_or_eq_peer r q with rfl | rfl
      · simpa [Link.receive] using hreceived.standing
      · simpa [Link.receive] using (h.standing r.peer).extend L (by omega)
    · simp only [Link.receive, hsteps, if_true]
      by_cases hlast : j = level r + 2
      · rw [hlast, Ladder.extend_pub_self]
        exact List.mem_cons_self
      · rw [hbefore j (by omega)]
        exact List.mem_cons_of_mem _ (h.drawn j (by omega))
    · rcases Role.eq_or_eq_peer r q with rfl | rfl
      · simpa [Link.receive] using hskipped
      · simpa [Link.receive] using h.unskipped r.peer
    · -- every message under way is of a rung below the new one
      have hold : ∀ {p : Packet} {c N : Nat}, IsMessage L g p c N →
          IsMessage L (g.extend (level r + 2) secretKey root chain) p c N := by
        intro p c N hp
        refine hp.extend L ?_
        by_contra habove
        have hlt := hp.sent_lt
        rw [h.linked.sent_above c (by omega)] at hlt
        exact absurd hlt (Nat.not_lt_zero N)
      rcases Role.eq_or_eq_peer r q with rfl | rfl
      · simp only [Link.receive, upd_self, hNr]
        exact hrest.imp fun p m hp => hold hp
      · simp only [Link.receive, upd_peer, Role.peer_peer, upd_peer_self]
        have hqueue := h.queue r.peer
        rw [Role.peer_peer] at hqueue
        exact hqueue.imp fun p m hp => hold hp
    · rcases Role.eq_or_eq_peer r q with rfl | rfl
      · simp only [Link.receive, upd_self]
        exact hpast.mono L hone (fun c hc => hbefore c (by omega)) (.inr (by omega))
      · simp only [Link.receive, upd_peer]
        exact hpast.mono L hone' (fun c hc => hbefore c (by omega)) (.inl ⟨rfl, Nat.le_refl _⟩)
    · simp only [Link.receive, upd_self]
      rw [hmsg.header_eq]
      refine ⟨level r + 1, (hbefore _ (Nat.le_refl _)).symm, Nat.le_refl _, fun _ => ?_⟩
      rw [hNr]
      exact Nat.lt_succ_self 0

/-! ## Runs in order -/

/-- Every step keeps the order. -/
theorem InOrder.step (hdh : L.DhLaws) (h : InOrder L g level top σ) {σ' : Link}
    (hstep : InOrderStep L σ σ') : ∃ g level top, InOrder L g level top σ' := by
  cases hstep with
  | encrypt r hrun => exact ⟨_, _, _, h.encrypt L hrun⟩
  | deliver r secretKey hin hfresh =>
    obtain ⟨s', hrun, g', level', top', h', -⟩ := h.deliver L hdh hin hfresh
    rw [hrun]
    exact ⟨g', level', top', h'⟩

theorem inOrder_of_runs (hdh : L.DhLaws) {σ₀ : Link} (hinit : Initial L σ₀)
    (hrun : Runs (InOrderStep L) σ₀ σ) : ∃ g level top, InOrder L g level top σ := by
  refine Runs.invariant (P := fun σ => ∃ g level top, InOrder L g level top σ) ?_
    (hinit.inOrder L hdh) hrun
  rintro σ σ' ⟨g, level, top, h⟩ hstep
  exact h.step L hdh hstep

/-- Along every run in order, however far apart the two directions are: neither party ever has a
skipped key stored, and the oldest message to either of them gives it the key of the sender. -/
theorem ratchet_in_order (hdh : L.DhLaws) {σ₀ : Link} (hinit : Initial L σ₀)
    (hrun : Runs (InOrderStep L) σ₀ σ) (r : Role) :
    (σ.state r).skipped = .empty ∧
    ∀ (p : Packet) (rest : List Packet) (secretKey : Bytes), σ.inFlight r.peer = p :: rest →
      ∃ s', (ratchetDecrypt L p.header secretKey).run (σ.state r) = .ok p.messageKey s' ∧
        s'.skipped = .empty := by
  obtain ⟨g, level, top, h⟩ := inOrder_of_runs L hdh hinit hrun
  refine ⟨h.unskipped r, fun p rest secretKey hin => ?_⟩
  obtain ⟨s', hreads, hskipped, -⟩ := h.reads L hdh hin secretKey
  exact ⟨s', hreads, hskipped⟩

end InOrder

/-- A move that reads nothing but the oldest packet. -/
def Move.oldest : Move → Bool
  | .send _ => true
  | .read _ place _ => place == 0

theorem inOrder_of_move {σ σ' : Link} {m : Move} (hm : m.oldest = true) (h : σ.move L m = some σ') :
    InOrderStep L σ σ' := by
  cases m with
  | send r =>
    simp only [Link.move] at h
    split at h
    case h_1 mk header s hrun =>
      cases h
      exact .encrypt σ r hrun
    case h_2 => cases h
  | read r place secretKey =>
    obtain ⟨p, hp, -, hfresh, rfl⟩ := read_move L h
    obtain rfl : place = 0 := beq_iff_eq.mp hm
    cases hin : σ.inFlight r.peer with
    | nil =>
      rw [hin] at hp
      cases hp
    | cons q rest =>
      rw [hin] at hp
      cases hp
      exact .deliver σ r secretKey hin hfresh

/-- Both send before either reads, and each answers what it has read: every party takes DH steps. -/
def sampleOrder : List Move :=
  [.send .initiator, .send .responder, .send .initiator, .read .responder 0 [4], .read .initiator 0 [5],
    .send .initiator, .read .responder 0 [6], .read .responder 0 [7], .send .responder, .read .initiator 0 [8],
    .send .initiator]

/-- The last message of the initiator is read with the key it was sent with. -/
theorem ratchet_in_order_both_ways :
    ∃ σ p, Initial .transparent sampleLink ∧ Runs (InOrderStep .transparent) sampleLink σ ∧
      σ.drawn.length = 6 ∧ σ.inFlight .initiator = [p] ∧
      ∃ s', (ratchetDecrypt .transparent p.header [9]).run (σ.state .responder) =
        .ok p.messageKey s' ∧ s'.skipped = .empty := by
  obtain ⟨σ, hσ, hdrawn, hlast⟩ : ∃ σ ∈ sampleOrder.foldlM (Link.move .transparent) sampleLink,
      σ.drawn.length = 6 ∧ (σ.inFlight .initiator).length = 1 := by decide +kernel
  have hrun : Runs (InOrderStep .transparent) sampleLink σ := by
    have holdest : ∀ m ∈ sampleOrder, m.oldest = true := by decide
    refine Runs.of_moves (fun m hm σ σ' h => ?_) hσ
    exact inOrder_of_move .transparent (holdest m hm) h
  obtain ⟨p, hp⟩ := List.length_eq_one_iff.mp hlast
  exact ⟨σ, p, sampleLink_initial, hrun, hdrawn, hp,
    (ratchet_in_order .transparent LibCrypto.transparent_dhLaws sampleLink_initial hrun .responder).2 p [] [9] hp⟩

end RatchetAgreement

end P2Party
