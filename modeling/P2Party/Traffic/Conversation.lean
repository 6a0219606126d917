import P2Party.Traffic.RatchetInOrder
import P2Party.Traffic.Order
import P2Party.Session.HonestTraffic

/-!
# A conversation of two sessions

Two sessions of one edge talk over channels that keep the order. Each of them encrypts messages,
decrypts what arrives, offers to heal, answers what its peer sends and sends its pending frame
again, at any time and in any order; messages are not lost, frames of a healing exchange may be.
Then nothing that is said is lost, repeated or put out of order: what a session has heard is what
its peer has said up to what is still under way. A message never finds its reader in another
PQ epoch than its writer was in, and no skipped key is ever stored.

- `Talk`, `Step`, `Opened`: the two sessions with their channels, a call, the start;
- `Spells`: what is under way in terms of the healing protocol;
- `Invariant`: healing, ratchets and active keys together;
- `Invariant.healed`, `Invariant.sent`, `Invariant.received`: what a call leaves;
- `heard_in_order`: along every run the next message is heard as it was said.
-/

namespace P2Party

open Base PqHealing PqHealingRuntime HealingRefinement RatchetAgreement

namespace Session

namespace Conversation

/-! ## The system -/

/-- What a session puts on its channel. -/
inductive Item
  | message (a : Sent)
  | control (frame : Bytes)

/-- Two sessions, what each has put on its channel that has not arrived, oldest first, the
plaintexts each has encrypted and decrypted, and every DH public key so far. -/
structure Talk where
  session : Role → Session
  wire : Role → List Item
  said : Role → List Bytes
  heard : Role → List Bytes
  drawn : List Bytes

/-- Session `r` after a call: what is left on the channel to it, and what it sends. -/
def Talk.put (t : Talk) (r : Role) (s : Session) (incoming outgoing : List Item) : Talk :=
  { t with
    session := upd t.session r s
    wire := upd (upd t.wire r.peer incoming) r (t.wire r ++ outgoing) }

/-- The frame a healing call gives its caller to send. -/
def controls : EStateM.Result JsError Session SessionControlOutput → List Item
  | .ok output _ => output.frame.toList.map .control
  | .error _ _ => []

/-- Session `r` after a healing call. -/
def Talk.called (t : Talk) (r : Role) (incoming : List Item)
    (result : EStateM.Result JsError Session SessionControlOutput) : Talk :=
  t.put r (finalState result) incoming (controls result)

/-- What a call of `decrypt` returns, if it returns. -/
def plaintextOf : EStateM.Result JsError Session Bytes → List Bytes
  | .ok plaintext _ => [plaintext]
  | .error _ _ => []

/-- A call of session `r`. A plaintext is no longer than a buffer can be, its nonces are distinct,
and a DH key pair generated for a step is new. The counter of the reader is not at its end. -/
inductive Step (L : LibCrypto) : Talk → Talk → Prop
  | encrypt (t : Talk) (r : Role) {plaintext : Bytes} {ρ : EncryptRandomness}
      {message : EncryptedSessionMessage} {s : Session}
      (hsize : plaintext.length ≤ MAX_SAFE_INTEGER) (hnonces : NoncesDistinct plaintext ρ.nonce)
      (hrun : (Session.encrypt L plaintext ρ).run (t.session r) = .ok message s) :
      Step L t { t.put r s (t.wire r.peer) [.message ⟨t.session r, plaintext, ρ, message⟩] with
        said := upd t.said r (t.said r ++ [plaintext]) }
  | decrypt (t : Talk) (r : Role) {a : Sent} {rest : List Item} {frames : List Bytes}
      {secretKey : Nat → RandomBytes 32} (hin : t.wire r.peer = .message a :: rest)
      (hperm : frames.Perm a.message.frames) (hcount : (t.session r).CanCount)
      (hfresh : stepsDh (t.session r).state a.header = true →
        L.x25519Base (secretKey 0).val ∉ t.drawn) :
      Step L t { t.put r (finalState ((Session.decrypt L { a.message with frames } secretKey).run
          (t.session r))) rest [] with
        heard := upd t.heard r (t.heard r ++
          plaintextOf ((Session.decrypt L { a.message with frames } secretKey).run (t.session r)))
        drawn := if stepsDh (t.session r).state a.header then
          L.x25519Base (secretKey 0).val :: t.drawn else t.drawn }
  | prepareHealing (t : Talk) (r : Role) (coins : Bytes) (nonce : Nonce)
      (due now dispatched : Instant) :
      Step L t (t.called r (t.wire r.peer)
        ((Session.prepareHealing L coins nonce due now dispatched).run (t.session r)))
  | acceptControlFrame (t : Talk) (r : Role) {frame : Bytes} {rest : List Item} (coins : Bytes)
      (nonce : Nonce) (now dispatched : Instant) (hin : t.wire r.peer = .control frame :: rest) :
      Step L t (t.called r rest
        ((Session.acceptControlFrame L frame coins nonce now dispatched).run (t.session r)))
  | pendingControl (t : Talk) (r : Role) {frame : Bytes} {s : Session}
      (hrun : Session.pendingControl.run (t.session r) = .ok (some frame) s) :
      Step L t (t.put r s (t.wire r.peer) [.control frame])
  | lose (t : Talk) (r : Role) {before after : List Item} {frame : Bytes}
      (hin : t.wire r.peer = before ++ .control frame :: after) :
      Step L t (t.put r (t.session r) (before ++ after) [])

/-- The start: two created sessions of one handshake and one edge, before any call. -/
structure Opened (L : LibCrypto) (E : Edge) (root : Bytes) (t : Talk) : Prop where
  created : ∀ r, Created L (t.session r)
  ratchets : Initial L ⟨fun r => (t.session r).state, fun _ => [], t.drawn⟩
  runtimes : ∀ r, ∃ rootSuite now, SparsePqHealingState.new E.pqMode rootSuite E.binding root
    (if E.first = r then .local else .remote) (decide (r = .initiator)) now = .ok (t.session r).pq
  silent : ∀ r, t.wire r = [] ∧ t.said r = [] ∧ t.heard r = []

/-! ## What is under way -/

/-- The message key a message was sealed under. -/
def messageKeyOf (L : LibCrypto) (a : Sent) : Bytes :=
  (a.session.state.sendingChainKey.map fun chainKey => (kdfCk L chainKey).2).getD []

/-- An item as a packet of the ratchets. -/
def Item.packet (L : LibCrypto) : Item → Option Packet
  | .message a => some ⟨a.header, messageKeyOf L a⟩
  | .control _ => none

/-- An item's plaintext. -/
def Item.plaintext : Item → Option Bytes
  | .message a => some a.plaintext
  | .control _ => none

/-- The two ratchets and what is under way between them. -/
def Talk.link (L : LibCrypto) (t : Talk) : Link where
  state r := (t.session r).state
  inFlight r := (t.wire r).filterMap (Item.packet L)
  drawn := t.drawn

/-- The context of an epoch and its root on an edge. -/
def contextAt (E : Edge) (epoch : Nat) (root : Bytes) : PqMessageKeyContext where
  rootKey := root
  binding := E.binding
  rootSuite := roomPqModeToRootSuite E.pqMode
  epoch := epoch

variable {L : LibCrypto} {E : Edge}

/-- The context of a runtime is that of the party it stands for. -/
theorem context_of_abs {r : Role} {R : SparsePqHealingState} {x : EdgeParty} (h : Abs L E r R x) :
    R.currentMessageContext = contextAt E x.epoch x.root := by
  unfold SparsePqHealingState.currentMessageContext contextAt
  rw [h.wf.messageRoot_eq, h.root, h.binding, ← h.wf.rootSuite_eq, h.mode, h.epoch]

/-- What an item of party `q`, which stands for `x`, is in terms of the protocols: a message sealed
in the context of an epoch and its root, or a flight that the party has sent. -/
inductive Spells (L : LibCrypto) (E : Edge) (q : Role) (x : EdgeParty) :
    Item → Healing.Flight Bytes Bytes → Prop
  | message {a : Sent} {epoch : Nat} {root : Bytes} {cell : Nat → Bytes}
      (sealed : a.Sealed L (a.session.combined L (messageKeyOf L a)) cell)
      (context : a.session.pq.currentMessageContext = contextAt E epoch root)
      (key : (messageKeyOf L a).length = 32) (writer : a.session.WellFormed)
      (size : a.plaintext.length ≤ MAX_SAFE_INTEGER)
      (nonces : NoncesDistinct a.plaintext a.ρ.nonce) : Spells L E q x (.message a) (.traffic epoch root)
  | control {frame : Bytes} {m : EdgeMsg} (means : Means L E q frame m)
      (sent : Healing.Sent E.first q x m) : Spells L E q x (.control frame) (.control m)

/-- What an item says it still says after a step of its sender. -/
theorem Spells.step {q : Role} {x x' : EdgeParty} {item : Item} {flight : Healing.Flight Bytes Bytes}
    (h : Spells L E q x item flight) (hstep : x' = x ∨ Healing.LocalStep E.first q x x') :
    Spells L E q x' item flight := by
  cases h with
  | message sealed context key writer size nonces =>
    exact .message sealed context key writer size nonces
  | control means sent =>
    rcases hstep with rfl | hstep
    · exact .control means sent
    · exact .control means (sent.step hstep)

/-- The flights under way were sent. -/
theorem Spells.sent_of_mem {q : Role} {x : EdgeParty} {items : List Item}
    {flights : List (Healing.Flight Bytes Bytes)} {m : EdgeMsg}
    (h : List.Forall₂ (Spells L E q x) items flights) (hm : .control m ∈ flights) :
    Healing.Sent E.first q x m := by
  induction h with
  | nil => cases hm
  | cons hspell hrest ih =>
    rcases List.mem_cons.mp hm with rfl | hm
    · cases hspell with
      | control means sent => exact sent
    · exact ih hm

/-- The items on the channel from party `q` are the flights to a party at this epoch and root, in
order. -/
def Channel (L : LibCrypto) (E : Edge) (q : Role) (x y : EdgeParty) (items : List Item) : Prop :=
  ∃ flights, List.Forall₂ (Spells L E q x) items flights ∧
    Healing.Ordered y.epoch y.root flights

section Channel

variable {q : Role} {x x' y y' : EdgeParty} {items rest : List Item}

theorem Channel.nil : Channel L E q x y [] := ⟨[], List.Forall₂.nil, trivial⟩

/-- The sender takes a step. -/
theorem Channel.step (h : Channel L E q x y items)
    (hstep : x' = x ∨ Healing.LocalStep E.first q x x') : Channel L E q x' y items := by
  obtain ⟨flights, hspells, hordered⟩ := h
  exact ⟨flights, hspells.imp fun _ _ hspell => hspell.step hstep, hordered⟩

/-- The sender sends flights. -/
theorem Channel.controls (h : Channel L E q x y items) {frames : List Bytes}
    (hframes : ∀ frame ∈ frames, ∃ m, Means L E q frame m ∧ Healing.Sent E.first q x m) :
    Channel L E q x y (items ++ frames.map .control) := by
  induction frames generalizing items with
  | nil =>
    rw [List.map_nil, List.append_nil]
    exact h
  | cons frame frames ih =>
    obtain ⟨flights, hspells, hordered⟩ := h
    obtain ⟨m, hmeans, hsent⟩ := hframes frame List.mem_cons_self
    have hnew : Channel L E q x y (items ++ [.control frame]) :=
      ⟨flights ++ [.control m],
        List.rel_append hspells (List.Forall₂.cons (.control hmeans hsent) List.Forall₂.nil),
        hordered.snoc_control m⟩
    rw [List.map_cons, List.append_cons]
    exact ih hnew fun frame' hmem => hframes frame' (List.mem_cons_of_mem frame hmem)

/-- A flight is lost. -/
theorem Channel.lose {before after : List Item} {frame : Bytes}
    (h : Channel L E q x y (before ++ .control frame :: after)) :
    Channel L E q x y (before ++ after) := by
  obtain ⟨flights, hspells, hordered⟩ := h
  have hbefore := List.forall₂_take before.length hspells
  have hafter := List.forall₂_drop (before.length + 1) hspells
  rw [List.take_left] at hbefore
  rw [← List.drop_drop, List.drop_left, List.drop_succ_cons, List.drop_zero] at hafter
  refine ⟨flights.eraseIdx before.length, ?_, hordered.sublist (List.eraseIdx_sublist _ _)⟩
  rw [List.eraseIdx_eq_take_drop_succ]
  exact List.rel_append hbefore hafter

/-- An idle sender says a message in the context it is in. -/
theorem Channel.message (h : Channel L E q x y items) (hpair : Healing.Pair x y)
    (hidle : x.phase = .idle) {a : Sent}
    (hspells : Spells L E q x (.message a) (.traffic x.epoch x.root)) :
    Channel L E q x y (items ++ [.message a]) := by
  obtain ⟨flights, hall, hordered⟩ := h
  refine ⟨flights ++ [.traffic x.epoch x.root],
    List.rel_append hall (List.Forall₂.cons hspells List.Forall₂.nil), ?_⟩
  exact hordered.send hpair hidle fun m hm => Spells.sent_of_mem hall hm

end Channel

/-! ## The invariant -/

/-- The invariant: the healing runtimes stand for a `Pair`, the ratchets are in order, a session
holds active keys of messages it is past only, every channel is in order, and what was said is
what was heard and what is under way. -/
structure Invariant (L : LibCrypto) (E : Edge) (t : Talk) (g : Ladder) (level : Role → Nat) (top : Nat)
    (x : Role → EdgeParty) : Prop where
  wellFormed : ∀ r, (t.session r).WellFormed
  abs : ∀ r, Abs L E r (t.session r).pq (x r)
  pair : ∀ r, Healing.Pair (x r.peer) (x r)
  ratchets : InOrder L g level top (t.link L)
  keys : ∀ r name key, (t.session r).pq.activeReceiveKeys.get name = some key →
    ∃ pub N epoch, name = cacheKey pub N epoch ∧ HasRead L g (level r) (t.session r).state pub N
  channel : ∀ r, Channel L E r.peer (x r.peer) (x r) (t.wire r.peer)
  stream : ∀ r, t.said r.peer = t.heard r ++ (t.wire r.peer).filterMap Item.plaintext

variable {t : Talk} {g : Ladder} {level : Role → Nat} {top : Nat} {x : Role → EdgeParty} {r : Role}

/-- Frames are no packets of the ratchets. -/
theorem packets_controls (frames : List Bytes) :
    (frames.map Item.control).filterMap (Item.packet L) = [] := by
  induction frames with
  | nil => rfl
  | cons frame frames ih => exact ih

/-- And they say nothing. -/
theorem plaintexts_controls (frames : List Bytes) :
    (frames.map Item.control).filterMap Item.plaintext = [] := by
  induction frames with
  | nil => rfl
  | cons frame frames ih => exact ih

/-- What the ratchets see of a call. -/
theorem link_put {s : Session} {incoming outgoing : List Item} :
    (t.put r s incoming outgoing).link L =
      { state := upd (t.link L).state r s.state
        inFlight := upd (upd (t.link L).inFlight r.peer (incoming.filterMap (Item.packet L))) r
          ((t.link L).inFlight r ++ outgoing.filterMap (Item.packet L))
        drawn := t.drawn } := by
  unfold Talk.link Talk.put
  congr 1
  · funext q
    rcases Role.eq_or_eq_peer r q with rfl | rfl
    · simp
    · simp
  · funext q
    rcases Role.eq_or_eq_peer r q with rfl | rfl
    · simp
    · simp

/-- What the ratchets see of a message that is said. -/
theorem link_put_message {s : Session} {a : Sent} :
    (t.put r s (t.wire r.peer) [.message a]).link L =
      (t.link L).send r ⟨a.header, messageKeyOf L a⟩ s.state := by
  have hin : (t.wire r.peer).filterMap (Item.packet L) = (t.link L).inFlight r.peer := rfl
  rw [link_put, hin, upd_same]
  rfl

/-- What the ratchets see of a message that is heard. -/
theorem link_put_heard {s : Session} {a : Sent} {rest : List Item} {heard : Role → List Bytes}
    {secretKey : Bytes} :
    Talk.link L { t.put r s rest [] with
      heard := heard
      drawn := if stepsDh (t.session r).state a.header then L.x25519Base secretKey :: t.drawn
        else t.drawn } =
      (t.link L).receive L r ⟨a.header, messageKeyOf L a⟩ (rest.filterMap (Item.packet L)) secretKey
        s.state := by
  unfold Talk.link Talk.put Link.receive
  congr 1
  · funext q
    rcases Role.eq_or_eq_peer r q with rfl | rfl
    · simp
    · simp
  · funext q
    rcases Role.eq_or_eq_peer r q with rfl | rfl
    · simp
    · simp

/-- A call that leaves the ratchet and says nothing leaves the link as it was. -/
theorem link_put_eq {s : Session} {incoming : List Item} {frames : List Bytes}
    (hstate : s.state = (t.session r).state)
    (hpackets : incoming.filterMap (Item.packet L) = (t.wire r.peer).filterMap (Item.packet L)) :
    (t.put r s incoming (frames.map .control)).link L = t.link L := by
  have hs : s.state = (t.link L).state r := hstate
  have hin : incoming.filterMap (Item.packet L) = (t.link L).inFlight r.peer := hpackets
  rw [link_put, packets_controls, List.append_nil, hs, hin, upd_same, upd_same, upd_same]
  rfl

/-- A call that changes the healing runtime only: the runtime takes a step of the protocol or none,
and the frames it sends are flights of the party it stands for. -/
theorem Invariant.healed (h : Invariant L E t g level top x) {s : Session} {x' : EdgeParty}
    (hwf : s.WellFormed) (hstate : s.state = (t.session r).state)
    (hkeys : s.pq.activeReceiveKeys = (t.session r).pq.activeReceiveKeys) (habs : Abs L E r s.pq x')
    (hstep : x' = x r ∨ Healing.LocalStep E.first r (x r) x') (hpair : Healing.Pair (x r.peer) x')
    (frames : List Bytes)
    (hframes : ∀ frame ∈ frames, ∃ m, Means L E r frame m ∧ Healing.Sent E.first r x' m)
    {incoming : List Item} (hchannel : Channel L E r.peer (x r.peer) x' incoming)
    (hpackets : incoming.filterMap (Item.packet L) = (t.wire r.peer).filterMap (Item.packet L))
    (hplain : incoming.filterMap Item.plaintext = (t.wire r.peer).filterMap Item.plaintext) :
    Invariant L E (t.put r s incoming (frames.map .control)) g level top (upd x r x') := by
  have hout := h.channel r.peer
  have hsaid := h.stream r.peer
  rw [Role.peer_peer] at hout hsaid
  refine ⟨fun q => ?_, fun q => ?_, fun q => ?_, ?_, fun q => ?_, fun q => ?_, fun q => ?_⟩
  · rcases Role.eq_or_eq_peer r q with rfl | rfl
    · simpa [Talk.put] using hwf
    · simpa [Talk.put] using h.wellFormed r.peer
  · rcases Role.eq_or_eq_peer r q with rfl | rfl
    · simpa [Talk.put] using habs
    · simpa [Talk.put] using h.abs r.peer
  · rcases Role.eq_or_eq_peer r q with rfl | rfl
    · simpa using hpair
    · simpa using hpair.symm
  · rw [link_put_eq hstate hpackets]
    exact h.ratchets
  · rcases Role.eq_or_eq_peer r q with rfl | rfl
    · simp only [Talk.put, upd_self, hkeys, hstate]
      exact h.keys q
    · simp only [Talk.put, upd_peer]
      exact h.keys r.peer
  · rcases Role.eq_or_eq_peer r q with rfl | rfl
    · simpa [Talk.put] using hchannel
    · simp only [Talk.put, upd_self, upd_peer, Role.peer_peer]
      exact (hout.step hstep).controls hframes
  · rcases Role.eq_or_eq_peer r q with rfl | rfl
    · simp only [Talk.put, upd_peer, upd_self, hplain]
      exact h.stream q
    · simp only [Talk.put, upd_self, Role.peer_peer, List.filterMap_append, plaintexts_controls,
        List.append_nil]
      exact hsaid

/-- A call that changes nothing and sends frames sent before. -/
theorem Invariant.kept (h : Invariant L E t g level top x) (frames : List Bytes)
    (hframes : ∀ frame ∈ frames, ∃ m, Means L E r frame m ∧ Healing.Sent E.first r (x r) m)
    {incoming : List Item} (hchannel : Channel L E r.peer (x r.peer) (x r) incoming)
    (hpackets : incoming.filterMap (Item.packet L) = (t.wire r.peer).filterMap (Item.packet L))
    (hplain : incoming.filterMap Item.plaintext = (t.wire r.peer).filterMap Item.plaintext) :
    Invariant L E (t.put r (t.session r) incoming (frames.map .control)) g level top x := by
  have hsame := h.healed (h.wellFormed r) rfl rfl (h.abs r) (.inl rfl) (h.pair r) frames hframes
    hchannel hpackets hplain
  rwa [upd_same] at hsame

theorem Invariant.prepareHealing (h : Invariant L E t g level top x) (coins : Bytes) (nonce : Nonce)
    (due now dispatched : Instant) :
    ∃ x', Invariant L E (t.called r (t.wire r.peer)
      ((Session.prepareHealing L coins nonce due now dispatched).run (t.session r))) g level top x' := by
  have hwf := h.wellFormed r
  have hkept := prepareHealing_kept (L := L) hwf coins nonce due now dispatched
  have hnone : ∀ frame ∈ ([] : List Bytes), ∃ m, Means L E r frame m ∧ Healing.Sent E.first r (x r) m :=
    fun frame hmem => absurd hmem List.not_mem_nil
  unfold Talk.called
  rcases prepareHealing_cases (L := L) hwf coins nonce due now dispatched with
    ⟨e, herr⟩ | hidle | ⟨pk, sk, ho, hrun⟩
  · rw [herr]
    exact ⟨x, h.kept [] hnone (h.channel r) rfl rfl⟩
  · rw [hidle]
    exact ⟨x, h.kept [] hnone (h.channel r) rfl rfl⟩
  · rw [hrun] at hkept ⊢
    have hsafe : now.val ≤ MAX_SAFE_INTEGER := Nat.le_trans now.property (by decide)
    obtain ⟨o, hphase, hturn, habs, hmeans⟩ := (h.abs r).offer ho hsafe
    refine ⟨upd x r ((x r).withPhase (.offering o)), h.healed hkept.1 rfl rfl
      (habs.dispatched rfl (Nat.succ_pos _) dispatched.property) (.inr (.offer o hphase hturn))
      ((h.pair r).offer hphase o) [_] ?_ (h.channel r) rfl rfl⟩
    intro frame hmem
    rw [List.mem_singleton.mp hmem]
    exact ⟨_, hmeans, Healing.sent_offer hturn⟩

section Accept

variable {R R' : SparsePqHealingState} {y : EdgeParty} {frame coins : Bytes} {nonce : Nonce} {now : Nat}
  {result : PqHealingControlResult}

/-- The runtime an accepted frame leaves stands for the same party, dispatched or not, and holds
the same active keys. -/
theorem abs_entered (habs : Abs L E r R' y) (ha : Accepted L R frame coins nonce now result R')
    (dispatched : Instant) :
    Abs L E r (PqHealingOrchestrator.SparsePqHealingState.entered R' result dispatched.val) y ∧
      (PqHealingOrchestrator.SparsePqHealingState.entered R' result dispatched.val).activeReceiveKeys =
        R.activeReceiveKeys := by
  cases ha with
  | repeatedOffer => exact ⟨habs, rfl⟩
  | repeatedAdvance => exact ⟨habs, rfl⟩
  | acknowledgement => exact ⟨habs, rfl⟩
  | offer => exact ⟨habs.dispatched rfl (Nat.succ_pos _) dispatched.property, rfl⟩
  | advance => exact ⟨habs, rfl⟩

end Accept

/-- The frame at the head of a channel is refused, answered with one sent before, or received. -/
theorem Invariant.acceptControlFrame (hA : L.AeadLaws) (hK : L.KemLaws)
    (h : Invariant L E t g level top x) {frame : Bytes} {rest : List Item}
    (hin : t.wire r.peer = .control frame :: rest) (coins : Bytes) (nonce : Nonce)
    (now dispatched : Instant) :
    ∃ x', Invariant L E (t.called r rest
      ((Session.acceptControlFrame L frame coins nonce now dispatched).run (t.session r)))
      g level top x' := by
  have hwf := h.wellFormed r
  have hpackets : rest.filterMap (Item.packet L) = (t.wire r.peer).filterMap (Item.packet L) := by
    rw [hin]
    rfl
  have hplain : rest.filterMap Item.plaintext = (t.wire r.peer).filterMap Item.plaintext := by
    rw [hin]
    rfl
  -- the flight the frame is, and the rest of the channel
  obtain ⟨flights, hspells, hordered⟩ := h.channel r
  rw [hin] at hspells
  obtain ⟨flight, others, hfirst, hothers, rfl⟩ := List.forall₂_cons_left_iff.mp hspells
  cases hfirst with
  | @control _ m hmeans hsent =>
    have hroot : m.epoch = (x r).epoch → m.root = (x r).root := (h.pair r).root_of_sent hsent
    have hrest : Channel L E r.peer (x r.peer) (x r) rest := ⟨others, hothers, hordered.2⟩
    have houtcome := (h.abs r).accept hA hK hmeans hroot coins nonce now.val
    have hkept := acceptControlFrame_kept (L := L) hwf frame coins nonce now dispatched
    unfold Talk.called
    rcases Session.acceptControlFrame_cases (L := L) hwf frame coins nonce now dispatched with
      ⟨e, R, hrefused, herr⟩ | ⟨result, R, haccepted, hrun⟩
    · rw [herr]
      cases hrefused with
      | unchanged =>
        exact ⟨x, h.kept [] (fun frame hmem => absurd hmem List.not_mem_nil) hrest hpackets hplain⟩
      | stuck fresh accepts encaps =>
        exact absurd encaps (not_stuck hA hK (h.abs r) hmeans hroot fresh accepts)
    · rw [hrun] at hkept ⊢
      rw [acceptControlFrame_run hwf.runtime haccepted] at houtcome
      cases houtcome with
      | repeated means sent =>
        refine ⟨x, h.kept [_] ?_ hrest hpackets hplain⟩
        intro frame hmem
        rw [List.mem_singleton.mp hmem]
        exact ⟨_, means, sent⟩
      | @received dispatch _ x' receives abs sends =>
        obtain ⟨habs, hkeys⟩ := abs_entered abs haccepted dispatched
        have hpair := (h.pair r).receive hsent receives
        refine ⟨upd x r x', h.healed hkept.1 rfl hkeys habs
          (.inr receives.localStep) hpair dispatch.toList ?_ ⟨others, hothers, hordered.receive receives⟩ hpackets
          hplain⟩
        intro frame hmem
        exact sends frame (Option.mem_toList.mp hmem)

/-- The pending frame is one the party has sent. -/
theorem Invariant.pendingControl (h : Invariant L E t g level top x) {frame : Bytes} {s : Session}
    (hrun : Session.pendingControl.run (t.session r) = .ok (some frame) s) :
    Invariant L E (t.put r s (t.wire r.peer) [.control frame]) g level top x := by
  rw [pendingControl_run (h.wellFormed r)] at hrun
  obtain ⟨hpending, rfl⟩ := EStateM.Result.ok.inj hrun
  obtain ⟨outbox, houtbox, rfl⟩ := Option.map_eq_some_iff.mp hpending
  refine h.kept [_] ?_ (h.channel r) rfl rfl
  intro frame hmem
  rw [List.mem_singleton.mp hmem]
  exact (h.abs r).pending houtbox

/-- A frame of a healing exchange is lost. -/
theorem Invariant.lose (h : Invariant L E t g level top x) {before after : List Item} {frame : Bytes}
    (hin : t.wire r.peer = before ++ .control frame :: after) :
    Invariant L E (t.put r (t.session r) (before ++ after) []) g level top x := by
  refine h.kept [] (fun frame hmem => absurd hmem List.not_mem_nil) ?_ ?_ ?_
  · have hchannel := h.channel r
    rw [hin] at hchannel
    exact hchannel.lose
  · rw [hin, List.filterMap_append, List.filterMap_append]
    rfl
  · rw [hin, List.filterMap_append, List.filterMap_append]
    rfl

/-! ## Traffic -/

/-- A step of the writer gives the key and the header of its next packet. -/
theorem ratchetEncrypt_of_sent {s : RatchetState} {next : RatchetState} {messageKey : Bytes}
    (h : RatchetSent L s next messageKey) :
    (ratchetEncrypt L).run s = .ok (messageKey, s.header) next := by
  obtain ⟨chainKey, hchain, rfl, rfl⟩ := h.step
  exact ratchetEncrypt_run L hchain

/-- What an encryption that returned did. -/
theorem encrypt_returned {s s' : Session} {plaintext : Bytes} {ρ : EncryptRandomness}
    {message : EncryptedSessionMessage} (h : s.WellFormed) (hsize : plaintext.length ≤ MAX_SAFE_INTEGER)
    (hrun : (Session.encrypt L plaintext ρ).run s = .ok message s') :
    ∃ next cell, s.pq.trafficBlocked = false ∧ s.CanCount ∧
      RatchetSent L s.state next (messageKeyOf L ⟨s, plaintext, ρ, message⟩) ∧
      Sent.Sealed L ⟨s, plaintext, ρ, message⟩
        (s.combined L (messageKeyOf L ⟨s, plaintext, ρ, message⟩)) cell ∧
      s' = s.adopted next s.pq.activeReceiveKeys := by
  rcases encrypt_cases (L := L) s plaintext ρ with
    ⟨e, herr⟩ | ⟨hlive, hfree, hchain, message', next, hseal⟩
  · rw [herr] at hrun
    cases hrun
  · rw [encrypt_run hlive hfree hchain hseal] at hrun
    by_cases hcount : s.pq.messagesSinceHealing < MAX_SAFE_INTEGER
    · rw [if_pos hcount] at hrun
      obtain ⟨rfl, rfl⟩ := EStateM.Result.ok.inj hrun
      obtain ⟨messageKey, cell, hsent, hsealed⟩ := sealMessage_sealed h hsize hseal
      have hkey : messageKey = messageKeyOf L ⟨s, plaintext, ρ, message'⟩ := by
        obtain ⟨chainKey, hsending, rfl, -⟩ := hsent.step
        unfold messageKeyOf
        rw [hsending]
        rfl
      subst hkey
      exact ⟨next, cell, hfree, hcount, hsent, hsealed, rfl⟩
    · rw [if_neg hcount] at hrun
      cases hrun

/-- A message that is said joins the end of its channel: its writer is idle, so it is of its
reader's epoch and behind no flight that moves the reader on. -/
theorem Invariant.sent (h : Invariant L E t g level top x) {plaintext : Bytes} {ρ : EncryptRandomness}
    {message : EncryptedSessionMessage} {s : Session} (hsize : plaintext.length ≤ MAX_SAFE_INTEGER)
    (hnonces : NoncesDistinct plaintext ρ.nonce)
    (hrun : (Session.encrypt L plaintext ρ).run (t.session r) = .ok message s) :
    Invariant L E { t.put r s (t.wire r.peer) [.message ⟨t.session r, plaintext, ρ, message⟩] with
      said := upd t.said r (t.said r ++ [plaintext]) } (g.bump (level r)) level top x := by
  have hwf := h.wellFormed r
  have hkept := encrypt_kept (L := L) hwf plaintext ρ
  rw [hrun] at hkept
  obtain ⟨next, cell, hfree, hcount, hsent, hsealed, rfl⟩ := encrypt_returned hwf hsize hrun
  obtain ⟨chainKey, hsending, hkey, rfl⟩ := hsent.step
  have hpast : ∀ q (s' : RatchetState) pub N, s'.Nr = (t.session q).state.Nr →
      HasRead L g (level q) (t.session q).state pub N →
      HasRead L (g.bump (level r)) (level q) s' pub N := by
    intro q s' pub N hNr hread
    exact hread.mono L (h.ratchets.standing q).one_le (fun _ _ => rfl) (.inl ⟨rfl, Nat.le_of_eq hNr.symm⟩)
  refine ⟨fun q => ?_, fun q => ?_, h.pair, ?_, fun q name key hget => ?_, fun q => ?_, fun q => ?_⟩
  · rcases Role.eq_or_eq_peer r q with rfl | rfl
    · simpa [Talk.put] using hkept.1
    · simpa [Talk.put] using h.wellFormed r.peer
  · rcases Role.eq_or_eq_peer r q with rfl | rfl
    · simp only [Talk.put, upd_self]
      exact (h.abs q).traffic _ hcount
    · simpa [Talk.put] using h.abs r.peer
  · have hnext := h.ratchets.encrypt L (ratchetEncrypt_of_sent hsent)
    exact link_put_message (L := L) ▸ hnext
  · rcases Role.eq_or_eq_peer r q with rfl | rfl
    · simp only [Talk.put, upd_self] at hget ⊢
      obtain ⟨pub, N, epoch, hname, hread⟩ := h.keys q name key hget
      exact ⟨pub, N, epoch, hname, hpast q _ pub N rfl hread⟩
    · simp only [Talk.put, upd_peer] at hget ⊢
      obtain ⟨pub, N, epoch, hname, hread⟩ := h.keys r.peer name key hget
      exact ⟨pub, N, epoch, hname, hpast r.peer _ pub N rfl hread⟩
  · rcases Role.eq_or_eq_peer r q with rfl | rfl
    · simpa [Talk.put] using h.channel q
    · have hout := h.channel r.peer
      have hpair := h.pair r.peer
      rw [Role.peer_peer] at hout hpair
      simp only [Talk.put, upd_self, Role.peer_peer]
      have hphase : (t.session r).pq.machine.phase = .idle := by
        simpa [SparsePqHealingState.trafficBlocked, Machine.trafficBlocked] using hfree
      have hlength : (messageKeyOf L ⟨t.session r, plaintext, ρ, message⟩).length = 32 := by
        rw [hkey]
        exact (length_kdfCk chainKey).2
      exact hout.message hpair ((h.abs r).phase_idle hphase)
        (.message hsealed (context_of_abs (h.abs r)) hlength hwf hsize hnonces)
  · have hsaid := h.stream r.peer
    rw [Role.peer_peer] at hsaid
    rcases Role.eq_or_eq_peer r q with rfl | rfl
    · simpa [Talk.put] using h.stream q
    · simp only [Talk.put, upd_self, Role.peer_peer, List.filterMap_append]
      rw [hsaid, List.append_assoc]
      rfl

/-- The name of a message's active key. -/
def activeName (a : Sent) : String := cacheKey a.header.dhPub a.header.N a.session.epoch

/-- The session that has heard a message. -/
def heardBy (L : LibCrypto) (s : Session) (a : Sent) (reader : RatchetState) : Session :=
  s.adopted reader (adoptActiveReceiveKeys s.pq.activeReceiveKeys
    (s.pq.activeReceiveKeys.set (activeName a) (a.session.combined L (messageKeyOf L a))))

/-- The next message was sealed in the context its reader is in. -/
theorem Invariant.context (h : Invariant L E t g level top x) {a : Sent} {rest : List Item}
    (hin : t.wire r.peer = .message a :: rest) :
    a.session.pq.currentMessageContext = (t.session r).pq.currentMessageContext := by
  obtain ⟨flights, hspells, hordered⟩ := h.channel r
  rw [hin] at hspells
  obtain ⟨flight, others, hfirst, -, rfl⟩ := List.forall₂_cons_left_iff.mp hspells
  cases hfirst with
  | message sealed context key writer size nonces =>
    obtain ⟨⟨rfl, rfl⟩, -⟩ := hordered
    exact context.trans (context_of_abs (h.abs r)).symm

/-- What the ratchets see of it. -/
theorem packet_of_message {a : Sent} {rest : List Item} (hin : t.wire r.peer = .message a :: rest) :
    (t.link L).inFlight r.peer = ⟨a.header, messageKeyOf L a⟩ :: rest.filterMap (Item.packet L) := by
  show (t.wire r.peer).filterMap (Item.packet L) = _
  rw [hin]
  rfl

/-- It is heard: its ratchet key is the one its reader derives, and no active key of its name is
there yet. -/
theorem Invariant.hears (hA : L.AeadLaws) (hdh : L.DhLaws) (h : Invariant L E t g level top x)
    {a : Sent} {rest : List Item} (hin : t.wire r.peer = .message a :: rest) {frames : List Bytes}
    (hperm : frames.Perm a.message.frames) (secretKey : Nat → RandomBytes 32)
    (hcount : (t.session r).CanCount) :
    ∃ reader, (ratchetDecrypt L a.header (secretKey 0).val).run (t.session r).state =
        .ok (messageKeyOf L a) reader ∧
      (Session.decrypt L { a.message with frames } secretKey).run (t.session r) =
        .ok a.plaintext (heardBy L (t.session r) a reader) := by
  have hwf := h.wellFormed r
  have hcontext := h.context hin
  have hpacket := packet_of_message (L := L) hin
  have hroom : (t.session r).pq.messagesSinceHealing < MAX_SAFE_INTEGER := hcount
  have hunread : (t.session r).pq.activeReceiveKeys.get (activeName a) = none := by
    cases hget : (t.session r).pq.activeReceiveKeys.get (activeName a) with
    | none => rfl
    | some held =>
      obtain ⟨pub, N, epoch, hname, hpast⟩ := h.keys r _ _ hget
      obtain ⟨rfl, rfl, -⟩ := cacheKey_inj.mp hname
      exact absurd hpast (h.ratchets.not_read L hpacket)
  obtain ⟨reader, hread, -, hsuite⟩ := h.ratchets.reads L hdh hpacket (secretKey 0).val
  obtain ⟨flights, hspells, -⟩ := h.channel r
  rw [hin] at hspells
  obtain ⟨flight, others, hfirst, -, rfl⟩ := List.forall₂_cons_left_iff.mp hspells
  cases hfirst with
  | message sealed context key writer size nonces =>
    have hcombine := combine_eq (L := L) writer sealed.fits key
    rw [hcontext] at hcombine
    have hepoch : a.session.epoch = (t.session r).epoch := congrArg PqMessageKeyContext.epoch hcontext
    have hopen := sealed.opens hA hwf size nonces hepoch hunread hsuite hread hcombine hperm
    have hdecrypt := decrypt_run (sealed.checks hperm) hwf.live hopen
    rw [if_pos hroom] at hdecrypt
    exact ⟨reader, hread, hdecrypt⟩

/-- A message that is heard. -/
theorem Invariant.received (hA : L.AeadLaws) (hdh : L.DhLaws) (h : Invariant L E t g level top x)
    {a : Sent} {rest : List Item} (hin : t.wire r.peer = .message a :: rest) {frames : List Bytes}
    (hperm : frames.Perm a.message.frames) {secretKey : Nat → RandomBytes 32}
    (hcount : (t.session r).CanCount)
    (hfresh : stepsDh (t.session r).state a.header = true →
      L.x25519Base (secretKey 0).val ∉ t.drawn) :
    ∃ g' level' top', Invariant L E { t.put r (finalState
        ((Session.decrypt L { a.message with frames } secretKey).run (t.session r))) rest [] with
      heard := upd t.heard r (t.heard r ++
        plaintextOf ((Session.decrypt L { a.message with frames } secretKey).run (t.session r)))
      drawn := if stepsDh (t.session r).state a.header then
        L.x25519Base (secretKey 0).val :: t.drawn else t.drawn } g' level' top' x := by
  have hwf := h.wellFormed r
  have hkept := decrypt_kept (L := L) hwf { a.message with frames } secretKey
  have hpacket := packet_of_message (L := L) hin
  obtain ⟨reader, hread, hrun⟩ := h.hears hA hdh hin hperm secretKey hcount
  rw [hrun] at hkept ⊢
  obtain ⟨reader', hread', g', level', top', hinOrder, hpast, hnew⟩ :=
    h.ratchets.deliver L hdh hpacket hfresh
  obtain ⟨-, rfl⟩ := EStateM.Result.ok.inj (hread.symm.trans hread')
  refine ⟨g', level', top', fun q => ?_, fun q => ?_, h.pair, ?_, fun q name key hget => ?_,
    fun q => ?_, fun q => ?_⟩
  · rcases Role.eq_or_eq_peer r q with rfl | rfl
    · simpa [Talk.put] using hkept.1
    · simpa [Talk.put] using h.wellFormed r.peer
  · rcases Role.eq_or_eq_peer r q with rfl | rfl
    · simp only [Talk.put, upd_self]
      exact (h.abs q).traffic _ hcount
    · simpa [Talk.put] using h.abs r.peer
  · rw [link_put_heard]
    exact hinOrder
  · rcases Role.eq_or_eq_peer r q with rfl | rfl
    · have hpast := hpast q
      simp only [Link.receive, upd_self] at hpast hnew
      simp only [Talk.put, upd_self] at hget ⊢
      -- an old key, or the key of the message
      have hold : (t.session q).pq.activeReceiveKeys.get name = some key ∨ name = activeName a := by
        by_cases hname : name = activeName a
        · exact .inr hname
        · have hget : (adoptActiveReceiveKeys (t.session q).pq.activeReceiveKeys
              ((t.session q).pq.activeReceiveKeys.set (activeName a) _)).get name = some key := hget
          rw [adoptActiveReceiveKeys, OrdMap.get_merge, OrdMap.get_set_ne _ _ hname, Option.or_self] at hget
          exact .inl hget
      rcases hold with hold | rfl
      · obtain ⟨pub, N, epoch, hname, hread⟩ := h.keys q name key hold
        exact ⟨pub, N, epoch, hname, hpast pub N hread⟩
      · exact ⟨_, _, _, rfl, hnew⟩
    · have hpast := hpast r.peer
      simp only [Link.receive, upd_peer] at hpast
      simp only [Talk.put, upd_peer] at hget ⊢
      obtain ⟨pub, N, epoch, hname, hread⟩ := h.keys r.peer name key hget
      exact ⟨pub, N, epoch, hname, hpast pub N hread⟩
  · rcases Role.eq_or_eq_peer r q with rfl | rfl
    · obtain ⟨flights, hspells, hordered⟩ := h.channel q
      rw [hin] at hspells
      obtain ⟨flight, others, hfirst, hothers, rfl⟩ := List.forall₂_cons_left_iff.mp hspells
      cases hfirst with
      | message => simpa [Talk.put] using ⟨others, hothers, hordered.2⟩
    · simpa [Talk.put] using h.channel r.peer
  · rcases Role.eq_or_eq_peer r q with rfl | rfl
    · have hsaid := h.stream q
      rw [hin] at hsaid
      simp only [Talk.put, upd_self, upd_peer, plaintextOf]
      rw [hsaid, List.append_assoc]
      rfl
    · simpa [Talk.put] using h.stream r.peer

/-! ## Runs -/

/-- Every call keeps the invariant. -/
theorem Invariant.step (hA : L.AeadLaws) (hK : L.KemLaws) (hdh : L.DhLaws)
    (h : Invariant L E t g level top x) {t' : Talk} (hstep : Step L t t') :
    ∃ g level top x, Invariant L E t' g level top x := by
  cases hstep with
  | encrypt r hsize hnonces hrun => exact ⟨_, _, _, _, h.sent hsize hnonces hrun⟩
  | decrypt r hin hperm hcount hfresh =>
    obtain ⟨g', level', top', h'⟩ := h.received hA hdh hin hperm hcount hfresh
    exact ⟨g', level', top', x, h'⟩
  | prepareHealing r coins nonce due now dispatched =>
    obtain ⟨x', h'⟩ := h.prepareHealing coins nonce due now dispatched
    exact ⟨g, level, top, x', h'⟩
  | acceptControlFrame r coins nonce now dispatched hin =>
    obtain ⟨x', h'⟩ := h.acceptControlFrame hA hK hin coins nonce now dispatched
    exact ⟨g, level, top, x', h'⟩
  | pendingControl r hrun => exact ⟨g, level, top, x, h.pendingControl hrun⟩
  | lose r hin => exact ⟨g, level, top, x, h.lose hin⟩

/-- The start satisfies it. -/
theorem Opened.invariant (hdh : L.DhLaws) {root : Bytes} (h : Opened L E root t) :
    ∃ g level top, Invariant L E t g level top fun _ => HealingRefinement.startParty root := by
  obtain ⟨g, level, top, hratchets⟩ := h.ratchets.inOrder L hdh
  have hlink : t.link L = ⟨fun r => (t.session r).state, fun _ => [], t.drawn⟩ := by
    unfold Talk.link
    congr 1
    funext r
    rw [(h.silent r).1]
    rfl
  refine ⟨g, level, top, fun r => (h.created r).wellFormed, fun r => ?_, fun r => ?_, ?_,
    fun r name key hget => ?_, fun r => ?_, fun r => ?_⟩
  · obtain ⟨rootSuite, now, hnew⟩ := h.runtimes r
    exact (Abs.start hnew).1
  · exact ⟨fun _ _ _ => rfl, .inl rfl⟩
  · rw [hlink]
    exact hratchets
  · obtain ⟨rootSuite, now, hnew⟩ := h.runtimes r
    have hnone : (t.session r).pq.activeReceiveKeys.get name = none := by
      rw [(Abs.start (L := L) hnew).2]
      rfl
    rw [hnone] at hget
    cases hget
  · rw [(h.silent r.peer).1]
    exact Channel.nil
  · rw [(h.silent r.peer).2.1, (h.silent r).2.2, (h.silent r.peer).1]
    rfl

theorem invariant_of_runs (hA : L.AeadLaws) (hK : L.KemLaws) (hdh : L.DhLaws) {root : Bytes}
    {t₀ : Talk} (hstart : Opened L E root t₀) (hrun : Runs (Step L) t₀ t) :
    ∃ g level top x, Invariant L E t g level top x := by
  obtain ⟨g, level, top, h⟩ := hstart.invariant hdh
  refine Runs.invariant (P := fun t => ∃ g level top x, Invariant L E t g level top x) ?_
    ⟨g, level, top, _, h⟩ hrun
  rintro t t' ⟨g, level, top, x, h⟩ hstep
  exact h.step hA hK hdh hstep

/-- Along every run, whatever healing exchanges there are in between: what a session has heard is
what its peer has said, in order, up to what is still under way; no skipped key is stored; and the
next message was sealed in the context its reader is in and is heard as it was said, with its frames in
any order. -/
theorem heard_in_order (hA : L.AeadLaws) (hK : L.KemLaws) (hdh : L.DhLaws) {root : Bytes}
    {t₀ : Talk} (hstart : Opened L E root t₀) (hrun : Runs (Step L) t₀ t) (r : Role) :
    t.said r.peer = t.heard r ++ (t.wire r.peer).filterMap Item.plaintext ∧
    (t.session r).state.skipped = .empty ∧
    ∀ (a : Sent) (rest : List Item), t.wire r.peer = .message a :: rest →
      a.session.pq.currentMessageContext = (t.session r).pq.currentMessageContext ∧
      ((t.session r).CanCount → ∀ (frames : List Bytes), frames.Perm a.message.frames →
        ∀ secretKey, ∃ s', (Session.decrypt L { a.message with frames } secretKey).run (t.session r) =
          .ok a.plaintext s') := by
  obtain ⟨g, level, top, x, h⟩ := invariant_of_runs hA hK hdh hstart hrun
  refine ⟨h.stream r, h.ratchets.unskipped r, fun a rest hin => ⟨h.context hin, ?_⟩⟩
  intro hcount frames hperm secretKey
  obtain ⟨reader, -, hheard⟩ := h.hears hA hdh hin hperm secretKey hcount
  exact ⟨_, hheard⟩

/-- The sessions of the sample handshake, before any call. -/
def sampleTalk : Talk where
  session := sampleSession LibCrypto.transparent
  wire := fun _ => []
  said := fun _ => []
  heard := fun _ => []
  drawn := [LibCrypto.transparent.x25519Base (sampleSecret 3),
    LibCrypto.transparent.x25519Base (sampleSecret 1), LibCrypto.transparent.x25519Base (sampleSecret 2)]

theorem sampleTalk_opened : Opened LibCrypto.transparent sampleEdge sampleRoot sampleTalk where
  created r := sampleSession_created LibCrypto.transparent_dhLaws r
  ratchets := {
    setup := ⟨sampleSecret 7, .hybridMlkem768, sampleSecret 1, sampleSecret 2, sampleSecret 3, _,
      rfl, rfl, rfl, rfl⟩
    distinct := by decide
    noPackets := fun _ => rfl }
  runtimes r := ⟨_, 0, sample_new r⟩
  silent _ := ⟨rfl, rfl, rfl⟩

/-- A day after the start. -/
def dayLater : Instant := ⟨PQ_HEAL_AFTER_MS, by decide⟩

/-- A message that is heard without a DH step. -/
theorem Step.hears {a : Sent} {rest : List Item} {secretKey : Nat → RandomBytes 32} {plaintext : Bytes} {s : Session}
    (hin : t.wire r.peer = .message a :: rest) (hcount : (t.session r).CanCount)
    (hsame : stepsDh (t.session r).state a.header = false)
    (hrun : (Session.decrypt L a.message secretKey).run (t.session r) = .ok plaintext s) :
    Step L t { t.put r s rest [] with heard := upd t.heard r (t.heard r ++ [plaintext]) } := by
  have hstep := @Step.decrypt L t r a rest _ secretKey hin (List.Perm.refl _) hcount
    (fun hnew => absurd (hsame.symm.trans hnew) (by decide))
  rw [hrun, hsame] at hstep
  exact hstep

/-- An OFFER that is made. -/
theorem Step.offers {pk sk : Bytes} (hwf : (t.session r).WellFormed)
    (ho : Offered L (t.session r).pq [] dayLater.val pk sk) :
    Step L t (t.put r { t.session r with
      pq := ((t.session r).pq.offerMade L pk sk sampleNonce dayLater.val).dispatched dayLater.val }
      (t.wire r.peer) [.control ((t.session r).pq.offerFrame L pk sampleNonce)]) := by
  have hstep := Step.prepareHealing (L := L) t r [] sampleNonce dayLater dayLater dayLater
  rw [prepareHealing_run hwf sampleNonce dayLater ho.due ho] at hstep
  exact hstep

/-- A frame that is taken. -/
theorem Step.takes {R : SparsePqHealingState} {y : EdgeParty} {f : Bytes} {dispatch : Option Bytes}
    {rest : List Item} (hwf : (t.session r).WellFormed) (ht : Takes r (t.session r).pq f dispatch R y)
    (hin : t.wire r.peer = .control f :: rest) :
    Step .transparent t (t.put r { t.session r with pq := R } rest (dispatch.toList.map .control)) := by
  obtain ⟨R₁, hacc, rfl⟩ := ht.accepted
  have hrun : (Session.acceptControlFrame .transparent f [] sampleNonce dayLater dayLater).run (t.session r) = _ :=
    @acceptControlFrameWith_run _ _ false f [] sampleNonce dayLater dayLater _ _ hwf.live ht.length hacc
      (acceptControlFrame_run hwf.runtime hacc)
  have hstep := Step.acceptControlFrame (L := .transparent) t r [] sampleNonce dayLater dayLater hin
  rw [hrun] at hstep
  exact hstep

/-- A message is said and heard, an exchange changes the epoch, and the next message is heard. -/
theorem heard_in_order_across_healing : ∃ (t : Talk) (a : Sent) (s : Session),
    Runs (Step .transparent) sampleTalk t ∧ t.heard .responder = [[1]] ∧ (t.session .responder).epoch = 1 ∧
    t.wire .initiator = [.message a] ∧
    (Session.decrypt .transparent a.message fun _ => default).run (t.session .responder) = .ok [2] s := by
  have hA := LibCrypto.transparent_aeadLaws
  have hK := LibCrypto.transparent_kemLaws
  have hdh := LibCrypto.transparent_dhLaws
  have hroom : 1 < MAX_SAFE_INTEGER := by decide
  -- a message
  obtain ⟨message, _, _, ⟨_, -, -, rfl⟩, hencrypt, hreads⟩ := @Synchronised.exchange _ [1] _ _ sampleRandomness
    sample_synchronised hA hdh (by decide) (sample_nonces (by decide)) (sample_canSend _) (sample_canSend _).count
  obtain ⟨reader, name, key, hdecrypt, -⟩ := hreads _ (List.Perm.refl _) fun _ => default
  have hsaid : Runs (Step .transparent) sampleTalk _ :=
    .single (.encrypt sampleTalk .initiator (by decide) (sample_nonces (by decide)) hencrypt)
  have hheard := hsaid.tail (Step.hears (r := .responder) rfl (sample_canSend .responder).count rfl hdecrypt)
  have hwf : ∀ q t, Runs (Step .transparent) sampleTalk t → (t.session q).WellFormed := by
    intro q t hrun
    obtain ⟨_, _, _, _, h⟩ := invariant_of_runs hA hK hdh sampleTalk_opened hrun
    exact h.wellFormed q
  -- an exchange
  obtain ⟨pk, sk, A, B, A', B', x, y, x', y', advance, ack, ho, rfl, -, hB, hA', hB', ⟨hx, -⟩, hy, hy₁⟩ :=
    @sample_exchange (upd (fun _ => .empty) .responder
      ((sampleSession .transparent .responder).afterReading reader name key).pq.activeReceiveKeys) (fun _ => 1)
      fun _ => Nat.le_of_lt hroom
  have hoffered := hheard.tail (Step.offers (r := .initiator) (hwf _ _ hheard) ho)
  have hanswered := hoffered.tail (Step.takes (r := .responder) (hwf _ _ hoffered) hB rfl)
  have hacked := hanswered.tail (Step.takes (r := .initiator) (hwf _ _ hanswered) hA' rfl)
  have hdone := hacked.tail (Step.takes (r := .responder) (hwf _ _ hacked) hB' rfl)
  -- and a message of the new epoch
  have hfree : A'.trafficBlocked = false := by
    rw [SparsePqHealingState.trafficBlocked, Machine.trafficBlocked, hA'.abs.machine_idle hx]
    rfl
  have hcount : A'.messagesSinceHealing < MAX_SAFE_INTEGER := Nat.lt_of_le_of_lt hA'.messages hroom
  obtain ⟨second, _, hagain, -⟩ := @WellFormed.encrypts _ [2] _ (hwf .initiator _ hdone) hfree
    ⟨Nat.le_of_lt hroom, Nat.zero_le _, hcount⟩ (by decide) _ _ ⟨_, rfl, rfl, rfl⟩ sampleRandomness
  have hlast := hdone.tail (.encrypt _ .initiator (by decide) (sample_nonces (by decide)) hagain)
  obtain ⟨-, -, hhears⟩ := heard_in_order hA hK hdh sampleTalk_opened hlast .responder
  obtain ⟨s, hlistens⟩ := (hhears _ [] rfl).2
    (Nat.lt_of_le_of_lt (Nat.le_trans hB'.messages hB.messages) hroom) _ (List.Perm.refl _) fun _ => default
  exact ⟨_, _, s, hlast, rfl, (congrArg (·.epoch) (context_of_abs hB'.abs)).trans hy₁, rfl, hlistens⟩

end Conversation

end Session

end P2Party
