import P2Party.PqHealing.Delivery

/-!
# Retransmission over ordered channels

Two orchestrators drive the two ends of an edge by ticks and inbound frames, over
channels that keep the order of frames and delay them at will. A retransmitted
flight meets an exchange that has moved on. The frames in flight then have one of
four shapes (`PhaseShape`), and every frame but one kind is received, answered
from a cache, or left for a retry when its write fails. The exception is an ACK
that reaches an end whose ADVANCE was acknowledged before: it fails the edge.

- `Link`, `Step`: the two orchestrators and the frames in flight;
- `AckExpected`: the frame is no ACK, or the receiver still waits for one;
- `Linked`: the shapes, kept by every step (`Linked.handle`, `Invariant.step`);
- `edge_fails_iff_ack_unexpected`: along every run whose ACKs are expected no edge fails
  but for an exhausted retry budget, and the next frame fails its receiver exactly
  when it is an unexpected ACK;
- `second_ack_fails_edge`: a run in which an ADVANCE is sent twice and an edge fails.
-/

namespace P2Party

open Base PqHealing PqControlFrame PqHealingRuntime PqHealingOrchestrator Healing HealingRefinement

namespace Retransmission

/-! ## The system -/

/-- The two orchestrators, and the frames in flight from each of them, oldest first. -/
structure Link where
  ends : Role → Orchestrator
  wire : Role → List Bytes

/-- The live runtime of an end. -/
def Link.live (s : Link) (r : Role) : SparsePqHealingState := (s.ends r).edge.live

/-- Party `r` becomes `o` and sends `frames`. -/
def Link.acts (s : Link) (r : Role) (result : Orchestrator × List Bytes) : Link where
  ends := upd s.ends r result.1
  wire := upd s.wire r (s.wire r ++ result.2)

/-- The steps: a tick decides, a tick makes its transition, the oldest frame of the peer is
handled if `admits` holds of it, and a failed end drops a frame. Clocks are values of
`Date.now()`. -/
inductive Step (L : LibCrypto) (admits : SparsePqHealingState → Bytes → Prop) :
    Link → Link → Prop
  | tick {s : Link} (r : Role) {now : Nat} (clock : now ≤ MAX_TIME_VALUE)
      (inboundBlocked quiescent : Bool) :
      Step L admits s (s.acts r ((s.ends r).tickPqHealing now inboundBlocked quiescent, []))
  | transition {s : Link} (r : Role) (coins : Bytes) (nonce : Nonce) (write : Write) :
      Step L admits s (s.acts r ((s.ends r).tickTransition L coins nonce write))
  | handle {s : Link} (r : Role) {frame : Bytes} {rest : List Bytes}
      (head : s.wire r.peer = frame :: rest) (admitted : admits (s.live r) frame) (coins : Bytes)
      (nonce : Nonce) {now : Nat} (clock : now ≤ MAX_TIME_VALUE) (write : Write) :
      Step L admits s (({ s with wire := upd s.wire r.peer rest } : Link).acts r
        ((s.ends r).handleInboundPqControlFrame L frame coins nonce now write))
  | ignore {s : Link} (r : Role) {frame : Bytes} {rest : List Bytes}
      (head : s.wire r.peer = frame :: rest) (failed : (s.ends r).failed.isSome) :
      Step L admits s { s with wire := upd s.wire r.peer rest }

/-- The start: two constructed runtimes of one edge, nothing failed and nothing in flight. -/
def Start (E : Edge) (root : Bytes) (s : Link) : Prop :=
  ∀ r, s.wire r = [] ∧ (s.ends r).busy = none ∧ (s.ends r).failed = none ∧ ∃ rootSuite now,
    SparsePqHealingState.new E.pqMode rootSuite E.binding root
      (if E.first = r then .local else .remote) (decide (r = .initiator)) now = .ok (s.live r)

/-- The frame is answered from the cache, does not open to an ACK, or finds the ADVANCE that an
ACK answers still pending. -/
def AckExpected (L : LibCrypto) (R : SparsePqHealingState) (frame : Bytes) : Prop :=
  ¬ R.RepeatsAdvance frame → ∀ record, R.Opens L frame record →
    record.length = PQ_HEALING_ACK_BYTES → R.outboxIs .advance = true

/-! ## Flights -/

/-- Frames of a first kind, then frames of a second. -/
def Flights (P Q : Bytes → Prop) (frames : List Bytes) : Prop :=
  ∃ old new, frames = old ++ new ∧ (∀ f ∈ old, P f) ∧ ∀ f ∈ new, Q f

section Flights

variable {P Q : Bytes → Prop} {f : Bytes} {frames : List Bytes}

theorem Flights.of_first (h : ∀ g ∈ frames, P g) : Flights P Q frames :=
  ⟨frames, [], (List.append_nil _).symm, h, fun _ hmem => absurd hmem List.not_mem_nil⟩

theorem Flights.snoc (h : Flights P Q frames) (hf : Q f) : Flights P Q (frames ++ [f]) := by
  obtain ⟨old, new, rfl, hold, hnew⟩ := h
  refine ⟨old, new ++ [f], List.append_assoc .., hold, fun g hg => ?_⟩
  rcases List.mem_append.mp hg with hg | hg
  · exact hnew g hg
  · rw [List.mem_singleton.mp hg]
    exact hf

theorem Flights.head (h : Flights P Q (f :: frames)) : P f ∨ (Q f ∧ ∀ g ∈ frames, Q g) := by
  obtain ⟨old, new, heq, hold, hnew⟩ := h
  cases old with
  | cons g old =>
    cases heq
    exact .inl (hold f List.mem_cons_self)
  | nil =>
    rw [List.nil_append] at heq
    subst heq
    exact .inr ⟨hnew f List.mem_cons_self, fun g hg => hnew g (List.mem_cons_of_mem _ hg)⟩

theorem Flights.tail (h : Flights P Q (f :: frames)) : Flights P Q frames := by
  obtain ⟨old, new, heq, hold, hnew⟩ := h
  cases old with
  | cons g old =>
    cases heq
    exact ⟨old, new, rfl, fun g hg => hold g (List.mem_cons_of_mem _ hg), hnew⟩
  | nil =>
    rw [List.nil_append] at heq
    subst heq
    exact ⟨[], frames, rfl, hold, fun g hg => hnew g (List.mem_cons_of_mem _ hg)⟩

theorem forall_snoc (h : ∀ g ∈ frames, P g) (hf : P f) : ∀ g ∈ frames ++ [f], P g := by
  intro g hg
  rcases List.mem_append.mp hg with hg | hg
  · exact h g hg
  · rw [List.mem_singleton.mp hg]
    exact hf

theorem forall_tail (h : ∀ g ∈ f :: frames, P g) : ∀ g ∈ frames, P g :=
  fun g hg => h g (List.mem_cons_of_mem _ hg)

end Flights

/-! ## The shapes of an exchange -/

/-- What the shapes see of a runtime: the OFFER and the ADVANCE it answers from its caches,
and the frame it may send again. -/
structure View where
  repeatsOffer : Bytes → Prop
  repeatsAdvance : Bytes → Prop
  pending : Bytes → Prop

/-- The view of a runtime. -/
def viewOf (R : SparsePqHealingState) : View where
  repeatsOffer := R.RepeatsOffer
  repeatsAdvance := R.RepeatsAdvance
  pending f := R.copyPendingFrame = some f

theorem viewOf_dispatched (R : SparsePqHealingState) (now : Nat) :
    viewOf (R.dispatched now) = viewOf R := by
  unfold viewOf SparsePqHealingState.RepeatsOffer SparsePqHealingState.RepeatsAdvance
    SparsePqHealingState.outboxIs SparsePqHealingState.copyPendingFrame
    SparsePqHealingState.dispatched
  cases R.outbox <;> rfl

/-- A frame of `q` that acknowledges the epoch `x` is at. -/
def AckOf (L : LibCrypto) (E : Edge) (q : Role) (x : EdgeParty) (frame : Bytes) : Prop :=
  Means L E q frame ⟨x.epoch, x.root, .ack⟩

/-- The shapes of an exchange in which `a` offers and `b` answers: nobody has started, `a` has
offered, `b` has answered, `a` has finished. Each says which frames are in flight. -/
inductive PhaseShape (L : LibCrypto) (E : Edge) (a b : Role) (A B : View) (x y : EdgeParty)
    (toB toA : List Bytes) : Prop
  | rest (turn : owner E.first x.epoch = a) (idleA : x.phase = .idle) (idleB : y.phase = .idle)
      (epochs : y.epoch = x.epoch) (roots : y.root = x.root)
      (advances : ∀ f ∈ toB, B.repeatsAdvance f) (acks : ∀ f ∈ toA, AckOf L E b x f)
  | offered {o : Bytes} (turn : owner E.first x.epoch = a) (offering : x.phase = .offering o)
      (idleB : y.phase = .idle) (epochs : y.epoch = x.epoch) (roots : y.root = x.root)
      (offers : Flights B.repeatsAdvance A.pending toB) (acks : ∀ f ∈ toA, AckOf L E b x f)
  | answered {o : Bytes} (turn : owner E.first x.epoch = a) (offering : x.phase = .offering o)
      (awaiting : y.phase = .awaiting o) (epochs : y.epoch = x.epoch + 1)
      (roots : y.roots x.epoch = x.root) (cached : ∀ f, A.pending f → B.repeatsOffer f)
      (offers : ∀ f ∈ toB, B.repeatsOffer f) (advances : Flights (AckOf L E b x) B.pending toA)
  | finished {o : Bytes} (turn : owner E.first x.epoch = b) (idleA : x.phase = .idle)
      (awaiting : y.phase = .awaiting o) (epochs : y.epoch = x.epoch) (roots : y.root = x.root)
      (cached : ∀ f, B.pending f → A.repeatsAdvance f)
      (acks : Flights B.repeatsOffer (AckOf L E a y) toB)
      (advances : ∀ f ∈ toA, A.repeatsAdvance f)

/-- One of the two ends offers and the other answers. -/
def Linked (L : LibCrypto) (E : Edge) (a b : Role) (A B : View) (x y : EdgeParty)
    (toB toA : List Bytes) : Prop :=
  PhaseShape L E a b A B x y toB toA ∨ PhaseShape L E b a B A y x toA toB

variable {L : LibCrypto} {E : Edge} {a b : Role} {A B : SparsePqHealingState} {V : View}
  {x y : EdgeParty} {toB toA : List Bytes} {f : Bytes}

theorem Linked.symm {W : View} (h : Linked L E a b V W x y toB toA) :
    Linked L E b a W V y x toA toB := Or.symm h

/-- Frames may be dropped. -/
theorem Linked.drop {W : View} (h : Linked L E a b V W x y (f :: toB) toA) :
    Linked L E a b V W x y toB toA := by
  rcases h with h | h
  · cases h with
    | rest turn idleA idleB epochs roots advances acks =>
      exact .inl (.rest turn idleA idleB epochs roots (forall_tail advances) acks)
    | offered turn offering idleB epochs roots offers acks =>
      exact .inl (.offered turn offering idleB epochs roots offers.tail acks)
    | answered turn offering awaiting epochs roots cached offers advances =>
      exact .inl (.answered turn offering awaiting epochs roots cached (forall_tail offers) advances)
    | finished turn idleA awaiting epochs roots cached acks advances =>
      exact .inl (.finished turn idleA awaiting epochs roots cached acks.tail advances)
  · cases h with
    | rest turn idleA idleB epochs roots advances acks =>
      exact .inr (.rest turn idleA idleB epochs roots advances (forall_tail acks))
    | offered turn offering idleB epochs roots offers acks =>
      exact .inr (.offered turn offering idleB epochs roots offers (forall_tail acks))
    | answered turn offering awaiting epochs roots cached offers advances =>
      exact .inr (.answered turn offering awaiting epochs roots cached offers advances.tail)
    | finished turn idleA awaiting epochs roots cached acks advances =>
      exact .inr (.finished turn idleA awaiting epochs roots cached acks (forall_tail advances))

/-- An idle runtime has nothing to send again. -/
theorem not_pending (h : Abs L E b B y) (idle : y.phase = .idle) : ¬ (viewOf B).pending f := by
  intro hpending
  obtain ⟨outbox, hob, -⟩ := Option.map_eq_some_iff.mp hpending
  have hphase := h.wf.phase
  rw [hob, h.machine_idle idle] at hphase
  cases hk : outbox.kind <;> simp [hk, PhaseOfOutbox] at hphase

/-- An end may send its pending frame again. -/
theorem Linked.resend (h : Linked L E a b V (viewOf B) x y toB toA) (hB : Abs L E b B y)
    (hf : (viewOf B).pending f) : Linked L E a b V (viewOf B) x y toB (toA ++ [f]) := by
  rcases h with h | h
  · cases h with
    | rest turn idleA idleB => exact absurd hf (not_pending hB idleB)
    | offered turn offering idleB => exact absurd hf (not_pending hB idleB)
    | answered turn offering awaiting epochs roots cached offers advances =>
      exact .inl (.answered turn offering awaiting epochs roots cached offers (advances.snoc hf))
    | finished turn idleA awaiting epochs roots cached acks advances =>
      exact .inl (.finished turn idleA awaiting epochs roots cached acks
        (forall_snoc advances (cached f hf)))
  · cases h with
    | rest turn idleA => exact absurd hf (not_pending hB idleA)
    | offered turn offering idleB epochs roots offers acks =>
      exact .inr (.offered turn offering idleB epochs roots (offers.snoc hf) acks)
    | answered turn offering awaiting epochs roots cached offers advances =>
      exact .inr (.answered turn offering awaiting epochs roots cached
        (forall_snoc offers (cached f hf)) advances)
    | finished turn idleA => exact absurd hf (not_pending hB idleA)

/-- An end may send its cached ACK again. -/
theorem Linked.resend_ack (h : Linked L E a b V (viewOf B) x y toB toA) (hab : b = a.peer)
    (hB : Abs L E b B y) (hf : B.cachedAckFrame = some f) :
    Linked L E a b V (viewOf B) x y toB (toA ++ [f]) := by
  obtain ⟨howner, hmeans⟩ := hB.cached f hf
  have hpeer : b.peer = a := by rw [hab, Role.peer_peer]
  have hne : a ≠ b := by
    rw [hab]
    exact Role.ne_peer a
  rw [hpeer] at howner
  rcases h with h | h
  · cases h with
    | rest turn idleA idleB epochs roots advances acks =>
      rw [epochs, roots] at hmeans
      exact .inl (.rest turn idleA idleB epochs roots advances (forall_snoc acks hmeans))
    | offered turn offering idleB epochs roots offers acks =>
      rw [epochs, roots] at hmeans
      exact .inl (.offered turn offering idleB epochs roots offers (forall_snoc acks hmeans))
    | answered turn offering awaiting epochs =>
      rw [epochs, owner_succ, turn] at howner
      exact absurd howner (Role.peer_ne a)
    | finished turn idleA awaiting epochs =>
      rw [epochs, turn] at howner
      exact absurd howner.symm hne
  · cases h with
    | rest turn => exact absurd (howner.symm.trans turn) hne
    | offered turn => exact absurd (howner.symm.trans turn) hne
    | answered turn => exact absurd (howner.symm.trans turn) hne
    | finished turn idleA awaiting epochs roots cached acks advances =>
      rw [← epochs, ← roots] at hmeans
      exact .inr (.finished turn idleA awaiting epochs roots cached (acks.snoc hmeans) advances)

/-- The end whose turn it is may offer. -/
theorem Linked.offer {W : View} (h : Linked L E a b V W x y toB toA) (hab : b = a.peer)
    (idle : y.phase = .idle) (turn : owner E.first y.epoch = b) {W' : View} (o : Bytes)
    (hf : W'.pending f) :
    Linked L E a b V W' x (y.withPhase (.offering o)) toB (toA ++ [f]) := by
  have hne : a ≠ b := by
    rw [hab]
    exact Role.ne_peer a
  rcases h with h | h
  · cases h with
    | rest turn' idleA idleB epochs =>
      rw [← epochs, turn] at turn'
      exact absurd turn'.symm hne
    | offered turn' offering idleB epochs =>
      rw [← epochs, turn] at turn'
      exact absurd turn'.symm hne
    | answered turn' offering awaiting => exact absurd (idle.symm.trans awaiting) (by simp)
    | finished turn' idleA awaiting => exact absurd (idle.symm.trans awaiting) (by simp)
  · cases h with
    | rest turn' idleA idleB epochs roots advances acks =>
      exact .inr (.offered turn rfl idleB epochs roots ((Flights.of_first advances).snoc hf) acks)
    | offered turn' offering => exact absurd (idle.symm.trans offering) (by simp)
    | answered turn' offering => exact absurd (idle.symm.trans offering) (by simp)
    | finished turn' idleA awaiting =>
      exact absurd (turn'.symm.trans turn) hne

/-! ## Handling the oldest frame -/

/-- Only a runtime that waits for an ACK has an ADVANCE to send again. -/
theorem awaiting_of_outbox (hB : Abs L E b B y) (hbox : B.outboxIs .advance = true) :
    ∃ o, y.phase = .awaiting o := by
  have hphase := hB.phase
  have hwf := hB.wf.phase
  rw [show B.outbox.map (·.kind) = some .advance from beq_iff_eq.mp hbox] at hwf
  unfold PhaseAbs at hphase
  cases hy : y.phase with
  | idle =>
    rw [hy] at hphase
    rw [hphase] at hwf
    exact hwf.elim
  | offering o =>
    rw [hy] at hphase
    obtain ⟨_, _, _, _, hp, -⟩ := hphase
    rw [hp] at hwf
    exact hwf.elim
  | awaiting o => exact ⟨o, rfl⟩

variable {r : Role} {coins : Bytes} {nonce : Nonce} {now : Nat}

/-- An expected ACK finds a party that waits for it. -/
theorem awaiting_of_ackExpected (hA : L.AeadLaws) (hB : Abs L E r B y)
    (hack : AckOf L E r.peer y f) (hadvance : ¬ B.RepeatsAdvance f)
    (hexpected : AckExpected L B f) : ∃ o, y.phase = .awaiting o := by
  obtain ⟨record, hopens, hcarries⟩ := Means.opens hA hB hack rfl rfl
  refine awaiting_of_outbox hB (hexpected hadvance record hopens ?_)
  cases hcarries with
  | ack pred => exact length_ackRecord (hB.binding ▸ hB.wf.binding_length)

/-- A flight of the peer that is no ACK may be handled. -/
theorem ackExpected_of_means (hA : L.AeadLaws) (hB : Abs L E r B y) {m : EdgeMsg} (hm : Means L E r.peer f m)
    (hroot : m.epoch = y.epoch → m.root = y.root) (hbody : m.body ≠ .ack) : AckExpected L B f := by
  intro _ record hopens hlength
  obtain ⟨-, hcarries⟩ := hB.opens hA hm hroot hopens
  revert hcarries hbody
  generalize m.body = body
  intro hbody hcarries
  cases hcarries with
  | offer decodes =>
    rw [(decodeOffer_spec decodes).length_eq] at hlength
    exact absurd hlength (by cases E.suite <;> decide)
  | advance decodes =>
    rw [(decodeAdvance_spec decodes).length_eq] at hlength
    exact absurd hlength (by cases E.suite <;> decide)
  | ack => exact absurd rfl hbody

/-- What handling the oldest frame from the peer does, when it does not fail: it is answered
from a cache, or received. -/
inductive Handled (L : LibCrypto) (E : Edge) (r : Role) (V : View) (B : SparsePqHealingState)
    (x y : EdgeParty) (toB toA : List Bytes) :
    EStateM.Result JsError SparsePqHealingState PqOutcome → Prop
  | repeated {k : Bytes} (linked : Linked L E r.peer r V (viewOf B) x y toB (toA ++ [k])) :
      Handled L E r V B x y toB toA (.ok ⟨some k, false⟩ B)
  | received {dispatch : Option Bytes} {B' : SparsePqHealingState} {y' : EdgeParty}
      (abs : Abs L E r B' y') (keys : B'.activeReceiveKeys = B.activeReceiveKeys)
      (linked : Linked L E r.peer r V (viewOf B') x y' toB (toA ++ dispatch.toList)) :
      Handled L E r V B x y toB toA (.ok ⟨dispatch, true⟩ B')

/-- A fresh OFFER is answered. -/
theorem handle_offer (hA : L.AeadLaws) (hK : L.KemLaws) (hx : Abs L E r.peer A x)
    (hB : Abs L E r B y) (clock : now ≤ MAX_TIME_VALUE) (hoffer : ¬ B.RepeatsOffer f)
    (hadvance : ¬ B.RepeatsAdvance f) {o : Bytes} (turn : owner E.first x.epoch = r.peer)
    (offering : x.phase = .offering o) (idleB : y.phase = .idle) (epochs : y.epoch = x.epoch)
    (roots : y.root = x.root) (hf : (viewOf A).pending f) (hnew : ∀ g ∈ toB, (viewOf A).pending g)
    (acks : ∀ f ∈ toA, AckOf L E r x f) :
    Handled L E r (viewOf A) B x y toB toA ((inbound L f coins nonce now).run B) := by
  have hmeans := hx.pending_offer offering hf
  rw [← epochs, ← roots] at hmeans
  have hsafe : now ≤ MAX_SAFE_INTEGER := Nat.le_trans clock (by decide)
  obtain ⟨offer, ct, ss, next, haccepted, habs⟩ :=
    hB.takes_offer hA hK hmeans idleB (epochs ▸ turn) hoffer hadvance hsafe coins nonce
  rw [inbound_run hB.wf haccepted]
  refine .received (habs.dispatched rfl (Nat.succ_pos _) clock) rfl ?_
  refine (viewOf_dispatched (B.offerAnswered L f offer ct ss nonce now) now).symm ▸ ?_
  refine .inl (.answered turn offering rfl (congrArg (· + 1) epochs) ?_ ?_ ?_ ?_)
  · rw [← epochs, y.commit_roots_of_le _ _ (Nat.le_refl _)]
    exact roots
  · intro g hg
    rw [show g = f from Option.some.inj (hg.symm.trans hf)]
    exact ⟨rfl, rfl⟩
  · intro g hg
    rw [show g = f from Option.some.inj ((hnew g hg).symm.trans hf)]
    exact ⟨rfl, rfl⟩
  · exact (Flights.of_first acks).snoc rfl

/-- The ADVANCE that answers an OFFER is committed and acknowledged. -/
theorem handle_advance (hA : L.AeadLaws) (hK : L.KemLaws) (hx : Abs L E r.peer A x)
    (hB : Abs L E r B y) (clock : now ≤ MAX_TIME_VALUE) (hoffer : ¬ B.RepeatsOffer f)
    (hadvance : ¬ B.RepeatsAdvance f) {o : Bytes} (turn : owner E.first y.epoch = r)
    (offering : y.phase = .offering o) (awaiting : x.phase = .awaiting o)
    (epochs : x.epoch = y.epoch + 1) (roots : x.roots y.epoch = y.root)
    (hf : (viewOf A).pending f) (hnew : ∀ g ∈ toB, (viewOf A).pending g)
    (offers : ∀ g ∈ toA, (viewOf A).repeatsOffer g) :
    Handled L E r (viewOf A) B x y toB toA ((inbound L f coins nonce now).run B) := by
  obtain ⟨k, hk, hmeans⟩ := hx.pending_advance awaiting hf
  have hky : k = y.epoch := by omega
  rw [hky, roots] at hmeans
  have hsafe : now ≤ MAX_SAFE_INTEGER := Nat.le_trans clock (by decide)
  obtain ⟨advance, ss, haccepted, habs⟩ :=
    hB.takes_advance hA hK hmeans offering hoffer hadvance hsafe coins nonce
  rw [inbound_run hB.wf haccepted]
  have hturn : owner E.first (y.commit x.root .idle).epoch = r.peer := by
    rw [y.commit_epoch, owner_succ, turn]
  have hack : AckOf L E r x (B.ackFrame L advance ss nonce) := by
    have := (habs.cached _ rfl).2
    rw [y.commit_epoch, y.commit_root, ← epochs] at this
    exact this
  refine .received habs rfl (.inr ?_)
  refine .finished hturn rfl awaiting epochs (y.commit_root _ _).symm ?_ ?_ ?_
  · intro g hg
    rw [show g = f from Option.some.inj (hg.symm.trans hf)]
    exact ⟨rfl, rfl⟩
  · exact (Flights.of_first offers).snoc hack
  · intro g hg
    rw [show g = f from Option.some.inj ((hnew g hg).symm.trans hf)]
    exact ⟨rfl, rfl⟩

/-- An ACK ends the wait. -/
theorem handle_ack (hA : L.AeadLaws) (hB : Abs L E r B y) (clock : now ≤ MAX_TIME_VALUE)
    (hoffer : ¬ B.RepeatsOffer f) (hadvance : ¬ B.RepeatsAdvance f) {o : Bytes}
    (turn : owner E.first x.epoch = r) (idleA : x.phase = .idle) (awaiting : y.phase = .awaiting o)
    (epochs : y.epoch = x.epoch) (roots : y.root = x.root) (hf : AckOf L E r.peer y f)
    (hnew : ∀ g ∈ toB, AckOf L E r.peer y g) (advances : ∀ g ∈ toA, V.repeatsAdvance g) :
    Handled L E r V B x y toB toA ((inbound L f coins nonce now).run B) := by
  have hsafe : now ≤ MAX_SAFE_INTEGER := Nat.le_trans clock (by decide)
  obtain ⟨haccepted, habs⟩ := hB.takes_ack hA hf awaiting hoffer hadvance hsafe coins nonce
  rw [inbound_run hB.wf haccepted]
  refine .received habs rfl (.inr ?_)
  refine .rest (epochs ▸ turn) rfl idleA epochs.symm roots.symm ?_ hnew
  simpa using advances

/-- Frames in flight have the length of a frame. -/
theorem Linked.frame_length (h : Linked L E a b (viewOf A) (viewOf B) x y (f :: toB) toA)
    (hx : Abs L E a A x) (hB : Abs L E b B y) : f.length = WIRE_CHUNK_FRAME_LEN := by
  have hpending : (viewOf A).pending f → f.length = WIRE_CHUNK_FRAME_LEN := by
    intro hf
    obtain ⟨outbox, hob, hframe⟩ := Option.map_eq_some_iff.mp hf
    exact hframe ▸ (hx.wf.outbox outbox hob).1
  have hoffer : (viewOf B).repeatsOffer f → f.length = WIRE_CHUNK_FRAME_LEN :=
    fun hf => (hB.wf.offerFrame f hf.1).1
  have hadvance : (viewOf B).repeatsAdvance f → f.length = WIRE_CHUNK_FRAME_LEN :=
    fun hf => (hB.wf.advanceFrame f hf.1).1
  rcases h with h | h
  · cases h with
    | rest turn idleA idleB epochs roots advances acks => exact hadvance (advances f List.mem_cons_self)
    | offered turn offering idleB epochs roots offers acks =>
      rcases offers.head with hold | ⟨hf, -⟩
      · exact hadvance hold
      · exact hpending hf
    | answered turn offering awaiting epochs roots cached offers advances =>
      exact hoffer (offers f List.mem_cons_self)
    | finished turn idleA awaiting epochs roots cached acks advances =>
      rcases acks.head with hold | ⟨hf, -⟩
      · exact hoffer hold
      · exact Means.length hf
  · cases h with
    | rest turn idleA idleB epochs roots advances acks => exact Means.length (acks f List.mem_cons_self)
    | offered turn offering idleB epochs roots offers acks =>
      exact Means.length (acks f List.mem_cons_self)
    | answered turn offering awaiting epochs roots cached offers advances =>
      rcases advances.head with hold | ⟨hf, -⟩
      · exact Means.length hold
      · exact hpending hf
    | finished turn idleA awaiting epochs roots cached acks advances =>
      exact hadvance (advances f List.mem_cons_self)

/-- The oldest frame from the peer, if it is not an unexpected ACK, is answered from a cache or
received. -/
theorem Linked.handle (hA : L.AeadLaws) (hK : L.KemLaws)
    (h : Linked L E r.peer r (viewOf A) (viewOf B) x y (f :: toB) toA) (hx : Abs L E r.peer A x)
    (hB : Abs L E r B y) (hexpected : AckExpected L B f) (clock : now ≤ MAX_TIME_VALUE)
    (coins : Bytes) (nonce : Nonce) :
    Handled L E r (viewOf A) B x y toB toA ((inbound L f coins nonce now).run B) := by
  have hsafe : now ≤ MAX_SAFE_INTEGER := Nat.le_trans clock (by decide)
  by_cases hoffer : B.RepeatsOffer f
  · obtain ⟨outbox, hob, -⟩ := Option.map_eq_some_iff.mp (beq_iff_eq.mp hoffer.2)
    rw [inbound_run hB.wf (.repeatedOffer (hB.wf.offerFrame f hoffer.1).1 hsafe hoffer hob)]
    refine .repeated (h.drop.resend hB ?_)
    show B.outbox.map (·.frame) = _
    rw [hob]
    rfl
  by_cases hadvance : B.RepeatsAdvance f
  · obtain ⟨k, hk⟩ := Option.isSome_iff_exists.mp hadvance.2
    rw [inbound_run hB.wf (.repeatedAdvance (hB.wf.advanceFrame f hadvance.1).1 hsafe hoffer
      hadvance hk)]
    exact .repeated (h.drop.resend_ack (Role.peer_peer r).symm hB hk)
  rcases h with h | h
  · cases h with
    | rest turn idleA idleB epochs roots advances acks =>
      exact absurd (advances f List.mem_cons_self) hadvance
    | offered turn offering idleB epochs roots offers acks =>
      rcases offers.head with hold | ⟨hf, hnew⟩
      · exact absurd hold hadvance
      · exact handle_offer hA hK hx hB clock hoffer hadvance turn offering idleB epochs roots hf
          hnew acks
    | answered turn offering awaiting epochs roots cached offers advances =>
      exact absurd (offers f List.mem_cons_self) hoffer
    | finished turn idleA awaiting epochs roots cached acks advances =>
      rcases acks.head with hold | ⟨hf, hnew⟩
      · exact absurd hold hoffer
      · exact handle_ack hA hB clock hoffer hadvance turn idleA awaiting epochs roots hf hnew advances
  · cases h with
    | rest turn idleA idleB epochs roots advances acks =>
      obtain ⟨o, ho⟩ := awaiting_of_ackExpected hA hB (acks f List.mem_cons_self) hadvance
        hexpected
      exact absurd (idleA.symm.trans ho) (by simp)
    | offered turn offering idleB epochs roots offers acks =>
      obtain ⟨o, ho⟩ := awaiting_of_ackExpected hA hB (acks f List.mem_cons_self) hadvance
        hexpected
      exact absurd (offering.symm.trans ho) (by simp)
    | answered turn offering awaiting epochs roots cached offers advances =>
      rcases advances.head with hold | ⟨hf, hnew⟩
      · obtain ⟨o, ho⟩ := awaiting_of_ackExpected hA hB hold hadvance hexpected
        exact absurd (offering.symm.trans ho) (by simp)
      · exact handle_advance hA hK hx hB clock hoffer hadvance turn offering awaiting epochs roots
          hf hnew offers
    | finished turn idleA awaiting epochs roots cached acks advances =>
      exact absurd (advances f List.mem_cons_self) hadvance

/-! ## The invariant -/

/-- The invariant of the link. -/
structure Invariant (L : LibCrypto) (E : Edge) (s : Link) (x : Role → EdgeParty) : Prop where
  abs : ∀ r, Abs L E r (s.live r) (x r)
  keys : ∀ r, KeysFit (s.live r).activeReceiveKeys
  clocks : ∀ r, ∀ action ∈ (s.ends r).busy, action.now ≤ MAX_TIME_VALUE
  failed : ∀ r, (s.ends r).failed = none ∨ (s.ends r).failed = some .exhausted
  linked : ∀ r, Linked L E r.peer r (viewOf (s.live r.peer)) (viewOf (s.live r)) (x r.peer) (x r)
    (s.wire r.peer) (s.wire r)

variable {s : Link} {p : Role → EdgeParty}

/-- One end changes, with the frames in flight. -/
theorem Invariant.update (h : Invariant L E s p) (r : Role) {o : Orchestrator} {y' : EdgeParty}
    {fromPeer fromMe : List Bytes} (habs : Abs L E r o.edge.live y')
    (hkeys : KeysFit o.edge.live.activeReceiveKeys)
    (hclocks : ∀ action ∈ o.busy, action.now ≤ MAX_TIME_VALUE)
    (hfailed : o.failed = none ∨ o.failed = some .exhausted)
    (hlinked : Linked L E r.peer r (viewOf (s.live r.peer)) (viewOf o.edge.live) (p r.peer) y'
      fromPeer fromMe) :
    Invariant L E ⟨upd s.ends r o, upd (upd s.wire r.peer fromPeer) r fromMe⟩ (upd p r y') := by
  have hr : (⟨upd s.ends r o, upd (upd s.wire r.peer fromPeer) r fromMe⟩ : Link).live r =
      o.edge.live := congrArg (fun o => Orchestrator.edge o |>.live) (upd_self ..)
  have hp : (⟨upd s.ends r o, upd (upd s.wire r.peer fromPeer) r fromMe⟩ : Link).live r.peer =
      s.live r.peer := congrArg (fun o => Orchestrator.edge o |>.live) (upd_peer ..)
  refine ⟨fun q => ?_, fun q => ?_, fun q => ?_, fun q => ?_, fun q => ?_⟩
  · rcases Role.eq_or_eq_peer r q with rfl | rfl
    · rw [hr, upd_self]
      exact habs
    · rw [hp, upd_peer]
      exact h.abs r.peer
  · rcases Role.eq_or_eq_peer r q with rfl | rfl
    · rw [hr]
      exact hkeys
    · rw [hp]
      exact h.keys r.peer
  · rcases Role.eq_or_eq_peer r q with rfl | rfl
    · simp only [upd_self]
      exact hclocks
    · simp only [upd_peer]
      exact h.clocks r.peer
  · rcases Role.eq_or_eq_peer r q with rfl | rfl
    · simp only [upd_self]
      exact hfailed
    · simp only [upd_peer]
      exact h.failed r.peer
  · rcases Role.eq_or_eq_peer r q with rfl | rfl
    · rw [hr, hp]
      simp only [upd_self, upd_peer]
      exact hlinked
    · rw [Role.peer_peer, hr, hp]
      simp only [upd_self, upd_peer]
      exact hlinked.symm

/-- A transition whose mutation returned: whatever becomes of its write, it does not throw and
the invariant is kept. -/
theorem Invariant.transition (h : Invariant L E s p) (r : Role) {fromPeer : List Bytes}
    (hdropped : Linked L E r.peer r (viewOf (s.live r.peer)) (viewOf (s.live r)) (p r.peer) (p r)
      fromPeer (s.wire r)) {mutate : RuntimeM PqOutcome} (write : Write)
    {busy : Option TickAction} (hclocks : ∀ action ∈ busy, action.now ≤ MAX_TIME_VALUE)
    (hrun : Handled L E r (viewOf (s.live r.peer)) (s.live r) (p r.peer) (p r) fromPeer (s.wire r)
      (mutate.run (s.live r))) :
    let result := (mutatePqDurably mutate write).run (s.ends r).edge
    (∀ e edge, result ≠ .error (.thrown e) edge) ∧
      ∃ p', Invariant L E
        ⟨upd s.ends r { s.ends r with edge := finalState result, busy },
          upd (upd s.wire r.peer fromPeer) r (s.wire r ++ dispatchOf result)⟩ p' := by
  intro result
  have hwf := (h.abs r).wf
  generalize hmutate : mutate.run (s.live r) = outcome at hrun
  cases hrun with
  | @repeated k hlinked =>
    have hresult : result = .ok (some k) (s.ends r).edge :=
      mutatePqDurably_of_ok hwf hmutate hwf (h.keys r) ⟨rfl, rfl, rfl, rfl⟩ write
    rw [hresult]
    refine ⟨by rintro _ _ ⟨⟩, _, h.update r (h.abs r) (h.keys r) hclocks (h.failed r) hlinked⟩
  | @received dispatch B' y' habs hkeys hlinked =>
    have hfit : KeysFit B'.activeReceiveKeys := hkeys ▸ h.keys r
    have hresult : result = transitionResult (s.ends r).edge ⟨dispatch, true⟩ B' write :=
      mutatePqDurably_of_ok hwf hmutate habs.wf hfit (sameEdge_of_abs (h.abs r) habs) write
    rw [hresult]
    cases write with
    | lost =>
      refine ⟨by rintro _ _ ⟨⟩, _, h.update r (h.abs r) (h.keys r) hclocks (h.failed r) ?_⟩
      rw [show dispatchOf (transitionResult _ _ _ .lost) = [] from rfl, List.append_nil]
      exact hdropped
    | late =>
      refine ⟨by rintro _ _ ⟨⟩, _, h.update r (h.abs r) (h.keys r) hclocks (h.failed r) ?_⟩
      rw [show dispatchOf (transitionResult _ _ _ .late) = [] from rfl, List.append_nil]
      exact hdropped
    | done =>
      refine ⟨by rintro _ _ ⟨⟩, _, h.update r habs hfit hclocks (h.failed r) ?_⟩
      cases dispatch with
      | none => exact hlinked
      | some k => exact hlinked

/-- An end whose live runtime stays as it is and that sends nothing. -/
theorem Invariant.keep (h : Invariant L E s p) (r : Role) {o : Orchestrator}
    (hlive : o.edge.live = s.live r) (hclocks : ∀ action ∈ o.busy, action.now ≤ MAX_TIME_VALUE)
    (hfailed : o.failed = none ∨ o.failed = some .exhausted) :
    ∃ p', Invariant L E (s.acts r (o, [])) p' := by
  have hnew := h.update r (hlive ▸ h.abs r) (hlive ▸ h.keys r) hclocks hfailed
    (hlive ▸ h.linked r)
  rw [upd_same, ← List.append_nil (s.wire r)] at hnew
  exact ⟨_, hnew⟩

theorem Invariant.tick (h : Invariant L E s p) (r : Role) {now : Nat}
    (clock : now ≤ MAX_TIME_VALUE) (inboundBlocked quiescent : Bool) :
    ∃ p', Invariant L E
      (s.acts r ((s.ends r).tickPqHealing now inboundBlocked quiescent, [])) p' := by
  unfold Orchestrator.tickPqHealing
  split
  · exact h.keep r rfl (h.clocks r) (h.failed r)
  · split
    · exact h.keep r rfl (h.clocks r) (h.failed r)
    · unfold Orchestrator.failEdgeOnce
      split
      · exact h.keep r rfl (h.clocks r) (h.failed r)
      · exact h.keep r rfl (h.clocks r) (.inr rfl)
    · rename_i action hchoice
      refine h.keep r rfl ?_ (h.failed r)
      rintro _ ⟨⟩
      exact tickChoice_now hchoice ▸ clock

/-- The transitions of a tick throw and change nothing, or resend the pending frame, or offer. -/
theorem tick_handled (h : Invariant L E s p) (r : Role) (action : TickAction)
    (clock : action.now ≤ MAX_TIME_VALUE) (coins : Bytes) (nonce : Nonce) :
    (∃ e, (action.mutation L coins nonce).run (s.live r) = .error e (s.live r)) ∨
      Handled L E r (viewOf (s.live r.peer)) (s.live r) (p r.peer) (p r) (s.wire r.peer) (s.wire r)
        ((action.mutation L coins nonce).run (s.live r)) := by
  have habs := h.abs r
  cases action with
  | retry now =>
    show (∃ e, (retry now).run _ = _) ∨ Handled _ _ _ _ _ _ _ _ _ ((retry now).run _)
    rcases @retry_cases (s.live r) now with he | ⟨outbox, hob, hnow, hattempts⟩
    · exact .inl he
    · rw [retry_run hob hnow hattempts]
      refine .inr (.received (habs.dispatched hob hattempts clock) rfl ?_)
      rw [viewOf_dispatched]
      refine (h.linked r).resend habs ?_
      show (s.live r).outbox.map (·.frame) = _
      rw [hob]
      rfl
  | offer now =>
    have hsafe : now ≤ MAX_SAFE_INTEGER := Nat.le_trans clock (by decide)
    show (∃ e, (PqHealingOrchestrator.offer L coins nonce now).run _ = _) ∨
      Handled _ _ _ _ _ _ _ _ _ ((PqHealingOrchestrator.offer L coins nonce now).run _)
    rcases @offer_cases L (s.live r) coins nonce now with he | ⟨pk, sk, ho⟩
    · exact .inl he
    · obtain ⟨o, hidle, hturn, habs', -⟩ :=
        @Abs.offer L E r _ _ habs coins pk sk nonce now ho hsafe
      rw [offer_run habs.wf ho hsafe]
      refine .inr (.received (habs'.dispatched rfl (Nat.succ_pos _) clock) rfl ?_)
      rw [viewOf_dispatched]
      exact (h.linked r).offer (Role.peer_peer r).symm hidle hturn o rfl

theorem Invariant.tickTransition (h : Invariant L E s p) (r : Role) (coins : Bytes) (nonce : Nonce)
    (write : Write) :
    ∃ p', Invariant L E (s.acts r ((s.ends r).tickTransition L coins nonce write)) p' := by
  unfold Orchestrator.tickTransition
  cases hbusy : (s.ends r).busy with
  | none => exact h.keep r rfl (h.clocks r) (h.failed r)
  | some action =>
    have hnone : ∀ action ∈ (none : Option TickAction), action.now ≤ MAX_TIME_VALUE := by
      rintro _ ⟨⟩
    dsimp only
    rcases tick_handled h r action (h.clocks r action hbusy) coins nonce with ⟨e, he⟩ | hrun
    · rw [mutatePqDurably_of_error (h.abs r).wf he]
      exact h.keep r rfl hnone (h.failed r)
    · obtain ⟨-, p', hnew⟩ := h.transition r (h.linked r) write hnone hrun
      rw [upd_same] at hnew
      exact ⟨p', hnew⟩

theorem Invariant.handle (hA : L.AeadLaws) (hK : L.KemLaws) (h : Invariant L E s p) (r : Role)
    {frame : Bytes} {rest : List Bytes} (head : s.wire r.peer = frame :: rest)
    (hexpected : AckExpected L (s.live r) frame) (coins : Bytes) (nonce : Nonce) {now : Nat}
    (clock : now ≤ MAX_TIME_VALUE) (write : Write) :
    ((s.ends r).handleInboundPqControlFrame L frame coins nonce now write).1.failed =
        (s.ends r).failed ∧
      ∃ p', Invariant L E (({ s with wire := upd s.wire r.peer rest } : Link).acts r
        ((s.ends r).handleInboundPqControlFrame L frame coins nonce now write)) p' := by
  have hlinked := h.linked r
  rw [head] at hlinked
  have hrun := hlinked.handle hA hK (h.abs r.peer) (h.abs r) hexpected clock coins nonce
  obtain ⟨hthrown, p', hnew⟩ := h.transition r hlinked.drop write (h.clocks r) hrun
  rw [Orchestrator.handleInboundPqControlFrame_of_transition
    (hlinked.frame_length (h.abs r.peer) (h.abs r)) rfl hthrown]
  refine ⟨rfl, p', ?_⟩
  simp only [Link.acts, upd_peer_self]
  exact hnew

/-- Every step keeps the invariant, as long as the ACKs that are handled are expected. -/
theorem Invariant.step (hA : L.AeadLaws) (hK : L.KemLaws) {s s' : Link}
    (h : ∃ p, Invariant L E s p) (hstep : Step L (AckExpected L) s s') :
    ∃ p, Invariant L E s' p := by
  obtain ⟨p, h⟩ := h
  cases hstep with
  | tick r clock inboundBlocked quiescent => exact h.tick r clock inboundBlocked quiescent
  | transition r coins nonce write => exact h.tickTransition r coins nonce write
  | handle r head admitted coins nonce clock write =>
    exact (h.handle hA hK r head admitted coins nonce clock write).2
  | ignore r head failed =>
    have hlinked := h.linked r
    rw [head] at hlinked
    have hnew := h.update r (h.abs r) (h.keys r) (h.clocks r) (h.failed r) hlinked.drop
    rw [upd_same, show s.wire r = upd s.wire r.peer _ r from (upd_peer_self ..).symm, upd_same]
      at hnew
    exact ⟨_, hnew⟩

/-! ## Runs -/

theorem Invariant.start {root : Bytes} (h : Start E root s) :
    Invariant L E s (fun _ => startParty root) := by
  have hlive : ∀ r, Abs L E r (s.live r) (startParty root) ∧ (s.live r).activeReceiveKeys = .empty := by
    intro r
    obtain ⟨-, -, -, rootSuite, now, hnew⟩ := h r
    exact Abs.start hnew
  have hshape : ∀ a b, E.first = a → PhaseShape L E a b (viewOf (s.live a)) (viewOf (s.live b))
      (startParty root) (startParty root) (s.wire a) (s.wire b) := by
    intro a b hfirst
    refine .rest hfirst rfl rfl rfl rfl ?_ ?_
    · rw [(h a).1]
      exact fun _ hmem => absurd hmem List.not_mem_nil
    · rw [(h b).1]
      exact fun _ hmem => absurd hmem List.not_mem_nil
  refine ⟨fun r => (hlive r).1, fun r => ?_, fun r => ?_, fun r => .inl (h r).2.2.1, fun r => ?_⟩
  · rw [(hlive r).2]
    exact ⟨fun _ hmem => absurd hmem List.not_mem_nil, Nat.zero_le _⟩
  · rw [(h r).2.1]
    rintro _ ⟨⟩
  · rcases Role.eq_or_eq_peer r E.first with hfirst | hfirst
    · exact .inr (hshape r r.peer hfirst)
    · exact .inl (hshape r.peer r hfirst)

/-- An ACK that is not expected fails the edge. -/
theorem handle_unexpected_ack {o : Orchestrator} {frame : Bytes} (hwf : o.edge.live.WellFormed)
    (hopen : o.failed = none) (hunexpected : ¬ AckExpected L o.edge.live frame) (coins : Bytes)
    (nonce : Nonce) {now : Nat} (clock : now ≤ MAX_TIME_VALUE) (write : Write) :
    (o.handleInboundPqControlFrame L frame coins nonce now write).1.failed =
      some (if frame.length = WIRE_CHUNK_FRAME_LEN then .forked else .malformed) := by
  unfold Orchestrator.handleInboundPqControlFrame
  by_cases hlen : frame.length = WIRE_CHUNK_FRAME_LEN
  · rw [if_neg (not_not_intro hlen), if_pos hlen]
    unfold AckExpected at hunexpected
    push Not at hunexpected
    obtain ⟨hadvance, record, hopens, hack, hbox⟩ := hunexpected
    have hfresh : Fresh L o.edge.live frame now record :=
      ⟨hlen, Nat.le_trans clock (by decide), fun hoffer => hbox hoffer.2, hadvance, hopens⟩
    have hrun : (acceptControlFrame L frame coins nonce now).run o.edge.live =
        .error (failure "unexpected PQ ADVANCE acknowledgement") o.edge.live := by
      rw [acceptControlFrame, acceptControlFrameWith_fresh hfresh, if_pos hack]
      unfold acceptAcknowledgement
      rw [run_get_bind, run_ensure_bind, if_neg hbox]
    simp only [mutatePqDurably_of_error hwf (inbound_of_error hrun) write]
    unfold Orchestrator.failEdgeOnce
    simp only [finalState, hopen]
  · rw [if_pos hlen, if_neg hlen]
    unfold Orchestrator.failEdgeOnce
    simp only [hopen]

/-- Along every run whose handled ACKs are expected, no edge is failed but for an exhausted
retry budget; and the next frame fails its receiver exactly when it is an unexpected ACK. -/
theorem edge_fails_iff_ack_unexpected (hA : L.AeadLaws) (hK : L.KemLaws) {root : Bytes}
    {s s' : Link} (hstart : Start E root s) (hrun : Runs (Step L (AckExpected L)) s s') :
    (∀ r, (s'.ends r).failed = none ∨ (s'.ends r).failed = some .exhausted) ∧
    ∀ r frame rest, s'.wire r.peer = frame :: rest → (s'.ends r).failed = none →
      ∀ coins nonce now write, now ≤ MAX_TIME_VALUE →
        (((s'.ends r).handleInboundPqControlFrame L frame coins nonce now write).1.failed = none ↔
          AckExpected L (s'.live r) frame) := by
  obtain ⟨p, h⟩ := @Runs.invariant _ (Step L (AckExpected L)) (fun s => ∃ p, Invariant L E s p)
    (fun _ _ h hstep => Invariant.step hA hK h hstep) _ _ ⟨_, .start hstart⟩ hrun
  refine ⟨h.failed, fun r frame rest head hopen coins nonce now write clock => ⟨?_, ?_⟩⟩
  · intro hnone
    by_contra hunexpected
    rw [handle_unexpected_ack (h.abs r).wf hopen hunexpected coins nonce clock write] at hnone
    cases hnone
  · intro hexpected
    exact (h.handle hA hK r head hexpected coins nonce clock write).1.trans hopen

/-! ## A second ACK -/

/-- Two ends that are not busy and not failed, with their live runtimes and the frames in
flight. -/
structure At (s : Link) (live : Role → SparsePqHealingState) (wire : Role → List Bytes) : Prop where
  live : ∀ r, s.live r = live r
  busy : ∀ r, (s.ends r).busy = none
  failed : ∀ r, (s.ends r).failed = none
  wire : s.wire = wire

/-- Two constructed ends. -/
def startLink (E : Edge) (root : Bytes) : Link where
  ends r := ⟨⟨startRuntime E root 0 r, checkpointOf (startRuntime E root 0 r)⟩, none, none⟩
  wire _ := []

theorem start_startLink {root : Bytes} (hbinding : E.binding.length = 32)
    (hroot : root.length = 32) : Start E root (startLink E root) :=
  fun r => ⟨rfl, rfl, rfl, _, 0, new_startRuntime hbinding hroot (Nat.zero_le _) r⟩

theorem at_startLink (E : Edge) (root : Bytes) :
    At (startLink E root) (startRuntime E root 0) (fun _ => []) :=
  ⟨fun _ => rfl, fun _ => rfl, fun _ => rfl, rfl⟩

section Script

variable {live : Role → SparsePqHealingState} {wire : Role → List Bytes}
  {R' : SparsePqHealingState} (admits : SparsePqHealingState → Bytes → Prop)

/-- One end becomes `o` and the frames in flight change. -/
theorem At.update (h : At s live wire) (r : Role) {o : Orchestrator} {wire' : Role → List Bytes}
    (hlive : o.edge.live = R') (hbusy : o.busy = none) (hfailed : o.failed = none) :
    At ⟨upd s.ends r o, wire'⟩ (upd live r R') wire' := by
  refine ⟨fun q => ?_, fun q => ?_, fun q => ?_, rfl⟩
  all_goals
    unfold upd
    by_cases hq : q = r
  · simp only [Link.live, if_pos hq]
    exact hlive
  · simp only [Link.live, if_neg hq]
    exact h.live q
  · simp only [if_pos hq]
    exact hbusy
  · simp only [if_neg hq]
    exact h.busy q
  · simp only [if_pos hq]
    exact hfailed
  · simp only [if_neg hq]
    exact h.failed q

/-- A tick that sends a frame. -/
theorem At.ticks (h : At s live wire) (r : Role) {action : TickAction}
    (clock : action.now ≤ MAX_TIME_VALUE)
    (hchoice : tickChoice (live r) action.now false true = .act action) {coins : Bytes}
    {nonce : Nonce} (hwf : (live r).WellFormed)
    (hrun : (action.mutation L coins nonce).run (live r) = .ok ⟨some f, true⟩ R')
    (hwf' : R'.WellFormed) (hkeys : KeysFit R'.activeReceiveKeys) (hsame : SameEdge R' (live r)) :
    ∃ s', Runs (Step L admits) s s' ∧ At s' (upd live r R') (upd wire r (wire r ++ [f])) := by
  have hr := h.live r
  refine ⟨_, .tail (.single (.tick r clock false true)) (.transition r coins nonce .done), ?_⟩
  have hticked : (s.ends r).tickPqHealing action.now false true =
      { s.ends r with busy := some action } := by
    have hguard : ¬ ((s.ends r).failed.isSome ∨ (s.ends r).busy.isSome) := by
      simp [h.failed r, h.busy r]
    unfold Orchestrator.tickPqHealing
    rw [if_neg hguard, show (s.ends r).edge.live = live r from hr, hchoice]
  have hresult : (mutatePqDurably (action.mutation L coins nonce) .done).run (s.ends r).edge =
      .ok (some f) ⟨R', checkpointOf R'⟩ := by
    rw [← hr] at hwf hrun hsame
    exact @mutatePqDurably_of_ok (s.ends r).edge _ _ hwf _ hrun hwf' hkeys hsame .done
  have hacted : ((s.acts r ((s.ends r).tickPqHealing action.now false true, [])).ends
      r).tickTransition L coins nonce .done =
        ({ edge := ⟨R', checkpointOf R'⟩, busy := none, failed := (s.ends r).failed }, [f]) := by
    simp only [Link.acts, upd_self, hticked, Orchestrator.tickTransition, hresult]
    rfl
  rw [hacted]
  have hends : upd (upd s.ends r ((s.ends r).tickPqHealing action.now false true)) r
      ⟨⟨R', checkpointOf R'⟩, none, (s.ends r).failed⟩ =
        upd s.ends r ⟨⟨R', checkpointOf R'⟩, none, (s.ends r).failed⟩ := by
    funext q
    unfold upd
    split <;> rfl
  have hwire : upd (upd s.wire r (s.wire r ++ [])) r (upd s.wire r (s.wire r ++ []) r ++ [f]) =
      upd wire r (wire r ++ [f]) := by
    rw [List.append_nil, upd_same, h.wire]
  simp only [Link.acts, hends, hwire]
  exact h.update r rfl rfl (h.failed r)

/-- A frame that is handled without a failure. -/
theorem At.handles (h : At s live wire) (r : Role) {rest : List Bytes}
    (head : wire r.peer = f :: rest) (admitted : admits (live r) f) {coins : Bytes} {nonce : Nonce}
    {now : Nat} (clock : now ≤ MAX_TIME_VALUE) {outcome : PqOutcome}
    (hlen : f.length = WIRE_CHUNK_FRAME_LEN) (hwf : (live r).WellFormed)
    (hrun : (inbound L f coins nonce now).run (live r) = .ok outcome R') (hwf' : R'.WellFormed)
    (hkeys : KeysFit R'.activeReceiveKeys) (hsame : SameEdge R' (live r))
    (hpersist : outcome.persist = false → R' = live r) :
    ∃ s', Runs (Step L admits) s s' ∧
      At s' (upd live r R') (upd (upd wire r.peer rest) r (wire r ++ outcome.dispatch.toList)) := by
  have hr := h.live r
  have hhead : s.wire r.peer = f :: rest := h.wire ▸ head
  refine ⟨_, .single (.handle r hhead (hr ▸ admitted) coins nonce clock .done), ?_⟩
  have hresult : (mutatePqDurably (inbound L f coins nonce now) .done).run (s.ends r).edge =
      transitionResult (s.ends r).edge outcome R' .done := by
    rw [← hr] at hwf hrun hsame
    exact @mutatePqDurably_of_ok (s.ends r).edge _ _ hwf _ hrun hwf' hkeys hsame .done
  have hok : ∃ edge, transitionResult (s.ends r).edge outcome R' .done = .ok outcome.dispatch edge ∧
      edge.live = R' := by
    unfold transitionResult
    split
    · exact ⟨_, rfl, rfl⟩
    · rename_i hp
      exact ⟨_, rfl, hr.trans (hpersist (eq_false_of_ne_true hp)).symm⟩
  obtain ⟨edge, hedge, hlive⟩ := hok
  rw [hedge] at hresult
  rw [Orchestrator.handleInboundPqControlFrame_of_transition hlen hresult (by rintro _ _ ⟨⟩)]
  have hdispatch : dispatchOf (.ok outcome.dispatch edge) = outcome.dispatch.toList := by
    cases outcome.dispatch <;> rfl
  simp only [Link.acts, upd_peer_self, h.wire, hdispatch]
  exact h.update r hlive (h.busy r) (h.failed r)

end Script

/-- The initiator offers a day after the start. -/
theorem sample_first_offer (admits : SparsePqHealingState → Bytes → Prop) :
    ∃ s f A o, Runs (Step .transparent admits) (startLink sampleEdge sampleRoot) s ∧
      At s (upd (startRuntime sampleEdge sampleRoot 0) .initiator A)
        (upd (fun _ => []) .initiator [f]) ∧
      Abs .transparent sampleEdge .initiator A ((startParty sampleRoot).withPhase (.offering o)) ∧
      Means .transparent sampleEdge .initiator f ⟨0, sampleRoot, .offer o⟩ ∧
      KeysFit A.activeReceiveKeys ∧ A.lastInboundOfferFrame = none ∧
      A.lastInboundAdvanceFrame = none := by
  have hsafe : PQ_HEAL_AFTER_MS ≤ MAX_SAFE_INTEGER := by decide
  have hclock : PQ_HEAL_AFTER_MS ≤ MAX_TIME_VALUE := by decide
  have hstart := sample_abs .initiator
  obtain ⟨pk, sk, ho⟩ := sample_offered []
  obtain ⟨o, -, -, habs, hmeans⟩ := @Abs.offer _ _ _ _ _ hstart [] pk sk sampleNonce _ ho hsafe
  have hrun := @offer_run _ _ hstart.wf [] pk sk sampleNonce _ ho hsafe
  have habs' := @Abs.dispatched _ _ _ _ _ habs _ PQ_HEAL_AFTER_MS rfl (Nat.succ_pos _) hclock
  have hkeys : KeysFit .empty := ⟨fun _ hmem => absurd hmem List.not_mem_nil, Nat.zero_le _⟩
  have hchoice : tickChoice (startRuntime sampleEdge sampleRoot 0 .initiator) PQ_HEAL_AFTER_MS
      false true = .act (.offer PQ_HEAL_AFTER_MS) := by
    unfold tickChoice
    rw [sample_due]
    rfl
  obtain ⟨s, hruns, hat⟩ := @At.ticks .transparent _ _ _ _ _ admits
    (at_startLink sampleEdge sampleRoot) .initiator (.offer PQ_HEAL_AFTER_MS) hclock hchoice []
    sampleNonce hstart.wf hrun habs'.wf hkeys ⟨rfl, rfl, rfl, rfl⟩
  exact ⟨s, _, _, o, hruns, hat, habs', hmeans, hkeys, rfl, rfl⟩

/-- An ADVANCE is sent again while its ACK is on the way. Its receiver answers both copies, the first
ACK ends the wait of the sender, and the second is not expected. -/
theorem second_ack_under_way (admits : SparsePqHealingState → Bytes → Prop)
    (hadmits : ∀ R f, AckExpected .transparent R f → admits R f) :
    ∃ s ack, Runs (Step .transparent admits) (startLink sampleEdge sampleRoot) s ∧
      (∀ r, (s.ends r).failed = none ∧ (s.live r).pendingAttempts < PQ_HEAL_MAX_RETRIES) ∧
      s.wire .initiator = [ack] ∧ ack.length = WIRE_CHUNK_FRAME_LEN ∧ (s.live .responder).WellFormed ∧
      ¬ AckExpected .transparent (s.live .responder) ack := by
  have hA := LibCrypto.transparent_aeadLaws
  have hK := LibCrypto.transparent_kemLaws
  have hkeys : KeysFit .empty := ⟨fun _ hmem => absurd hmem List.not_mem_nil, Nat.zero_le _⟩
  have hclock : PQ_HEAL_AFTER_MS ≤ MAX_TIME_VALUE := by decide
  have hsafe : PQ_HEAL_AFTER_MS ≤ MAX_SAFE_INTEGER := by decide
  -- the OFFER
  obtain ⟨s₁, f, A, o, hrun₁, hat₁, hA₁, hf, hkeysA, hnoOffer, hnoAdvance⟩ :=
    sample_first_offer admits
  -- the ADVANCE that answers it
  have hB₀ := sample_abs .responder
  obtain ⟨offer, ct, ss, next, hacc₂, habs₂⟩ := hB₀.takes_offer hA hK hf rfl rfl
    (by rintro ⟨⟨⟩, -⟩) (by rintro ⟨⟨⟩, -⟩) hsafe [] sampleNonce
  have hB₂ := @Abs.dispatched _ _ _ _ _ habs₂ _ PQ_HEAL_AFTER_MS rfl (Nat.succ_pos _) hclock
  obtain ⟨s₂, hrun₂, hat₂⟩ := hat₁.handles admits .responder rfl
    (hadmits _ _ (ackExpected_of_means hA hB₀ hf (fun _ => rfl) (by rintro ⟨⟩))) hclock
    hf.length hB₀.wf (inbound_run hB₀.wf hacc₂) hB₂.wf hkeys ⟨rfl, rfl, rfl, rfl⟩ (by rintro ⟨⟩)
  -- the same ADVANCE again, five seconds later
  have hclock₃ : PQ_HEAL_AFTER_MS + PQ_HEAL_RETRY_MS ≤ MAX_TIME_VALUE := by decide
  have hsafe₃ : PQ_HEAL_AFTER_MS + PQ_HEAL_RETRY_MS ≤ MAX_SAFE_INTEGER := by decide
  have hB₃ := @Abs.dispatched _ _ _ _ _ hB₂ _ (PQ_HEAL_AFTER_MS + PQ_HEAL_RETRY_MS) rfl
    (Nat.succ_lt_succ (Nat.succ_pos _)) hclock₃
  have hchoice₃ : ∀ (R : SparsePqHealingState) (outbox : PqHealingOutbox), R.outbox = some outbox →
      outbox.nextRetryAt = PQ_HEAL_AFTER_MS + PQ_HEAL_RETRY_MS → outbox.attempts = 1 →
      tickChoice R (PQ_HEAL_AFTER_MS + PQ_HEAL_RETRY_MS) false true =
        .act (.retry (PQ_HEAL_AFTER_MS + PQ_HEAL_RETRY_MS)) := by
    intro R outbox hob hdeadline hattempts
    refine tickChoice_retry hob (Nat.le_of_eq hdeadline) ?_ false true
    rw [hattempts]
    decide
  obtain ⟨s₃, hrun₃, hat₃⟩ := @At.ticks .transparent _ _ _ _ _ admits hat₂ .responder
    (.retry (PQ_HEAL_AFTER_MS + PQ_HEAL_RETRY_MS)) hclock₃
    (hchoice₃ _ _ rfl rfl rfl) [] sampleNonce hB₂.wf (retry_run rfl hsafe₃ (Nat.succ_lt_succ (Nat.succ_pos _))) hB₃.wf hkeys
    ⟨rfl, rfl, rfl, rfl⟩
  -- both copies are answered with the same ACK
  obtain ⟨k, hk, hg⟩ := hB₃.pending_advance rfl rfl
  obtain rfl : k = 0 := Nat.succ.inj hk
  obtain ⟨advance, ss', hacc₄, hA₄⟩ := hA₁.takes_advance hA hK hg rfl
    (fun h => absurd (hnoOffer.symm.trans h.1) (by simp))
    (fun h => absurd (hnoAdvance.symm.trans h.1) (by simp)) hsafe₃ [] sampleNonce
  obtain ⟨s₄, hrun₄, hat₄⟩ := hat₃.handles admits .initiator rfl
    (hadmits _ _ (ackExpected_of_means hA hA₁ hg (fun _ => rfl) (by rintro ⟨⟩))) hclock₃
    hg.length hA₁.wf (inbound_run hA₁.wf hacc₄) hA₄.wf hkeysA ⟨rfl, rfl, rfl, rfl⟩ (by rintro ⟨⟩)
  obtain ⟨s₅, hrun₅, hat₅⟩ := hat₄.handles admits .initiator rfl
    (hadmits _ _ fun hnew => absurd ⟨rfl, rfl⟩ hnew) hclock₃
    hg.length hA₄.wf (@inbound_run _ _ _ hA₄.wf _ [] sampleNonce _ _
      (.repeatedAdvance hg.length hsafe₃ (by rintro ⟨⟨⟩, -⟩) ⟨rfl, rfl⟩ rfl)) hA₄.wf hkeysA
    ⟨rfl, rfl, rfl, rfl⟩ (fun _ => rfl)
  -- the first ACK ends the wait, the second is refused
  have hack := (hA₄.cached _ rfl).2
  obtain ⟨hacc₆, hB₆⟩ := hB₃.takes_ack hA hack rfl (fun h => hf.ne hack Nat.zero_ne_one (Option.some.inj h.1))
    (by rintro ⟨⟨⟩, -⟩) hsafe₃ [] sampleNonce
  obtain ⟨s₆, hrun₆, hat₆⟩ := hat₅.handles admits .responder rfl (hadmits _ _ fun _ _ _ _ => rfl) hclock₃
    hack.length hB₃.wf (inbound_run hB₃.wf hacc₆) hB₆.wf hkeys ⟨rfl, rfl, rfl, rfl⟩ (by rintro ⟨⟩)
  refine ⟨s₆, _, hrun₁.trans (hrun₂.trans (hrun₃.trans (hrun₄.trans (hrun₅.trans hrun₆)))), fun r => ?_,
    congrFun hat₆.wire .initiator, hack.length, hat₆.live .responder ▸ hB₆.wf, ?_⟩
  · refine ⟨hat₆.failed r, ?_⟩
    rw [hat₆.live r]
    cases r
    · exact Nat.succ_pos _
    · exact Nat.succ_pos _
  · rw [hat₆.live .responder]
    intro hexpected
    obtain ⟨o', ho'⟩ := awaiting_of_ackExpected hA hB₆ hack (by rintro ⟨⟨⟩, -⟩) hexpected
    cases ho'

/-- The second ACK is the next frame, after an OFFER, two copies of an ADVANCE and an ACK: it fails its
receiver, and is not expected. -/
theorem edge_fails_iff_ack_unexpected_second :
    ∃ s ack, Start sampleEdge sampleRoot (startLink sampleEdge sampleRoot) ∧
      Runs (Step .transparent (AckExpected .transparent)) (startLink sampleEdge sampleRoot) s ∧
      s.wire .initiator = [ack] ∧ ¬ AckExpected .transparent (s.live .responder) ack ∧
      ((s.ends .responder).handleInboundPqControlFrame .transparent ack [] sampleNonce 0 .done).1.failed ≠ none := by
  obtain ⟨s, ack, hrun, hopen, hwire, -, -, hunexpected⟩ := second_ack_under_way _ fun _ _ h => h
  have hfails := (edge_fails_iff_ack_unexpected LibCrypto.transparent_aeadLaws LibCrypto.transparent_kemLaws
    (start_startLink rfl rfl) hrun).2 .responder ack [] hwire (hopen .responder).1 [] sampleNonce 0 .done
    (Nat.zero_le _)
  exact ⟨s, ack, start_startLink rfl rfl, hrun, hwire, hunexpected, fun hnone => hunexpected (hfails.mp hnone)⟩

/-- The second ACK fails the edge of the sender, whose retry budget is far from exhausted. -/
theorem second_ack_fails_edge :
    ∃ s s', Start sampleEdge sampleRoot (startLink sampleEdge sampleRoot) ∧
      Runs (Step .transparent fun _ _ => True) (startLink sampleEdge sampleRoot) s ∧
      (∀ r, (s.ends r).failed = none ∧ (s.live r).pendingAttempts < PQ_HEAL_MAX_RETRIES) ∧
      Step .transparent (fun _ _ => True) s s' ∧ (s'.ends .responder).failed = some .forked := by
  have hclock : PQ_HEAL_AFTER_MS ≤ MAX_TIME_VALUE := by decide
  obtain ⟨s, ack, hrun, hopen, hwire, hlength, hwf, hunexpected⟩ :=
    second_ack_under_way (fun _ _ => True) fun _ _ _ => trivial
  refine ⟨s, _, start_startLink rfl rfl, hrun, hopen, .handle .responder hwire trivial [] sampleNonce hclock .done, ?_⟩
  show ((Orchestrator.handleInboundPqControlFrame _ _ _ _ _ _ _).1).failed = _
  rw [handle_unexpected_ack hwf (hopen .responder).1 hunexpected [] sampleNonce hclock .done, if_pos hlength]

end Retransmission

end P2Party
