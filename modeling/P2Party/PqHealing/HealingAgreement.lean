import P2Party.PqHealing.Delivery

/-!
# Agreement of two edges that heal durably

Two ends of an edge start from one root and run durable transitions: offers,
retransmissions and frames of the peer. Any frame ever sent may be delivered, any
number of times and in any order, or never. A write may fail, with or without
effect on the row, and a crash puts the last durable checkpoint in place of the
live runtime.

- `System`, `Step`: the two edges and what they sent;
- `RuntimesAgree`: the epochs differ by at most one, equal epochs have equal roots, and
  two idle ends at one epoch have opposite turns and mirrored counters;
- `Invariant`: each live runtime and each durable checkpoint stands for a party
  of the abstract protocol, the durable one at most a step ahead, and every
  choice of live or durable on both ends is a `Pair`;
- `Invariant.step`: every step keeps it;
- `live_edges_agree`: agreement along every run.
-/

namespace P2Party

open Base PqHealing PqControlFrame PqHealingRuntime PqHealingOrchestrator Healing HealingRefinement

namespace HealingAgreement

/-! ## The system -/

/-- The two edges, and every control frame each of them ever sent. -/
structure System where
  edges : Role → LiveEdge
  sent : Role → List Bytes

/-- The system after a transition of party `r`. -/
def System.after (s : System) (r : Role)
    (result : EStateM.Result PqFailure LiveEdge (Option Bytes)) : System where
  edges := upd s.edges r (finalState result)
  sent := upd s.sent r (s.sent r ++ dispatchOf result)

/-- The mutations party `r` may run: a retransmission, an offer, or the receipt of
any frame its peer ever sent. Clocks are values of `Date.now()`. -/
inductive Allowed (L : LibCrypto) (s : System) (r : Role) : RuntimeM PqOutcome → Prop
  | retry {now : Nat} (clock : now ≤ MAX_TIME_VALUE) : Allowed L s r (retry now)
  | offer {coins : Bytes} {nonce : Nonce} {now : Nat} (clock : now ≤ MAX_TIME_VALUE) :
      Allowed L s r (offer L coins nonce now)
  | deliver {frame coins : Bytes} {nonce : Nonce} {now : Nat} (clock : now ≤ MAX_TIME_VALUE)
      (sent : frame ∈ s.sent r.peer) : Allowed L s r (inbound L frame coins nonce now)

/-- What `restore` is called with after a crash of party `r`. -/
def restoreOptions (E : Edge) (r : Role) : RestoreSparsePqHealingOptions where
  pqMode := E.pqMode
  rootSuite := roomPqModeToRootSuite E.pqMode
  binding := E.binding
  amInitiator := decide (r = .initiator)

/-- The steps of the system. Application traffic is not part of healing, but it
writes checkpoints of the live runtime, changes the active receive keys and
counts messages. -/
inductive Step (L : LibCrypto) (E : Edge) : System → System → Prop
  | transition {s : System} (r : Role) {mutate : RuntimeM PqOutcome} (h : Allowed L s r mutate)
      (write : Write) : Step L E s (s.after r ((mutatePqDurably mutate write).run (s.edges r)))
  | traffic {s : System} (r : Role) {keys : OrdMap String Bytes} (fits : KeysFit keys)
      {messages : Nat} (counted : messages ≤ MAX_SAFE_INTEGER) {row : Bytes}
      (h : (s.edges r).live.serialize keys = .ok row) :
      Step L E s { s with
        edges := upd s.edges r {
          live := { (s.edges r).live with
            activeReceiveKeys := keys
            messagesSinceHealing := messages }
          durable := row } }
  | crash {s : System} (r : Role) {live : SparsePqHealingState}
      (h : SparsePqHealingState.restore (s.edges r).durable (restoreOptions E r) = .ok live) :
      Step L E s { s with edges := upd s.edges r { s.edges r with live } }

/-- The start: two runtimes constructed with one mode, suite, binding and root, opposite roles
and opposite turns, their first checkpoints durable, and nothing sent. -/
def Start (E : Edge) (root : Bytes) (s : System) : Prop :=
  ∀ r, s.sent r = [] ∧ ∃ rootSuite now,
    SparsePqHealingState.new E.pqMode rootSuite E.binding root
      (if E.first = r then .local else .remote) (decide (r = .initiator)) now =
        .ok (s.edges r).live ∧
    (s.edges r).live.serialize (s.edges r).live.activeReceiveKeys = .ok (s.edges r).durable

/-! ## Agreement -/

/-- What two runtimes of one edge must agree on. -/
structure RuntimesAgree (a b : SparsePqHealingState) : Prop where
  epochs : a.epoch ≤ b.epoch + 1 ∧ b.epoch ≤ a.epoch + 1
  roots : a.epoch = b.epoch → a.machine.rootKey = b.machine.rootKey ∧ a.messageRoot = b.messageRoot
  turns : a.epoch = b.epoch → a.machine.phase = .idle → b.machine.phase = .idle →
    Xor (a.machine.nextOfferer = .local) (b.machine.nextOfferer = .local)
  counters : a.epoch = b.epoch → a.machine.phase = .idle → b.machine.phase = .idle →
    a.machine.localCounter = b.machine.remoteCounter ∧
      a.machine.remoteCounter = b.machine.localCounter

variable {L : LibCrypto} {E : Edge}

/-- Runtimes that stand for a `Pair` agree. -/
theorem runtimesAgree_of_pair {r : Role} {a b : SparsePqHealingState} {x y : EdgeParty}
    (ha : Abs L E r a x) (hb : Abs L E r.peer b y) (hpair : Pair x y) : RuntimesAgree a b := by
  have hae : a.epoch = x.epoch := ha.epoch
  have hbe : b.epoch = y.epoch := hb.epoch
  refine ⟨?_, fun heq => ?_, fun heq _ _ => ?_, fun heq _ _ => ?_⟩
  · rw [hae, hbe]
    exact hpair.epochs
  · have hroot : a.machine.rootKey = b.machine.rootKey := by
      rw [ha.root, hb.root]
      exact hpair.roots_eq (hae.symm.trans (heq.trans hbe))
    exact ⟨hroot, by rw [ha.wf.messageRoot_eq, hb.wf.messageRoot_eq, hroot]⟩
  · have hxy : x.epoch = y.epoch := hae.symm.trans (heq.trans hbe)
    rw [ha.turn, hb.turn, ← hxy]
    rcases Role.eq_or_eq_peer r (owner E.first x.epoch) with how | how
    · rw [how, if_pos rfl, if_neg (Role.ne_peer r)]
      exact .inl ⟨rfl, by simp⟩
    · rw [how, if_pos rfl, if_neg (Role.peer_ne r)]
      exact .inr ⟨rfl, by simp⟩
  · rw [ha.localCounter, ha.remoteCounter, hb.localCounter, hb.remoteCounter]
    have hxy : x.epoch = y.epoch := hae.symm.trans (heq.trans hbe)
    exact ⟨hxy, hxy⟩

/-! ## The invariant -/

/-- What one edge holds stands for parties of the protocol: `x` the live runtime, `d` the
durable checkpoint, at most one step ahead of it. -/
structure Holds (L : LibCrypto) (E : Edge) (r : Role) (edge : LiveEdge) (x d : EdgeParty) :
    Prop where
  live : Abs L E r edge.live x
  keys : KeysFit edge.live.activeReceiveKeys
  durable : ∃ R keys, edge.durable = encodeCheckpoint R keys ∧ Abs L E r R d ∧ KeysFit keys
  ahead : d = x ∨ LocalStep E.first r x d

/-- The states party `r` may be in now or after a crash. -/
def Stands (live durable : Role → EdgeParty) (r : Role) (x : EdgeParty) : Prop :=
  x = live r ∨ x = durable r

/-- The invariant of the system. -/
structure Invariant (L : LibCrypto) (E : Edge) (s : System) (live durable : Role → EdgeParty) :
    Prop where
  holds : ∀ r, Holds L E r (s.edges r) (live r) (durable r)
  sent : ∀ r, ∀ frame ∈ s.sent r, ∃ m, Means L E r frame m ∧ Sent E.first r (live r) m
  pairs : ∀ r x y, Stands live durable r x → Stands live durable r.peer y → Pair x y

variable {s : System} {live durable : Role → EdgeParty} {r : Role}

/-- What a party sent, its durable state has sent too. -/
theorem Invariant.sent_of_stands (h : Invariant L E s live durable) {x : EdgeParty} {m : EdgeMsg}
    (hx : Stands live durable r x) (hs : Sent E.first r (live r) m) : Sent E.first r x m := by
  rcases hx with rfl | rfl
  · exact hs
  · rcases (h.holds r).ahead with heq | hstep
    · rw [heq]
      exact hs
    · exact hs.step hstep

/-- Replacing one end of the edge. -/
theorem Invariant.replace (h : Invariant L E s live durable) (r : Role) {edge : LiveEdge}
    {x d : EdgeParty} {sent : List Bytes} (hholds : Holds L E r edge x d)
    (hsent : ∀ frame ∈ sent, ∃ m, Means L E r frame m ∧ Sent E.first r x m)
    (hpairs : ∀ y, Stands live durable r.peer y → Pair y x ∧ Pair y d) :
    Invariant L E ⟨upd s.edges r edge, upd s.sent r sent⟩ (upd live r x) (upd durable r d) := by
  refine ⟨fun q => ?_, fun q => ?_, fun q a b ha hb => ?_⟩
  · rcases Role.eq_or_eq_peer r q with rfl | rfl
    · simpa using hholds
    · simpa using h.holds r.peer
  · rcases Role.eq_or_eq_peer r q with rfl | rfl
    · simpa using hsent
    · simpa using h.sent r.peer
  · unfold Stands at ha hb
    rcases Role.eq_or_eq_peer r q with rfl | rfl
    · rw [upd_self, upd_self] at ha
      rw [upd_peer, upd_peer] at hb
      obtain ⟨hx, hd⟩ := hpairs b hb
      rcases ha with rfl | rfl
      · exact hx.symm
      · exact hd.symm
    · rw [upd_peer, upd_peer] at ha
      rw [Role.peer_peer, upd_self, upd_self] at hb
      obtain ⟨hx, hd⟩ := hpairs a ha
      rcases hb with rfl | rfl
      · exact hx
      · exact hd

/-! ## What a mutation does -/

/-- What a mutation of party `r`, at `x`, that returned did; `Q` are the states its
peer may be in. -/
structure Mutated (L : LibCrypto) (E : Edge) (r : Role) (Q : EdgeParty → Prop)
    (R : SparsePqHealingState) (x : EdgeParty) (outcome : PqOutcome) (R' : SparsePqHealingState)
    (x' : EdgeParty) : Prop where
  abs : Abs L E r R' x'
  step : x' = x ∨ LocalStep E.first r x x'
  pairs : ∀ y, Q y → Pair y x'
  sends : ∀ frame ∈ outcome.dispatch, ∃ m, Means L E r frame m ∧ Sent E.first r x' m
  unchanged : outcome.persist = false → x' = x
  keys : R'.activeReceiveKeys = R.activeReceiveKeys

section Mutations

variable {Q : EdgeParty → Prop} {R : SparsePqHealingState} {x : EdgeParty}

theorem retry_mutated (h : Abs L E r R x) (hpairs : ∀ y, Q y → Pair y x) {now : Nat}
    (clock : now ≤ MAX_TIME_VALUE) :
    (∃ e R', (retry now).run R = .error e R') ∨
      ∃ outcome R' x', (retry now).run R = .ok outcome R' ∧ Mutated L E r Q R x outcome R' x' := by
  rcases @retry_cases R now with ⟨e, he⟩ | ⟨outbox, hob, hnow, hattempts⟩
  · exact .inl ⟨e, R, he⟩
  · refine .inr ⟨_, _, x, retry_run hob hnow hattempts, h.dispatched hob hattempts clock, .inl rfl,
      hpairs, ?_, fun _ => rfl, rfl⟩
    rintro _ ⟨⟩
    exact h.pending hob

theorem offer_mutated (h : Abs L E r R x) (hpairs : ∀ y, Q y → Pair y x) {coins : Bytes}
    {nonce : Nonce} {now : Nat} (clock : now ≤ MAX_TIME_VALUE) :
    (∃ e R', (offer L coins nonce now).run R = .error e R') ∨
      ∃ outcome R' x', (offer L coins nonce now).run R = .ok outcome R' ∧
        Mutated L E r Q R x outcome R' x' := by
  have hsafe : now ≤ MAX_SAFE_INTEGER := Nat.le_trans clock (by decide)
  rcases @offer_cases L R coins nonce now with ⟨e, he⟩ | ⟨pk, sk, ho⟩
  · exact .inl ⟨e, R, he⟩
  · obtain ⟨o, hidle, hturn, habs, hmeans⟩ := @Abs.offer L E r R x h coins pk sk nonce now ho hsafe
    refine .inr ⟨_, _, _, offer_run h.wf ho hsafe, habs.dispatched rfl (Nat.succ_pos _) clock,
      .inr (.offer o hidle hturn), fun y hy => (hpairs y hy).offer hidle o, ?_, ?_, rfl⟩
    · rintro _ ⟨⟩
      exact ⟨_, hmeans, sent_offer hturn⟩
    · rintro ⟨⟩

theorem inbound_mutated (hA : L.AeadLaws) (hK : L.KemLaws) (h : Abs L E r R x)
    (hpairs : ∀ y, Q y → Pair y x) {frame coins : Bytes} {nonce : Nonce} {now : Nat}
    (clock : now ≤ MAX_TIME_VALUE) {m : EdgeMsg} (hm : Means L E r.peer frame m)
    (hsent : ∀ y, Q y → Sent E.first r.peer y m) {y₀ : EdgeParty} (hy₀ : Q y₀) :
    (∃ e R', (inbound L frame coins nonce now).run R = .error e R') ∨
      ∃ outcome R' x', (inbound L frame coins nonce now).run R = .ok outcome R' ∧
        Mutated L E r Q R x outcome R' x' := by
  have hroot : m.epoch = x.epoch → m.root = x.root :=
    (hpairs y₀ hy₀).root_of_sent (hsent y₀ hy₀)
  have houtcome := h.accept hA hK hm hroot coins nonce now
  have hkeys := @acceptControlFrame_keys L R frame coins nonce now h.wf
  cases hrun : (acceptControlFrame L frame coins nonce now).run R with
  | error e R' => exact .inl ⟨e, R', inbound_of_error hrun⟩
  | ok result R' =>
    rw [hrun] at houtcome
    have hsame := hkeys hrun
    rcases inbound_cases hrun with ⟨e, he⟩ | hin | ⟨outbox, hchanged, hob, -, hattempts, hin⟩
    · exact .inl ⟨e, R', he⟩
    · cases houtcome with
      | repeated means sent =>
        refine .inr ⟨_, _, x, hin, h, .inl rfl, hpairs, ?_, fun _ => rfl, rfl⟩
        rintro _ ⟨⟩
        exact ⟨_, means, sent⟩
      | received receives abs sends =>
        refine .inr ⟨_, _, _, hin, abs, .inr receives.localStep,
          fun y hy => (hpairs y hy).receive (hsent y hy) receives, sends, ?_, hsame⟩
        rintro ⟨⟩
    · cases houtcome with
      | repeated means sent => cases hchanged
      | received receives abs sends =>
        refine .inr ⟨_, _, _, hin, abs.dispatched hob hattempts clock, .inr receives.localStep,
          fun y hy => (hpairs y hy).receive (hsent y hy) receives, sends, ?_, hsame⟩
        rintro ⟨⟩

end Mutations

/-- Every allowed mutation throws or does what the protocol allows. -/
theorem Allowed.mutated (hA : L.AeadLaws) (hK : L.KemLaws) (h : Invariant L E s live durable)
    {mutate : RuntimeM PqOutcome} (ha : Allowed L s r mutate) :
    (∃ e R', mutate.run (s.edges r).live = .error e R') ∨
      ∃ outcome R' x', mutate.run (s.edges r).live = .ok outcome R' ∧
        Mutated L E r (Stands live durable r.peer) (s.edges r).live (live r) outcome R' x' := by
  have hlive := (h.holds r).live
  have hpairs : ∀ y, Stands live durable r.peer y → Pair y (live r) :=
    fun y hy => (h.pairs r _ y (.inl rfl) hy).symm
  cases ha with
  | retry clock => exact retry_mutated hlive hpairs clock
  | offer clock => exact offer_mutated hlive hpairs clock
  | deliver clock sent =>
    obtain ⟨m, hmeans, hsent⟩ := h.sent r.peer _ sent
    exact inbound_mutated hA hK hlive hpairs clock hmeans
      (fun y hy => h.sent_of_stands hy hsent) (.inl rfl)

/-! ## Steps keep the invariant -/

theorem Invariant.transition (hA : L.AeadLaws) (hK : L.KemLaws) (h : Invariant L E s live durable)
    {mutate : RuntimeM PqOutcome} (ha : Allowed L s r mutate) (write : Write) :
    ∃ live' durable',
      Invariant L E (s.after r ((mutatePqDurably mutate write).run (s.edges r))) live' durable' := by
  have hr := h.holds r
  have hpairs : ∀ y, Stands live durable r.peer y → Pair y (live r) ∧ Pair y (durable r) :=
    fun y hy => ⟨(h.pairs r _ y (.inl rfl) hy).symm, (h.pairs r _ y (.inr rfl) hy).symm⟩
  have hsent := h.sent r
  rcases ha.mutated hA hK h with ⟨e, R', he⟩ | ⟨outcome, R', x', hok, hmut⟩
  · rw [mutatePqDurably_of_error hr.live.wf he]
    refine ⟨_, _, h.replace r hr ?_ hpairs⟩
    simpa [dispatchOf] using hsent
  · have hkeys : KeysFit R'.activeReceiveKeys := hmut.keys ▸ hr.keys
    rw [mutatePqDurably_of_ok hr.live.wf hok hmut.abs.wf hkeys (sameEdge_of_abs hr.live hmut.abs)]
    have hdispatch : ∀ edge, ∀ frame ∈ dispatchOf (.ok outcome.dispatch edge),
        ∃ m, Means L E r frame m ∧ Sent E.first r x' m := by
      intro edge frame hframe
      cases hd : outcome.dispatch with
      | none => simp [hd, dispatchOf] at hframe
      | some f =>
        simp only [hd, dispatchOf, List.mem_singleton] at hframe
        subst hframe
        exact hmut.sends frame hd
    -- the durable row the candidate was written to
    have hrow : ∃ R keys, checkpointOf R' = encodeCheckpoint R keys ∧ Abs L E r R x' ∧
        KeysFit keys := ⟨R', _, rfl, hmut.abs, hkeys⟩
    unfold transitionResult
    cases hpersist : outcome.persist with
    | false =>
      have hx := hmut.unchanged hpersist
      subst hx
      refine ⟨_, _, h.replace r hr ?_ hpairs⟩
      intro frame hframe
      rcases List.mem_append.mp hframe with hold | hnew
      · exact hsent frame hold
      · exact hdispatch _ frame hnew
    | true =>
      cases write with
      | lost =>
        refine ⟨_, _, h.replace r hr ?_ hpairs⟩
        simpa [dispatchOf] using hsent
      | late =>
        refine ⟨_, _, @Invariant.replace L E s live durable h r _ (live r) x' _
          ⟨hr.live, hr.keys, hrow, hmut.step⟩ ?_ fun y hy => ⟨(hpairs y hy).1, hmut.pairs y hy⟩⟩
        simpa [dispatchOf] using hsent
      | done =>
        refine ⟨_, _, @Invariant.replace L E s live durable h r _ x' x' _
          ⟨hmut.abs, hkeys, hrow, .inl rfl⟩ ?_ fun y hy => ⟨hmut.pairs y hy, hmut.pairs y hy⟩⟩
        intro frame hframe
        rcases List.mem_append.mp hframe with hold | hnew
        · obtain ⟨m, hmeans, hs⟩ := hsent frame hold
          refine ⟨m, hmeans, ?_⟩
          rcases hmut.step with heq | hstep
          · rw [heq]
            exact hs
          · exact hs.step hstep
        · exact hdispatch _ frame hnew

/-- A durable checkpoint restores to a runtime that stands for the same party. -/
theorem Holds.restore {edge : LiveEdge} {x d : EdgeParty} (h : Holds L E r edge x d) :
    ∃ R, SparsePqHealingState.restore edge.durable (restoreOptions E r) = .ok R ∧ Abs L E r R d ∧
      KeysFit R.activeReceiveKeys := by
  obtain ⟨R, keys, hrow, habs, hkeys⟩ := h.durable
  have hoptions : R.options = restoreOptions E r := by
    unfold SparsePqHealingState.options restoreOptions
    rw [habs.mode, habs.binding, habs.role, ← habs.wf.rootSuite_eq, habs.mode]
  refine ⟨{ R with activeReceiveKeys := sortedKeys keys }, ?_, ?_, keysFit_sortedKeys hkeys⟩
  · rw [hrow, ← hoptions]
    exact restore_encodeCheckpoint habs.wf hkeys.1 hkeys.2
  · exact habs.traffic (sortedKeys keys) habs.wf.messages

theorem Invariant.crash (h : Invariant L E s live durable) {R : SparsePqHealingState}
    (hrestore : SparsePqHealingState.restore (s.edges r).durable (restoreOptions E r) = .ok R) :
    ∃ live' durable',
      Invariant L E { s with edges := upd s.edges r { s.edges r with live := R } } live' durable' := by
  have hr := h.holds r
  obtain ⟨R', hrestore', habs, hkeys⟩ := hr.restore
  cases hrestore.symm.trans hrestore'
  have hd : Stands live durable r (durable r) := .inr rfl
  have hnew := @Invariant.replace L E s live durable h r { s.edges r with live := R }
    (durable r) (durable r) (s.sent r) ⟨habs, hkeys, hr.durable, .inl rfl⟩ ?_ ?_
  · rw [upd_same] at hnew
    exact ⟨_, _, hnew⟩
  · intro frame hframe
    obtain ⟨m, hmeans, hs⟩ := h.sent r frame hframe
    exact ⟨m, hmeans, h.sent_of_stands hd hs⟩
  · exact fun y hy => ⟨(h.pairs r _ y hd hy).symm, (h.pairs r _ y hd hy).symm⟩

theorem Invariant.traffic (h : Invariant L E s live durable) {keys : OrdMap String Bytes}
    (fits : KeysFit keys) {messages : Nat} (counted : messages ≤ MAX_SAFE_INTEGER) {row : Bytes}
    (hrow : (s.edges r).live.serialize keys = .ok row) :
    ∃ live' durable', Invariant L E { s with
      edges := upd s.edges r {
        live := { (s.edges r).live with
          activeReceiveKeys := keys
          messagesSinceHealing := messages }
        durable := row } } live' durable' := by
  have hr := h.holds r
  rw [serialize_eq hr.live.wf fits.1 fits.2] at hrow
  cases hrow
  have hl : Stands live durable r (live r) := .inl rfl
  have hnew := @Invariant.replace L E s live durable h r
    { live := { (s.edges r).live with
        activeReceiveKeys := keys
        messagesSinceHealing := messages }
      durable := encodeCheckpoint (s.edges r).live keys }
    (live r) (live r) (s.sent r)
    ⟨hr.live.traffic keys counted, fits, ⟨_, keys, rfl, hr.live, fits⟩, .inl rfl⟩ (h.sent r)
    fun y hy => ⟨(h.pairs r _ y hl hy).symm, (h.pairs r _ y hl hy).symm⟩
  rw [upd_same] at hnew
  exact ⟨_, _, hnew⟩

/-- Every step keeps the invariant. -/
theorem Invariant.step (hA : L.AeadLaws) (hK : L.KemLaws) {s s' : System}
    (h : ∃ live durable, Invariant L E s live durable) (hstep : Step L E s s') :
    ∃ live durable, Invariant L E s' live durable := by
  obtain ⟨live, durable, h⟩ := h
  cases hstep with
  | transition r ha write => exact h.transition hA hK ha write
  | traffic r fits counted hrow => exact h.traffic fits counted hrow
  | crash r hrestore => exact h.crash hrestore

/-! ## Runs -/

theorem Invariant.start {root : Bytes} (h : Start E root s) :
    Invariant L E s (fun _ => startParty root) (fun _ => startParty root) := by
  refine ⟨fun r => ?_, fun r frame hframe => ?_, fun r x y hx hy => ?_⟩
  · obtain ⟨-, rootSuite, now, hnew, hrow⟩ := h r
    obtain ⟨habs, hempty⟩ := @Abs.start L E r _ rootSuite root now hnew
    have hkeys : KeysFit (s.edges r).live.activeReceiveKeys := by
      rw [hempty]
      exact ⟨fun _ hmem => absurd hmem List.not_mem_nil, Nat.zero_le _⟩
    rw [serialize_eq habs.wf hkeys.1 hkeys.2] at hrow
    exact ⟨habs, hkeys, ⟨_, _, (Except.ok.inj hrow).symm, habs, hkeys⟩, .inl rfl⟩
  · rw [(h r).1] at hframe
    exact absurd hframe List.not_mem_nil
  · rcases hx with rfl | rfl <;> rcases hy with rfl | rfl <;> exact ⟨fun _ _ _ => rfl, .inl rfl⟩

theorem Invariant.runs (hA : L.AeadLaws) (hK : L.KemLaws) {root : Bytes} {s s' : System}
    (hstart : Start E root s) (hrun : Runs (Step L E) s s') :
    ∃ live durable, Invariant L E s' live durable := by
  refine @Runs.invariant _ (Step L E) (fun s => ∃ live durable, Invariant L E s live durable)
    ?_ _ _ ⟨_, _, .start hstart⟩ hrun
  exact fun _ _ h hstep => Invariant.step hA hK h hstep

/-- Along every run, the two live runtimes agree. -/
theorem live_edges_agree (hA : L.AeadLaws) (hK : L.KemLaws) {root : Bytes} {s s' : System}
    (hstart : Start E root s) (hrun : Runs (Step L E) s s') :
    RuntimesAgree (s'.edges .initiator).live (s'.edges .responder).live := by
  obtain ⟨live, durable, h⟩ := Invariant.runs hA hK hstart hrun
  exact runtimesAgree_of_pair (r := .initiator) (h.holds .initiator).live (h.holds .responder).live
    (h.pairs .initiator _ _ (.inl rfl) (.inl rfl))

/-- Two constructed edges with their first checkpoints written. -/
def startSystem (E : Edge) (root : Bytes) (now : Nat) : System where
  edges r := ⟨startRuntime E root now r, checkpointOf (startRuntime E root now r)⟩
  sent _ := []

theorem start_startSystem {root : Bytes} {now : Nat} (hbinding : E.binding.length = 32)
    (hroot : root.length = 32) (hnow : now ≤ MAX_SAFE_INTEGER) :
    Start E root (startSystem E root now) := by
  intro r
  have hnew := new_startRuntime hbinding hroot hnow r
  have hkeys : ActiveKeysOk .empty := fun _ hmem => absurd hmem List.not_mem_nil
  exact ⟨rfl, _, now, hnew, serialize_eq (new_wellFormed hnew) hkeys (Nat.zero_le _)⟩

/-- The live runtimes and the frames sent. -/
structure At (s : System) (live : Role → SparsePqHealingState) (sent : Role → List Bytes) : Prop where
  live : ∀ r, (s.edges r).live = live r
  sent : s.sent = sent

/-- A mutation that is written. -/
theorem At.writes {s : System} {live : Role → SparsePqHealingState} {sent : Role → List Bytes}
    (h : At s live sent) (r : Role) {mutate : RuntimeM PqOutcome} (hallowed : Allowed L ⟨s.edges, sent⟩ r mutate)
    {dispatch : Option Bytes} {R : SparsePqHealingState} (hwf : (live r).WellFormed)
    (hrun : mutate.run (live r) = .ok ⟨dispatch, true⟩ R) (hwf' : R.WellFormed)
    (hkeys : KeysFit R.activeReceiveKeys) (hsame : SameEdge R (live r)) :
    ∃ s', Step L E s s' ∧ At s' (upd live r R) (upd sent r (sent r ++ dispatch.toList)) := by
  obtain ⟨hlive, rfl⟩ := h
  rw [← hlive r] at hwf hrun hsame
  refine ⟨_, .transition r hallowed .done, fun q => ?_, ?_⟩
  · rw [mutatePqDurably_of_ok hwf hrun hwf' hkeys hsame]
    unfold System.after upd
    by_cases hq : q = r
    · simp only [if_pos hq]
      rfl
    · simp only [if_neg hq]
      exact hlive q
  · rw [mutatePqDurably_of_ok hwf hrun hwf' hkeys hsame]
    cases dispatch <;> rfl

/-- A frame that is taken. -/
theorem At.takes {s : System} {live : Role → SparsePqHealingState} {sent : Role → List Bytes}
    (h : At s live sent) (r : Role) (hkeys : KeysFit (live r).activeReceiveKeys) {x x' : EdgeParty}
    (habs : Abs .transparent sampleEdge r (live r) x) {f : Bytes} {dispatch : Option Bytes}
    {R : SparsePqHealingState} (ht : Takes r (live r) f dispatch R x') (hf : f ∈ sent r.peer) :
    ∃ s', Step .transparent sampleEdge s s' ∧ At s' (upd live r R) (upd sent r (sent r ++ dispatch.toList)) := by
  obtain ⟨R₁, hacc, rfl⟩ := ht.accepted
  exact h.writes r (.deliver (by decide) hf) habs.wf (inbound_run habs.wf hacc) ht.abs.wf (ht.keys ▸ hkeys)
    (sameEdge_of_abs habs ht.abs)

/-- The first exchange of the sample edge: after OFFER, ADVANCE and ACK both are idle at epoch 1. -/
theorem live_edges_agree_first_exchange : ∃ s, Start sampleEdge sampleRoot (startSystem sampleEdge sampleRoot 0) ∧
    Runs (Step .transparent sampleEdge) (startSystem sampleEdge sampleRoot 0) s ∧
    (∀ r, (s.edges r).live.epoch = 1 ∧ (s.edges r).live.machine.phase = .idle) ∧
    RuntimesAgree (s.edges .initiator).live (s.edges .responder).live := by
  have hkeys : KeysFit .empty := ⟨fun _ hmem => absurd hmem List.not_mem_nil, Nat.zero_le _⟩
  have hat₀ : At (startSystem sampleEdge sampleRoot 0) (startRuntime sampleEdge sampleRoot 0) (fun _ => []) :=
    ⟨fun _ => rfl, rfl⟩
  obtain ⟨pk, sk, A, B, A', B', x, y, x', y', advance, ack, ho, rfl, hA, hB, hA', hB', ⟨hx, hx₁⟩, hy, hy₁⟩ :=
    @sample_exchange (fun _ => .empty) (fun _ => 0) fun _ => Nat.zero_le _
  obtain ⟨s₁, hstep₁, hat₁⟩ := @At.writes .transparent sampleEdge _ _ _ hat₀ .initiator _ (.offer (by decide)) _ _
    (sample_abs .initiator).wf (offer_run (sample_abs .initiator).wf ho (by decide)) hA.wf hkeys
    (sameEdge_of_abs (sample_abs .initiator) hA)
  obtain ⟨s₂, hstep₂, hat₂⟩ := hat₁.takes .responder hkeys (sample_abs .responder) hB List.mem_cons_self
  obtain ⟨s₃, hstep₃, hat₃⟩ := hat₂.takes .initiator hkeys hA hA' List.mem_cons_self
  obtain ⟨s₄, hstep₄, hat₄⟩ := hat₃.takes .responder (hB.keys ▸ hkeys) hB.abs hB' (List.mem_append_right _ List.mem_cons_self)
  have hstart := @start_startSystem sampleEdge sampleRoot 0 rfl rfl (Nat.zero_le _)
  have hrun := (((Relation.ReflTransGen.single hstep₁).tail hstep₂).tail hstep₃).tail hstep₄
  refine ⟨s₄, hstart, hrun, fun r => ?_, live_edges_agree LibCrypto.transparent_aeadLaws
    LibCrypto.transparent_kemLaws hstart hrun⟩
  rw [hat₄.live r]
  cases r
  · exact ⟨hA'.abs.epoch.trans hx₁, hA'.abs.machine_idle hx⟩
  · exact ⟨hB'.abs.epoch.trans hy₁, hB'.abs.machine_idle hy⟩

end HealingAgreement

end P2Party
