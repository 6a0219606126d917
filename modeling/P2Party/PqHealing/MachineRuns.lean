import P2Party.PqHealing.Transitions
import P2Party.Base.TwoParty

/-!
# Runs of the PQ healing machine

The methods of `PqHealingMachine` in any order, with any inputs, whether each
call returns or throws.

- `MachineOp`, `MachineOp.run`: the public transitions and one call of one;
- `Machine.Invariant`: well formed, and an exchange under way can be committed;
- `Does`: a call throws and changes nothing, or keeps the invariant and moves the
  epoch and both counters by the same amount;
- `MachineOp.does`: every transition does, the two commits by one, the rest by zero;
- `machine_run`: what holds after any sequence of calls on a fresh machine.
-/

namespace P2Party

open Base

namespace PqHealing

/-- `abortUnsentOffer` (pqHealing.ts:1632-1639). -/
def abortUnsentOffer : MachineM Unit := do
  let m ← get
  match m.phase with
  | .outboundOffer false _ _ => set { m with phase := .idle }
  | _ => throw (failure .invalidState "only an undispatched OFFER can be aborted")

/-- The transitions of a machine and their arguments. -/
inductive MachineOp
  | prepareOffer (coins : Bytes)
  | markOfferDispatched
  | abortUnsentOffer
  | acceptAuthenticatedOffer (record : Bytes)
  | prepareAdvance (coins : Bytes)
  | commitPreparedAdvance
  | acceptAuthenticatedAdvanceAcknowledgement (acknowledgement : PqHealingAdvanceAcknowledgement)
  | acceptAuthenticatedAdvance (record : Bytes)
  | commitAcceptedAdvance
  | markAdvanceAcknowledgementDispatched (acknowledgement : PqHealingAdvanceAcknowledgement)
deriving DecidableEq

namespace MachineOp

/-- One call, its result dropped. -/
def run (L : LibCrypto) : MachineOp → MachineM Unit
  | prepareOffer coins => discard (PqHealing.prepareOffer L coins)
  | markOfferDispatched => PqHealing.markOfferDispatched
  | abortUnsentOffer => PqHealing.abortUnsentOffer
  | acceptAuthenticatedOffer record => PqHealing.acceptAuthenticatedOffer record
  | prepareAdvance coins => discard (PqHealing.prepareAdvance L coins)
  | commitPreparedAdvance => discard PqHealing.commitPreparedAdvance
  | acceptAuthenticatedAdvanceAcknowledgement ack =>
    PqHealing.acceptAuthenticatedAdvanceAcknowledgement ack
  | acceptAuthenticatedAdvance record => PqHealing.acceptAuthenticatedAdvance L record
  | commitAcceptedAdvance => discard PqHealing.commitAcceptedAdvance
  | markAdvanceAcknowledgementDispatched ack =>
    PqHealing.markAdvanceAcknowledgementDispatched ack

/-- The calls that commit an exchange. -/
def commits : MachineOp → Bool
  | commitPreparedAdvance | commitAcceptedAdvance => true
  | _ => false

/-- The exchanges a call commits: one when a committing call returns. -/
def committed (L : LibCrypto) (op : MachineOp) (m : Machine) : Nat :=
  match (op.run L).run m with
  | .ok _ _ => op.commits.toNat
  | .error _ _ => 0

/-- The machine a sequence of calls leaves, each call returned or thrown. -/
def runAll (L : LibCrypto) : List MachineOp → Machine → Machine
  | [], m => m
  | op :: ops, m => runAll L ops (finalState ((op.run L).run m))

/-- The exchanges a sequence of calls commits. -/
def committedAll (L : LibCrypto) : List MachineOp → Machine → Nat
  | [], _ => 0
  | op :: ops, m => op.committed L m + committedAll L ops (finalState ((op.run L).run m))

end MachineOp

/-! ## The invariant -/

/-- An exchange that is under way started below the u64 bound, so it can be committed. -/
def Machine.Committable (m : Machine) : Prop :=
  match m.phase with
  | .outboundOffer .. | .inboundOffer _ | .outboundAdvancePrepared ..
  | .inboundAdvancePrepared .. =>
    m.epoch < MAX_U64 ∧ m.localCounter < MAX_U64 ∧ m.remoteCounter < MAX_U64
  | _ => True

/-- What every machine reached by the methods satisfies. -/
structure Machine.Invariant (m : Machine) : Prop where
  wellFormed : m.WellFormed
  committable : m.Committable

/-- `m'` is `n` exchanges after `m`. -/
structure Machine.After (m : Machine) (n : Nat) (m' : Machine) : Prop where
  epoch : m'.epoch = m.epoch + n
  localCounter : m'.localCounter = m.localCounter + n
  remoteCounter : m'.remoteCounter = m.remoteCounter + n

theorem Machine.After.trans {m m' m'' : Machine} {n k : Nat} (h : m.After n m')
    (h' : m'.After k m'') : m.After (n + k) m'' := by
  obtain ⟨he, hl, hr⟩ := h
  obtain ⟨he', hl', hr'⟩ := h'
  constructor <;> omega

/-- The call throws and leaves `m` as it is, or it returns and leaves a machine of the
invariant, `n` exchanges later. -/
def Does {α : Type} (m : Machine) (n : Nat) (call : MachineM α) : Prop :=
  (∃ e, call.run m = .error e m) ∨
    ∃ a m', call.run m = .ok a m' ∧ m'.Invariant ∧ m.After n m'

variable {L : LibCrypto} {m : Machine}

theorem Machine.CanStart.bounds (h : m.CanStart) :
    m.epoch < MAX_U64 ∧ m.localCounter < MAX_U64 ∧ m.remoteCounter < MAX_U64 :=
  ⟨h.epoch, h.localCounter, h.remoteCounter⟩

theorem Does.discard {α : Type} {n : Nat} {call : MachineM α} (h : Does m n call) :
    Does m n (discard call) := by
  obtain ⟨e, he⟩ | ⟨a, m', ha, hinv, hafter⟩ := h
  · left
    refine ⟨e, ?_⟩
    show (Function.const α () <$> call).run m = _
    rw [run_map, he]
  · right
    refine ⟨(), m', ?_, hinv, hafter⟩
    show (Function.const α () <$> call).run m = _
    rw [run_map, ha]

/-! ## The transitions keep it -/

theorem prepareOffer_does (h : m.Invariant) (coins : Bytes) : Does m 0 (prepareOffer L coins) := by
  obtain he | ⟨pk, sk, ho⟩ := prepareOffer_cases (L := L) (m := m) coins
  · exact .inl he
  · exact .inr ⟨_, _, prepareOffer_run h.wellFormed ho,
      ⟨h.wellFormed.offering ho false, ho.start.bounds⟩, rfl, rfl, rfl⟩

theorem markOfferDispatched_does (h : m.Invariant) : Does m 0 markOfferDispatched := by
  have hphase := h.wellFormed.phase
  have hcan := h.committable
  unfold markOfferDispatched Does
  simp only [run_get_bind]
  unfold Machine.Committable at hcan
  cases hp : m.phase with
  | outboundOffer dispatched offer keyPair =>
    rw [hp] at hphase hcan
    cases dispatched with
    | true => exact .inl ⟨_, rfl⟩
    | false =>
      right
      refine ⟨(), _, rfl, ⟨?_, hcan⟩, rfl, rfl, rfl⟩
      exact ⟨h.wellFormed.binding, h.wellFormed.root, h.wellFormed.epoch,
        h.wellFormed.localCounter, h.wellFormed.remoteCounter, h.wellFormed.lastOffer,
        h.wellFormed.lastAdvance, hphase⟩
  | _ => exact .inl ⟨_, rfl⟩

theorem Machine.Invariant.acked (h : m.Invariant) : m.acked.Invariant :=
  ⟨h.wellFormed.acked, trivial⟩

theorem abortUnsentOffer_does (h : m.Invariant) : Does m 0 abortUnsentOffer := by
  unfold abortUnsentOffer Does
  simp only [run_get_bind]
  cases hp : m.phase with
  | outboundOffer dispatched offer keyPair =>
    cases dispatched with
    | true => exact .inl ⟨_, rfl⟩
    | false => exact .inr ⟨(), m.acked, rfl, h.acked, rfl, rfl, rfl⟩
  | _ => exact .inl ⟨_, rfl⟩

theorem acceptAuthenticatedOffer_does (h : m.Invariant) (record : Bytes) :
    Does m 0 (acceptAuthenticatedOffer record) := by
  obtain he | ⟨offer, ha⟩ := acceptAuthenticatedOffer_cases (m := m) record
  · exact .inl he
  · exact .inr ⟨_, _, acceptAuthenticatedOffer_run ha,
      ⟨h.wellFormed.received ha, ha.start.bounds⟩, rfl, rfl, rfl⟩

/-- A machine that holds an OFFER is the one that received it while idle. -/
theorem Machine.eq_received {offer : DecodedOffer} (hp : m.phase = .inboundOffer offer) :
    m = m.acked.received offer := by
  cases m
  cases hp
  rfl

/-- The OFFER a machine holds passed the checks of `acceptAuthenticatedOffer`. The
replay record cannot share its slot: its counter was consumed. -/
theorem Machine.Invariant.acceptsHeld (h : m.Invariant) {offer : DecodedOffer}
    (hp : m.phase = .inboundOffer offer) : m.acked.AcceptsOffer offer.bytes offer := by
  have hphase := h.wellFormed.phase
  have hcan := h.committable
  unfold Machine.Committable at hcan
  rw [hp] at hphase hcan
  obtain ⟨hoffer, hturn, hcounter, hepoch⟩ := hphase
  refine ⟨hoffer, ?_, rfl, hturn, hcounter, hepoch, ⟨hcan.1, hcan.2.1, hcan.2.2⟩⟩
  unfold Machine.rejectKnownOfferReplayOrFork
  split
  · rfl
  · next known hlast =>
    have hlt := (h.wellFormed.lastOffer known hlast).2.2
    have hslot : ¬ sameOfferSlot offer known := by
      simp only [sameOfferSlot, Bool.and_eq_true, beq_iff_eq]
      omega
    exact if_pos hslot

theorem Machine.WellFormed.prepared (h : m.WellFormed) {record ct : Bytes} {offer : DecodedOffer}
    (ha : m.AcceptsOffer record offer) (hct : ct.length = m.suite.ciphertextBytes) (ss : Bytes) :
    (m.prepared L offer ct ss).WellFormed :=
  ⟨h.binding, h.root, h.epoch, h.localCounter, h.remoteCounter, h.lastOffer, h.lastAdvance,
    Machine.localAdvance_ok h ha hct, rfl, length_nextRootOf _ _ _, ha.turn, rfl, ha.counter,
    ha.epoch⟩

theorem prepareAdvance_does (h : m.Invariant) (coins : Bytes) :
    Does m 0 (prepareAdvance L coins) := by
  cases hp : m.phase with
  | inboundOffer offer =>
    have ha := h.acceptsHeld hp
    rw [Machine.eq_received hp]
    cases henc : L.mlkemEncaps m.suite offer.publicKey coins with
    | error code => exact .inl (prepareAdvance_error ha henc)
    | ok pair =>
      have hct := (L.length_mlkemEncaps _ _ _ _ _ henc).1
      refine .inr ⟨_, _, prepareAdvance_run h.acked.wellFormed ha henc,
        ⟨h.acked.wellFormed.prepared ha hct pair.2, ha.start.bounds⟩, rfl, rfl, rfl⟩
  | _ =>
    left
    unfold prepareAdvance
    simp only [run_get_bind, hp]
    exact ⟨_, rfl⟩

theorem commitPreparedAdvance_does (h : m.Invariant) : Does m 1 commitPreparedAdvance := by
  have hphase := h.wellFormed.phase
  have hcan := h.committable
  unfold Machine.Committable at hcan
  unfold commitPreparedAdvance Does
  simp only [run_get_bind]
  cases hp : m.phase with
  | outboundAdvancePrepared offer advance nextRoot =>
    rw [hp] at hphase hcan
    obtain ⟨hadvance, rfl, hroot, hturn, hlocal, hremote, hepoch⟩ := hphase
    have hspec := decodeAdvance_spec hadvance
    have hto : advance.toEpoch = m.epoch + 1 := by rw [hspec.to_eq, hepoch]
    have hroot' : requireBytes nextRoot "candidate PQ root" PQ_HEALING_ROOT_BYTES = .ok () :=
      demand_of hroot
    right
    simp only [run_attempt_bind, hroot']
    refine ⟨_, _, rfl, ⟨?_, trivial⟩, hto, rfl, rfl⟩
    have hoffer := decodeOffer_spec hspec.offer_decodes
    refine ⟨h.wellFormed.binding, hroot, Nat.le_trans (Nat.le_of_eq hto) hcan.1, hcan.2.1, hcan.2.2, ?_, ?_, ?_⟩
    · rintro offer' ⟨⟩
      refine ⟨hspec.offer_decodes, ?_, Nat.lt_succ_of_le (Nat.le_of_eq hremote)⟩
      show advance.offer.toEpoch ≤ advance.toEpoch
      exact Nat.le_of_eq (by rw [hoffer.to_eq, hspec.offer_from, hspec.to_eq])
    · intro advance' hlast
      obtain ⟨hok, hle, hlt⟩ := h.wellFormed.lastAdvance advance' hlast
      exact ⟨hok, hto ▸ Nat.le_succ_of_le hle, Nat.lt_succ_of_lt hlt⟩
    · exact ⟨hadvance, rfl, rfl, rfl, congrArg (· + 1) hlocal, congrArg (· + 1) hremote, rfl⟩
  | _ => exact .inl ⟨_, rfl⟩

theorem acceptAck_does (h : m.Invariant) (ack : PqHealingAdvanceAcknowledgement) :
    Does m 0 (acceptAuthenticatedAdvanceAcknowledgement ack) := by
  obtain he | ⟨offer, advance, ha⟩ := acceptAck_cases (m := m) ack
  · exact .inl he
  · exact .inr ⟨_, _, acceptAck_run h.wellFormed ha, h.acked, rfl, rfl, rfl⟩

theorem acceptAuthenticatedAdvance_does (h : m.Invariant) (record : Bytes) :
    Does m 0 (acceptAuthenticatedAdvance L record) := by
  obtain he | ⟨advance, offer, keyPair, ss, ha⟩ :=
    acceptAuthenticatedAdvance_cases (L := L) h.wellFormed record
  · exact .inl he
  · have hphase := h.wellFormed.phase
    have hcan := h.committable
    unfold Machine.Committable at hcan
    rw [ha.offered] at hphase hcan
    obtain ⟨hoffer, hpk, hsk, -, hturn, hcounter, hepoch⟩ := hphase
    have hspec := decodeAdvance_spec ha.decodes
    have hok : m.AdvanceOk advance := by
      unfold Machine.AdvanceOk
      rw [hspec.bytes_eq]
      exact ha.decodes
    -- the ADVANCE repeats the OFFER byte for byte, so it decodes to the same OFFER
    have hsame : offer = advance.offer := by
      have hdecodes := hspec.offer_decodes
      rw [ha.answers] at hdecodes
      exact Except.ok.inj (hoffer.symm.trans hdecodes)
    refine .inr ⟨_, _, acceptAuthenticatedAdvance_run h.wellFormed ha, ⟨?_, hcan⟩, rfl, rfl, rfl⟩
    exact ⟨h.wellFormed.binding, h.wellFormed.root, h.wellFormed.epoch,
      h.wellFormed.localCounter, h.wellFormed.remoteCounter, h.wellFormed.lastOffer,
      h.wellFormed.lastAdvance, hok, hsame, hpk, hsk, length_nextRootOf _ _ _, hturn, ha.counter,
      hcounter, ha.epoch⟩

theorem commitAcceptedAdvance_does (h : m.Invariant) : Does m 1 commitAcceptedAdvance := by
  have hphase := h.wellFormed.phase
  have hcan := h.committable
  unfold Machine.Committable at hcan
  unfold commitAcceptedAdvance Does
  simp only [run_get_bind]
  cases hp : m.phase with
  | inboundAdvancePrepared offer advance keyPair nextRoot =>
    rw [hp] at hphase hcan
    obtain ⟨hadvance, rfl, -, -, hroot, hturn, hremote, hlocal, hepoch⟩ := hphase
    have hspec := decodeAdvance_spec hadvance
    have hto : advance.toEpoch = m.epoch + 1 := by rw [hspec.to_eq, hepoch]
    have hroot' : requireBytes nextRoot "candidate PQ root" PQ_HEALING_ROOT_BYTES = .ok () :=
      demand_of hroot
    right
    simp only [run_attempt_bind, hroot']
    refine ⟨_, _, rfl, ⟨?_, trivial⟩, hto, rfl, rfl⟩
    refine ⟨h.wellFormed.binding, hroot, Nat.le_trans (Nat.le_of_eq hto) hcan.1, hcan.2.1, hcan.2.2, ?_, ?_, ?_⟩
    · intro offer' hlast
      obtain ⟨hok, hle, hlt⟩ := h.wellFormed.lastOffer offer' hlast
      exact ⟨hok, hto ▸ Nat.le_succ_of_le hle, Nat.lt_succ_of_lt hlt⟩
    · rintro advance' ⟨⟩
      exact ⟨hadvance, Nat.le_refl _, Nat.lt_succ_of_le (Nat.le_of_eq hremote)⟩
    · exact ⟨hadvance, rfl, rfl, congrArg (· + 1) hremote, congrArg (· + 1) hlocal, rfl⟩
  | _ => exact .inl ⟨_, rfl⟩

theorem markAdvanceAcknowledgementDispatched_does (h : m.Invariant)
    (ack : PqHealingAdvanceAcknowledgement) :
    Does m 0 (markAdvanceAcknowledgementDispatched ack) := by
  unfold markAdvanceAcknowledgementDispatched Does
  rw [run_attempt_bind]
  cases hack : requireAcknowledgement ack with
  | error e => exact .inl ⟨e, rfl⟩
  | ok ack' =>
    simp only [run_get_bind]
    cases hp : m.phase with
    | inboundAdvanceAwaitingAckDispatch advance =>
      simp only [run_ensure_bind]
      by_cases hmatch : ack'.epoch = m.epoch ∧ ack'.advanceCounter = advance.senderCounter
      · rw [if_pos hmatch]
        exact .inr ⟨(), m.acked, rfl, h.acked, rfl, rfl, rfl⟩
      · rw [if_neg hmatch]
        exact .inl ⟨_, rfl⟩
    | _ => exact .inl ⟨_, rfl⟩

/-- What one call does: the two commits move the machine by one exchange, every other
call by none. -/
theorem MachineOp.does (h : m.Invariant) (op : MachineOp) :
    Does m op.commits.toNat (op.run L) := by
  cases op with
  | prepareOffer coins => exact (prepareOffer_does h coins).discard
  | markOfferDispatched => exact markOfferDispatched_does h
  | abortUnsentOffer => exact abortUnsentOffer_does h
  | acceptAuthenticatedOffer record => exact acceptAuthenticatedOffer_does h record
  | prepareAdvance coins => exact (prepareAdvance_does h coins).discard
  | commitPreparedAdvance => exact (commitPreparedAdvance_does h).discard
  | acceptAuthenticatedAdvanceAcknowledgement ack => exact acceptAck_does h ack
  | acceptAuthenticatedAdvance record => exact acceptAuthenticatedAdvance_does h record
  | commitAcceptedAdvance => exact (commitAcceptedAdvance_does h).discard
  | markAdvanceAcknowledgementDispatched ack =>
    exact markAdvanceAcknowledgementDispatched_does h ack

/-! ## Runs -/

/-- One call keeps the invariant and moves the machine by the exchanges it commits. -/
theorem MachineOp.step (h : m.Invariant) (op : MachineOp) :
    (finalState ((op.run L).run m)).Invariant ∧
      m.After (op.committed L m) (finalState ((op.run L).run m)) := by
  unfold MachineOp.committed
  obtain ⟨e, he⟩ | ⟨a, m', ha, hinv, hafter⟩ := op.does (L := L) h
  · rw [he]
    exact ⟨h, rfl, rfl, rfl⟩
  · rw [ha]
    exact ⟨hinv, hafter⟩

/-- So does any sequence of calls. -/
theorem MachineOp.runs (h : m.Invariant) (ops : List MachineOp) :
    (MachineOp.runAll L ops m).Invariant ∧
      m.After (MachineOp.committedAll L ops m) (MachineOp.runAll L ops m) := by
  induction ops generalizing m with
  | nil => exact ⟨h, rfl, rfl, rfl⟩
  | cons op ops ih =>
    obtain ⟨hinv, hafter⟩ := op.step (L := L) h
    obtain ⟨hinv', hafter'⟩ := ih hinv
    exact ⟨hinv', hafter.trans hafter'⟩

theorem Machine.invariant_of_new {suite : MlKemParameterSet} {binding rootKey : Bytes}
    {turn : PqHealingTurn} {epoch localCounter remoteCounter : Nat}
    (h : Machine.new suite binding rootKey turn epoch localCounter remoteCounter = .ok m) :
    m.Invariant ∧ m.epoch = epoch ∧ m.localCounter = localCounter ∧
      m.remoteCounter = remoteCounter := by
  simp only [Machine.new, requireBytes, requireU64, demand_bind, ite_eq_iff, reduceCtorEq,
    and_false, or_false, except_pure_eq_ok] at h
  obtain ⟨hbinding, hroot, hepoch, hlocal, hremote, rfl⟩ := h
  refine ⟨⟨⟨hbinding, hroot, hepoch, hlocal, hremote, ?_, ?_, trivial⟩, trivial⟩, rfl, rfl, rfl⟩
  · intro offer hoffer
    cases hoffer
  · intro advance hadvance
    cases hadvance

/-- **Every machine that any sequence of calls reaches from a fresh one** passes the
snapshot validator and is restored and cloned to itself; a call on it that throws changes
nothing; its epoch and counters are those it started with plus one for every exchange
committed on the way, and they stay in the u64 range. -/
theorem machine_run {suite : MlKemParameterSet} {binding rootKey : Bytes} {turn : PqHealingTurn}
    {epoch localCounter remoteCounter : Nat} {fresh : Machine}
    (hnew : Machine.new suite binding rootKey turn epoch localCounter remoteCounter = .ok fresh)
    (ops : List MachineOp) :
    let m := MachineOp.runAll L ops fresh
    let n := MachineOp.committedAll L ops fresh
    (validateSnapshotState m = .ok () ∧ restore m.snapshot m.suite m.binding = .ok m ∧
        m.clone = .ok m) ∧
      (∀ (op : MachineOp) e m', (op.run L).run m = .error e m' → m' = m) ∧
      (m.epoch = epoch + n ∧ m.localCounter = localCounter + n ∧
        m.remoteCounter = remoteCounter + n) ∧
      m.epoch ≤ MAX_U64 ∧ m.localCounter ≤ MAX_U64 ∧ m.remoteCounter ≤ MAX_U64 := by
  intro m n
  obtain ⟨hfresh, rfl, rfl, rfl⟩ := Machine.invariant_of_new hnew
  obtain ⟨hinv, hafter⟩ := MachineOp.runs (L := L) hfresh ops
  have hwf := hinv.wellFormed
  refine ⟨⟨validateSnapshotState_of_wellFormed hwf, restore_snapshot hwf, clone_eq hwf⟩, ?_,
    ⟨hafter.epoch, hafter.localCounter, hafter.remoteCounter⟩, hwf.epoch, hwf.localCounter,
    hwf.remoteCounter⟩
  intro op e m' herror
  obtain ⟨e', he⟩ | ⟨a, m'', ha, -, -⟩ := op.does (L := L) hinv
  · rw [he] at herror
    cases herror
    rfl
  · rw [ha] at herror
    cases herror

/-- A fresh machine prepares an OFFER, a commit out of turn throws, the OFFER is sent. -/
theorem machine_run_first_offer :
    ∃ fresh m,
      Machine.new .mlkem768 (List.replicate 32 0) (List.replicate 32 1) .local 0 0 0 = .ok fresh ∧
      m = MachineOp.runAll .transparent
        [.prepareOffer (List.replicate 32 2), .commitPreparedAdvance, .markOfferDispatched] fresh ∧
      m.clone = .ok m ∧ m.epoch ≤ MAX_U64 := by
  refine ⟨_, _, rfl, rfl, ?_⟩
  have h := @machine_run .transparent .mlkem768 (List.replicate 32 0) (List.replicate 32 1) .local
    0 0 0 _ rfl [.prepareOffer (List.replicate 32 2), .commitPreparedAdvance, .markOfferDispatched]
  exact ⟨h.1.2.2, h.2.2.2.1⟩

end PqHealing

end P2Party
