import P2Party.Cover.CoverCell
import P2Party.Messages.ChunkFrame
import P2Party.PqHealing.FrameBinding

/-!
# Keys of different purposes under one root

The PQ root of an epoch is the salt of three derivations, in three modules: the keys of messages
(`cryptography/pqMessageKey.ts`), of control frames (`cryptography/pqHealingFrame.ts`) and of cover
cells (`cryptography/coverCell.ts`). Each spells its info string from a domain and fields of its own;
no domain starts another, and behind a domain every field has a fixed width or stands behind its
length.

- `Derivation`, `Derivation.Derives`: the three calls, and the key that a call returns;
- `Derivation.keyInput`: what HKDF is given;
- `messageKeyInfo_inj`: the info string of a message key determines its fields;
- `coverCell_counter`, `controlFrame_counter`: where the counters of cells and frames stand;
- `key_separation`: equal inputs are the input of one call.
-/

namespace P2Party

open Base PqHealing

/-- Texts that start differently are different. -/
theorem append_ne_of_apart {α : Type} {a b : List α} (hab : ¬ a <+: b) (hba : ¬ b <+: a) (x y : List α) :
    a ++ x ≠ b ++ y := by
  intro h
  have ha : a <+: b ++ y := h ▸ List.prefix_append a x
  rcases List.prefix_or_prefix_of_prefix ha (List.prefix_append b y) with hle | hle
  · exact hab hle
  · exact hba hle

namespace KeySeparation

open PqMessageKey

/-- A derivation from a PQ root, with the parameters that the code takes. -/
inductive Derivation
  | messageKey (classicalMessageKey : Bytes) (context : PqMessageKeyContext) (header : RatchetHeader)
  | controlFrame (suite : MlKemParameterSet) (rootKey binding : Bytes)
      (direction : PqControlFrame.PqControlDirection) (keyEpoch : Nat)
  | coverCell (rootSuite : RatchetRootSuite) (rootKey binding : Bytes)
      (direction : CoverCell.CoverCellDirection) (keyEpoch : Nat)

/-- The call returns the key. -/
def Derivation.Derives (L : LibCrypto) : Derivation → Bytes → Prop
  | .messageKey classicalMessageKey context header, key =>
    combinePqMessageKey L classicalMessageKey context header = .ok key
  | .controlFrame suite rootKey binding direction keyEpoch, key =>
    PqControlFrame.deriveFrameKey L suite rootKey binding direction keyEpoch = .ok key
  | .coverCell rootSuite rootKey binding direction keyEpoch, key =>
    CoverCell.deriveCellKey L rootSuite rootKey binding direction keyEpoch = .ok key

/-- What the key is derived from. -/
def Derivation.keyInput : Derivation → KeyInput
  | .messageKey classicalMessageKey context header =>
    ⟨context.rootKey, classicalMessageKey, messageKeyInfo context header⟩
  | .controlFrame suite rootKey binding direction keyEpoch =>
    ⟨rootKey, binding, PqControlFrame.frameKeyInfo suite binding direction keyEpoch⟩
  | .coverCell rootSuite rootKey binding direction keyEpoch =>
    ⟨rootKey, binding, CoverCell.cellKeyInfo rootSuite binding direction keyEpoch⟩

/-! ## The domains -/

theorem message_control_apart : ¬ DOMAIN <+: PqControlFrame.KEY_DOMAIN ∧
    ¬ PqControlFrame.KEY_DOMAIN <+: DOMAIN := by decide +kernel

theorem message_cover_apart : ¬ DOMAIN <+: CoverCell.KEY_DOMAIN ∧
    ¬ CoverCell.KEY_DOMAIN <+: DOMAIN := by decide +kernel

theorem control_cover_apart : ¬ PqControlFrame.KEY_DOMAIN <+: CoverCell.KEY_DOMAIN ∧
    ¬ CoverCell.KEY_DOMAIN <+: PqControlFrame.KEY_DOMAIN := by decide +kernel

/-! ## The fields of a message key -/

variable {L : LibCrypto} {context context' : PqMessageKeyContext} {header header' : RatchetHeader}

/-- What `combinePqMessageKey` accepts. -/
structure MessageFits (context : PqMessageKeyContext) (header : RatchetHeader) : Prop where
  binding : context.binding.length = 32
  header : HeaderFits header context.epoch

/-- The suites have different texts. -/
theorem text_injective :
    Function.Injective fun suite : RatchetRootSuite => textEncode suite.text := by
  intro a b h
  cases a <;> cases b <;> first | rfl | exact absurd h (by decide)

theorem length_text (suite : RatchetRootSuite) : (textEncode suite.text).length < 256 ^ 2 := by
  cases suite <;> decide

/-- The info string determines the context, but for its root, and the header. -/
theorem messageKeyInfo_inj (h : MessageFits context header) (h' : MessageFits context' header')
    (heq : messageKeyInfo context header = messageKeyInfo context' header') :
    context.rootSuite = context'.rootSuite ∧ context.binding = context'.binding ∧
      context.epoch = context'.epoch ∧ header = header' := by
  obtain ⟨dhPub, N, PN⟩ := header
  obtain ⟨dhPub', N', PN'⟩ := header'
  unfold messageKeyInfo at heq
  have heq := List.append_cancel_left heq
  -- the length of the suite is a field of its own, so the suite ends where it says
  obtain ⟨hlen, heq⟩ := List.append_inj heq (by rw [length_beBytes, length_beBytes])
  have hsuiteLen := beBytes_inj (length_text context.rootSuite) (length_text context'.rootSuite) hlen
  obtain ⟨hsuite, heq⟩ := List.append_inj heq hsuiteLen
  obtain ⟨hbinding, heq⟩ := List.append_inj heq (h.binding.trans h'.binding.symm)
  obtain ⟨hepoch, heq⟩ := List.append_inj heq (by rw [length_beBytes, length_beBytes])
  have heq := List.append_cancel_left heq
  obtain ⟨hdhPub, heq⟩ := List.append_inj heq (h.header.dhPub.trans h'.header.dhPub.symm)
  obtain ⟨hN, hPN⟩ := List.append_inj heq (by rw [length_beBytes, length_beBytes])
  have hfit : ∀ {n : Nat}, n ≤ MAX_SAFE_INTEGER → n < 256 ^ 8 := fun hn =>
    Nat.lt_of_le_of_lt hn (by decide)
  refine ⟨text_injective hsuite, hbinding,
    beBytes_inj (lt_256_pow_8 h.header.epoch) (lt_256_pow_8 h'.header.epoch) hepoch, ?_⟩
  rw [RatchetHeader.mk.injEq]
  exact ⟨hdhPub, beBytes_inj (hfit h.header.N) (hfit h'.header.N) hN,
    beBytes_inj (hfit h.header.PN) (hfit h'.header.PN) hPN⟩

/-! ## The three calls together -/

theorem messageFits_of_combine {classicalMessageKey key : Bytes}
    (h : combinePqMessageKey L classicalMessageKey context header = .ok key) :
    MessageFits context header ∧
      key = (Derivation.messageKey classicalMessageKey context header).keyInput.key L := by
  simp only [combinePqMessageKey, encodeInfo, PqMessageKey.requireBytes, requireCounter,
    except_bind_eq_ok, demand_eq_ok, exists_const, except_pure_eq_ok] at h
  obtain ⟨-, info, ⟨-, hbinding, hepoch, hdhPub, hN, hPN, -, rfl⟩, rfl⟩ := h
  exact ⟨⟨hbinding, hdhPub, hN, hPN, hepoch⟩, rfl⟩

theorem controlFrame_of_derive {suite : MlKemParameterSet} {rootKey binding key : Bytes}
    {direction : PqControlFrame.PqControlDirection} {keyEpoch : Nat}
    (h : PqControlFrame.deriveFrameKey L suite rootKey binding direction keyEpoch = .ok key) :
    keyEpoch ≤ MAX_U64 ∧
      key = (Derivation.controlFrame suite rootKey binding direction keyEpoch).keyInput.key L := by
  simp only [PqControlFrame.deriveFrameKey, PqControlFrame.requireBytes, PqControlFrame.requireU64,
    except_bind_eq_ok, demand_eq_ok, exists_const, except_pure_eq_ok] at h
  obtain ⟨-, -, hepoch, rfl⟩ := h
  exact ⟨hepoch, rfl⟩

theorem coverCell_of_derive {rootSuite : RatchetRootSuite} {rootKey binding key : Bytes}
    {direction : CoverCell.CoverCellDirection} {keyEpoch : Nat}
    (h : CoverCell.deriveCellKey L rootSuite rootKey binding direction keyEpoch = .ok key) :
    keyEpoch ≤ CoverCell.MAX_U64 ∧
      key = (Derivation.coverCell rootSuite rootKey binding direction keyEpoch).keyInput.key L := by
  simp only [CoverCell.deriveCellKey, CoverCell.requireBytes, CoverCell.requireU64,
    except_bind_eq_ok, demand_eq_ok, exists_const, except_pure_eq_ok] at h
  obtain ⟨-, -, hepoch, rfl⟩ := h
  exact ⟨hepoch, rfl⟩

/-- A key is derived from the input of its call, and from nothing else. -/
theorem Derivation.Derives.key_eq {d : Derivation} {key : Bytes} (h : d.Derives L key) :
    key = d.keyInput.key L := by
  cases d with
  | messageKey classicalMessageKey context header => exact (messageFits_of_combine h).2
  | controlFrame suite rootKey binding direction keyEpoch => exact (controlFrame_of_derive h).2
  | coverCell rootSuite rootKey binding direction keyEpoch => exact (coverCell_of_derive h).2

/-- Calls of one purpose with one input are one call. -/
theorem Derivation.eq_of_messageKey {classicalMessageKey classicalMessageKey' key key' : Bytes}
    (h : combinePqMessageKey L classicalMessageKey context header = .ok key)
    (h' : combinePqMessageKey L classicalMessageKey' context' header' = .ok key')
    (heq : (Derivation.messageKey classicalMessageKey context header).keyInput =
      (Derivation.messageKey classicalMessageKey' context' header').keyInput) :
    Derivation.messageKey classicalMessageKey context header =
      Derivation.messageKey classicalMessageKey' context' header' := by
  obtain ⟨hroot, hikm, hinfo⟩ := KeyInput.mk.inj heq
  obtain ⟨hsuite, hbinding, hepoch, rfl⟩ :=
    messageKeyInfo_inj (messageFits_of_combine h).1 (messageFits_of_combine h').1 hinfo
  obtain ⟨rootKey, binding, rootSuite, epoch⟩ := context
  obtain ⟨rootKey', binding', rootSuite', epoch'⟩ := context'
  dsimp only at hroot hikm hsuite hbinding hepoch
  rw [hroot, hikm, hsuite, hbinding, hepoch]

theorem Derivation.eq_of_keyInput {d d' : Derivation} {key key' : Bytes} (h : d.Derives L key)
    (h' : d'.Derives L key') (heq : d.keyInput = d'.keyInput) : d = d' := by
  have hinfo : d.keyInput.info = d'.keyInput.info := congrArg KeyInput.info heq
  cases d with
  | messageKey classicalMessageKey context header =>
    cases d' with
    | messageKey classicalMessageKey' context' header' => exact eq_of_messageKey h h' heq
    | controlFrame suite rootKey binding direction keyEpoch =>
      exact absurd hinfo (append_ne_of_apart message_control_apart.1 message_control_apart.2 _ _)
    | coverCell rootSuite rootKey binding direction keyEpoch =>
      exact absurd hinfo (append_ne_of_apart message_cover_apart.1 message_cover_apart.2 _ _)
  | controlFrame suite rootKey binding direction keyEpoch =>
    cases d' with
    | messageKey classicalMessageKey context header =>
      exact absurd hinfo (append_ne_of_apart message_control_apart.2 message_control_apart.1 _ _)
    | controlFrame suite' rootKey' binding' direction' keyEpoch' =>
      have hparams : (PqControlFrame.controlParams suite rootKey binding direction keyEpoch) =
          PqControlFrame.controlParams suite' rootKey' binding' direction' keyEpoch' :=
        @CellParams.keyInput_inj PqControlFrame.KEY_DOMAIN _ _
          (lt_256_pow_8 (controlFrame_of_derive h).1) (lt_256_pow_8 (controlFrame_of_derive h').1) heq
      obtain ⟨rfl, rfl, rfl, rfl, rfl⟩ := PqControlFrame.controlParams_inj hparams
      rfl
    | coverCell rootSuite rootKey binding direction keyEpoch =>
      exact absurd hinfo (append_ne_of_apart control_cover_apart.1 control_cover_apart.2 _ _)
  | coverCell rootSuite rootKey binding direction keyEpoch =>
    cases d' with
    | messageKey classicalMessageKey context header =>
      exact absurd hinfo (append_ne_of_apart message_cover_apart.2 message_cover_apart.1 _ _)
    | controlFrame suite rootKey binding direction keyEpoch =>
      exact absurd hinfo (append_ne_of_apart control_cover_apart.2 control_cover_apart.1 _ _)
    | coverCell rootSuite' rootKey' binding' direction' keyEpoch' =>
      have hparams : (CoverCell.coverParams rootSuite rootKey binding direction keyEpoch) =
          CoverCell.coverParams rootSuite' rootKey' binding' direction' keyEpoch' :=
        @CellParams.keyInput_inj CoverCell.KEY_DOMAIN _ _
          (CoverCell.lt_256_pow_8 (coverCell_of_derive h).1)
          (CoverCell.lt_256_pow_8 (coverCell_of_derive h').1) heq
      obtain ⟨hsuite, hdirection, rfl, rfl, rfl⟩ := CellParams.mk.inj hparams
      rw [CoverCell.suiteTag_injective hsuite, CoverCell.directionTag_injective hdirection]

/-! ## Counters -/

/-- The counter of a cell header is read back from it. -/
theorem counter_of_cellHeader {type : UInt8} {binding nonce rest : Bytes} {counter keyEpoch : Nat}
    (hb : binding.length = 32) (hn : nonce.length = 12) (hc : counter < 256 ^ 8) :
    beNat (slice ((cellHeader type binding counter keyEpoch nonce ++ rest).take CELL_HEADER_BYTES) 33 8) =
      counter := by
  rw [take_cellHeader hb hn, ← List.append_nil (cellHeader type binding counter keyEpoch nonce),
    slice_cellHeader_counter hb, beNat_beBytes hc]

theorem coverCell_counter {rootSuite : RatchetRootSuite} {rootKey binding frame : Bytes}
    {direction : CoverCell.CoverCellDirection} {keyEpoch counter : Nat}
    {content : CoverCell.CoverCellContent} {nonce : Nonce}
    (h : CoverCell.sealCoverCell L rootSuite rootKey binding direction keyEpoch counter content nonce =
      .ok frame) : beNat (slice (frame.take CELL_HEADER_BYTES) 33 8) = counter := by
  simp only [CoverCell.sealCoverCell, CoverCell.requireBytes, CoverCell.requireU64, except_bind_eq_ok,
    demand_eq_ok, exists_const, except_pure_eq_ok] at h
  obtain ⟨hbinding, -, hcounter, _, -, -, _, -, rfl⟩ := h
  exact counter_of_cellHeader hbinding nonce.property (CoverCell.lt_256_pow_8 hcounter)

theorem controlFrame_counter {suite : MlKemParameterSet} {rootKey binding record frame : Bytes}
    {direction : PqControlFrame.PqControlDirection} {keyEpoch : Nat} {nonce : Nonce}
    (h : PqControlFrame.sealPqControlFrame L suite rootKey binding direction keyEpoch record nonce =
      .ok frame) :
    ∃ counter, PqControlFrame.inspectControlRecord record suite binding = .ok ⟨counter, keyEpoch⟩ ∧
      beNat (slice (frame.take CELL_HEADER_BYTES) 33 8) = counter := by
  obtain ⟨counter, hsealable, -, rfl⟩ := PqControlFrame.sealPqControlFrame_eq_ok.mp h
  exact ⟨counter, hsealable.inspect, counter_of_cellHeader hsealable.binding nonce.property
    (lt_256_pow_8 hsealable.counter)⟩

/-- The key of a message, a control frame or a cover cell comes from the input of its call; two
calls, of one purpose or of two, have one input only if they are the same call: in purpose, root,
suite, binding, direction and epoch, and for messages in the header with its counters. The counters
of frames and cells are no part of a derivation; they stand in the header that is authenticated. -/
theorem key_separation (L : LibCrypto) :
    (∀ (d : Derivation) (key : Bytes), d.Derives L key → key = d.keyInput.key L) ∧
    (∀ (d d' : Derivation) (key key' : Bytes), d.Derives L key → d'.Derives L key' →
      d.keyInput = d'.keyInput → d = d') ∧
    (∀ suite rootKey binding direction keyEpoch record nonce frame,
      PqControlFrame.sealPqControlFrame L suite rootKey binding direction keyEpoch record nonce =
        .ok frame → ∃ counter,
          PqControlFrame.inspectControlRecord record suite binding = .ok ⟨counter, keyEpoch⟩ ∧
          beNat (slice (frame.take CELL_HEADER_BYTES) 33 8) = counter) ∧
    (∀ rootSuite rootKey binding direction keyEpoch counter content nonce frame,
      CoverCell.sealCoverCell L rootSuite rootKey binding direction keyEpoch counter content nonce =
        .ok frame → beNat (slice (frame.take CELL_HEADER_BYTES) 33 8) = counter) :=
  ⟨fun _ _ h => h.key_eq, fun _ _ _ _ h h' heq => Derivation.eq_of_keyInput h h' heq,
    fun _ _ _ _ _ _ _ _ h => controlFrame_counter h, fun _ _ _ _ _ _ _ _ _ h => coverCell_counter h⟩

end KeySeparation

end P2Party
