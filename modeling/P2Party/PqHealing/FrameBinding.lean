import P2Party.PqHealing.Frame
import P2Party.PqHealing.RecordCanonicity
import P2Party.Cryptography.SealedCell

/-!
# A control frame is bound to its parameters

`sealPqControlFrame` puts a record into a frame of the uniform size and `openPqControlFrame`
takes it out again. Every parameter is part of what the AEAD authenticates: the binding and the
epoch stand in the header and in the key, the suite, the root and the direction in the key.

- `sealPqControlFrame_eq_ok`: when the sealer returns, and what;
- `openPqControlFrame_succeeds`: an opened frame is an AEAD opening that succeeded;
- `control_frame_sealed`: length, round trip, and no other frame or parameter opens.
-/

namespace P2Party

open Base PqHealing

namespace PqControlFrame

variable {L : LibCrypto} {suite suite' : MlKemParameterSet}
  {rootKey rootKey' binding binding' record record' frame frame' : Bytes}
  {direction direction' : PqControlDirection} {keyEpoch keyEpoch' : Nat} {nonce : Nonce}

/-- The parameters of a control frame as the key derivation takes them. -/
def controlParams (suite : MlKemParameterSet) (rootKey binding : Bytes)
    (direction : PqControlDirection) (keyEpoch : Nat) : CellParams where
  suiteTag := suiteTag suite
  directionTag := directionTag direction
  rootKey := rootKey
  binding := binding
  keyEpoch := keyEpoch

theorem suiteTag_injective : Function.Injective suiteTag := by
  intro a b h
  cases a <;> cases b <;> first | rfl | exact absurd h (by decide)

theorem directionTag_injective : Function.Injective directionTag := by
  intro a b h
  cases a <;> cases b <;> first | rfl | exact absurd h (by decide)

/-- No two parameters are alike to the key derivation. -/
theorem controlParams_inj (h : controlParams suite rootKey binding direction keyEpoch =
      controlParams suite' rootKey' binding' direction' keyEpoch') :
    suite = suite' ∧ rootKey = rootKey' ∧ binding = binding' ∧ direction = direction' ∧
      keyEpoch = keyEpoch' := by
  obtain ⟨hsuite, hdirection, hroot, hbinding, hepoch⟩ := CellParams.mk.inj h
  exact ⟨suiteTag_injective hsuite, hroot, hbinding, directionTag_injective hdirection, hepoch⟩

/-! ## What the sealer takes -/

theorem length_of_inspectPqHealingRecord {inspected : PqHealingRecord}
    (h : inspectPqHealingRecord record suite = .ok inspected) :
    PQ_HEALING_RECORD_HEADER_BYTES ≤ record.length := by
  simp only [inspectPqHealingRecord, except_bind_eq_ok, demand_eq_ok, exists_const] at h
  exact h.1

/-- A record that passes inspection is not empty and its counter and epoch are in range. -/
theorem inspectControlRecord_spec {inspected : InspectedControlRecord}
    (h : inspectControlRecord record suite binding = .ok inspected) :
    0 < record.length ∧ inspected.counter ≤ MAX_U64 ∧ inspected.keyEpoch ≤ MAX_U64 := by
  unfold inspectControlRecord at h
  split_ifs at h with hack
  · obtain ⟨ack, hdecoded, h⟩ := except_bind_eq_ok.mp h
    cases h
    obtain ⟨hfits, -⟩ := encodePqHealingAck_eq_ok.mp (decodePqHealingAck_canonical hdecoded)
    exact ⟨hack ▸ Nat.zero_lt_succ _, hfits.advanceCounter, hfits.epoch⟩
  · obtain ⟨r, hinspect, h⟩ := except_bind_eq_ok.mp h
    have hlen := length_of_inspectPqHealingRecord hinspect
    have hpos : 0 < record.length := Nat.lt_of_lt_of_le (by decide) hlen
    simp only [inspectPqHealingRecord, demand_bind, if_pos hlen] at hinspect
    split_ifs at hinspect
    · obtain ⟨offer, hoffer, hr⟩ := except_bind_eq_ok.mp hinspect
      cases hr
      have hspec := decodeOffer_spec hoffer
      simp only [except_bind_eq_ok, demand_eq_ok, exists_const, except_pure_eq_ok] at h
      obtain ⟨-, rfl⟩ := h
      exact ⟨hpos, hspec.counter_le, Nat.le_of_lt hspec.from_lt⟩
    · obtain ⟨advance, hadvance, hr⟩ := except_bind_eq_ok.mp hinspect
      cases hr
      have hspec := decodeAdvance_spec hadvance
      simp only [except_bind_eq_ok, demand_eq_ok, exists_const, except_pure_eq_ok] at h
      obtain ⟨-, rfl⟩ := h
      exact ⟨hpos, hspec.counter_le, Nat.le_of_lt hspec.from_lt⟩

/-- The sealer returns exactly for a record of this edge and epoch that fits, under a root of the
right length, and returns its frame. -/
theorem sealPqControlFrame_eq_ok :
    sealPqControlFrame L suite rootKey binding direction keyEpoch record nonce = .ok frame ↔
      ∃ counter, Sealable suite binding record counter keyEpoch ∧ rootKey.length = 32 ∧
        frame = sealedFrame L suite rootKey binding direction counter keyEpoch record nonce := by
  constructor
  · intro h
    simp only [sealPqControlFrame, deriveFrameKey, requireBytes, requireU64, except_bind_eq_ok,
      demand_eq_ok, exists_const, except_pure_eq_ok] at h
    obtain ⟨hb, he, ⟨counter, epoch⟩, hinspect, rfl, hfits, _, ⟨hroot, -, -, rfl⟩, rfl⟩ := h
    obtain ⟨hpos, hcounter, -⟩ := inspectControlRecord_spec hinspect
    exact ⟨counter, ⟨hinspect, hb, hcounter, he, hpos, Nat.not_lt.mp hfits⟩, hroot, rfl⟩
  · rintro ⟨counter, hsealable, hroot, rfl⟩
    exact sealPqControlFrame_eq hsealable hroot

/-! ## What an opened frame says -/

/-- A frame that was opened is one the AEAD opened, under an epoch of the range. -/
theorem openPqControlFrame_succeeds
    (h : openPqControlFrame L suite rootKey binding direction keyEpoch frame = .ok record) :
    keyEpoch ≤ MAX_U64 ∧ ((controlParams suite rootKey binding direction keyEpoch).opening L
      KEY_DOMAIN frame).Succeeds L := by
  simp only [openPqControlFrame, deriveFrameKey, requireBytes, requireU64, except_bind_eq_ok,
    demand_eq_ok, exists_const, except_pure_eq_ok] at h
  obtain ⟨-, -, he, -, -, -, -, _, ⟨-, -, -, rfl⟩, h⟩ := h
  refine ⟨he, ?_⟩
  by_contra hnone
  have hfails : L.aeadOpen (L.hkdfExpand (L.hkdfExtract rootKey binding)
      (frameKeyInfo suite binding direction keyEpoch) 32) (slice frame 57 RATCHET_NONCE_LEN)
      (frame.take PQ_CONTROL_FRAME_HEADER_BYTES)
      (frame.drop PQ_CONTROL_FRAME_HEADER_BYTES) = none :=
    Option.not_isSome_iff_eq_none.mp hnone
  rw [hfails] at h
  cases h

/-- **Control frames.** What the sealer returns has the uniform length and opens to its record
under the same parameters; any other frame, and this frame under any other suite, root, binding,
direction or epoch, is refused, unless the AEAD is forged or two inputs derive one key. -/
theorem control_frame_sealed (hL : L.AeadLaws)
    (h : sealPqControlFrame L suite rootKey binding direction keyEpoch record nonce = .ok frame) :
    frame.length = WIRE_CHUNK_FRAME_LEN ∧
    openPqControlFrame L suite rootKey binding direction keyEpoch frame = .ok record ∧
    ∀ suite' rootKey' binding' direction' keyEpoch' frame',
      (suite', rootKey', binding', direction', keyEpoch', frame') ≠
        (suite, rootKey, binding, direction, keyEpoch, frame) →
      ¬ KeyInput.Collide L
        ((controlParams suite' rootKey' binding' direction' keyEpoch').keyInput KEY_DOMAIN)
        ((controlParams suite rootKey binding direction keyEpoch).keyInput KEY_DOMAIN) →
      ¬ Opening.Forged L
        ((controlParams suite rootKey binding direction keyEpoch).opening L KEY_DOMAIN frame)
        ((controlParams suite' rootKey' binding' direction' keyEpoch').opening L KEY_DOMAIN
          frame') →
      ∃ e, openPqControlFrame L suite' rootKey' binding' direction' keyEpoch' frame' = .error e := by
  obtain ⟨counter, hsealable, hroot, hframe⟩ := sealPqControlFrame_eq_ok.mp h
  refine ⟨?_, ?_, ?_⟩
  · rw [hframe]
    exact length_sealedFrame hsealable
  · rw [hframe]
    exact openPqControlFrame_sealedFrame hL hsealable hroot
  · intro suite' rootKey' binding' direction' keyEpoch' frame' hne hkeys hideal
    cases hopen : openPqControlFrame L suite' rootKey' binding' direction' keyEpoch' frame' with
    | error e => exact ⟨e, rfl⟩
    | ok record' =>
      obtain ⟨he, hsucceeds⟩ := openPqControlFrame_succeeds hopen
      obtain ⟨hparams, rfl⟩ := CellParams.eq_of_succeeds (lt_256_pow_8 he)
        (lt_256_pow_8 hsealable.keyEpoch) hkeys hideal hsucceeds
      obtain ⟨rfl, rfl, rfl, rfl, rfl⟩ := controlParams_inj hparams
      exact absurd rfl hne

/-- One acknowledgement in a frame, opened by its edge and refused by another. -/
theorem control_frame_sealed_sample :
    let record := ackRecord .mlkem512 (List.replicate 32 1) ⟨3, 5⟩
    ∃ frame, sealPqControlFrame LibCrypto.transparent .mlkem512 (List.replicate 32 9)
        (List.replicate 32 1) .initiatorToResponder 3 record default = .ok frame ∧
      openPqControlFrame LibCrypto.transparent .mlkem512 (List.replicate 32 9)
        (List.replicate 32 1) .initiatorToResponder 3 frame = .ok record ∧
      ∃ e, openPqControlFrame LibCrypto.transparent .mlkem512 (List.replicate 32 9)
        (List.replicate 32 2) .initiatorToResponder 3 frame = .error e := by
  intro record
  have hsealable : Sealable .mlkem512 (List.replicate 32 1) record 5 3 :=
    sealable_ack ⟨rfl, by decide, by decide⟩
  have hroot : (List.replicate 32 (9 : UInt8)).length = 32 := List.length_replicate
  have hsealed : sealPqControlFrame LibCrypto.transparent .mlkem512 (List.replicate 32 9)
      (List.replicate 32 1) .initiatorToResponder 3 record default = _ :=
    sealPqControlFrame_eq hsealable hroot
  obtain ⟨-, hopen, hrefused⟩ := control_frame_sealed LibCrypto.transparent_aeadLaws hsealed
  refine ⟨_, hsealed, hopen, hrefused .mlkem512 (List.replicate 32 9) (List.replicate 32 2)
    .initiatorToResponder 3 _ (fun h => ?_) (fun h => ?_) (fun h => ?_)⟩
  · have hbinding : List.replicate 32 (2 : UInt8) = List.replicate 32 1 :=
      (Prod.mk.inj (Prod.mk.inj (Prod.mk.inj h).2).2).1
    exact absurd hbinding (by decide)
  · exact absurd h.2 (by decide)
  · -- the other binding derives a key with another tag
    exact CellParams.transparent_refuses List.length_replicate rfl (by decide) h.2

end PqControlFrame

end P2Party
