import P2Party.PqHealing.Record

/-!
# Canonical healing records

The encoders and decoders of `pqHealing.ts` are separate code. Here they are shown to be
inverse to each other, byte for byte:

- `encodeOffer_eq_ok`, `encodeAdvance_eq_ok`, `encodePqHealingAck_eq_ok`: what an encoder
  accepts and what it writes;
- `decodeOffer_canonical`, `decodeAdvance_canonical`, `decodePqHealingAck_canonical`: what a
  decoder accepts is what the encoder writes for the fields it returns;
- `OfferOnly`, `AdvanceOnly`, `AckOnly`: a record is of one kind, and both the length test
  and `inspectPqHealingRecord` say which;
- `healing_record_codec`: the four together.

Without an expected binding an ADVANCE may embed the OFFER of another edge
(`splicedAdvance_accepted`); with one it may not.
-/

namespace P2Party

open Base

namespace PqHealing

variable {suite : MlKemParameterSet} {binding publicKey ciphertext record : Bytes}
  {counter fromEpoch toEpoch : Nat}

/-! ## What the encoders accept -/

theorem tagToParameterSet_eq_ok {tag : UInt8} (h : tagToParameterSet tag = .ok suite) :
    parameterSetToTag suite = tag := by
  unfold tagToParameterSet at h
  split_ifs at h with h1 h2 h3
  · cases h
    exact h1.symm
  · cases h
    exact h2.symm
  · cases h
    exact h3.symm

theorem encodeHeader_eq_ok {type : UInt8} :
    encodeHeader type suite binding counter fromEpoch toEpoch = .ok record ↔
      HeaderFits binding counter fromEpoch ∧ toEpoch = fromEpoch + 1 ∧
        record = headerBytes type suite binding counter fromEpoch toEpoch := by
  constructor
  · intro h
    simp only [encodeHeader, requireBytes, requireU64, except_bind_eq_ok, demand_eq_ok, exists_const,
      except_pure_eq_ok] at h
    obtain ⟨hb, hcounter, hfrom, -, ⟨hne, hto⟩, rfl⟩ := h
    exact ⟨⟨hb, hcounter, Nat.lt_of_le_of_ne hfrom hne⟩, hto, rfl⟩
  · rintro ⟨hfits, rfl, rfl⟩
    exact encodeHeader_eq hfits

/-- An OFFER is written exactly for fields that fit. -/
theorem encodeOffer_eq_ok :
    encodeOffer suite binding counter fromEpoch publicKey = .ok record ↔
      HeaderFits binding counter fromEpoch ∧ publicKey.length = suite.publicKeyBytes ∧
        record = offerRecord suite binding counter fromEpoch publicKey := by
  constructor
  · intro h
    simp only [encodeOffer, requireBytes, except_bind_eq_ok, demand_eq_ok, exists_const,
      except_pure_eq_ok, encodeHeader_eq_ok] at h
    obtain ⟨hpk, header, ⟨hfits, -, rfl⟩, rfl⟩ := h
    exact ⟨hfits, hpk, rfl⟩
  · rintro ⟨hfits, hpk, rfl⟩
    exact encodeOffer_eq hfits hpk

/-- An ADVANCE is written exactly for fields that fit, one epoch after that of its OFFER. -/
theorem encodeAdvance_eq_ok {offer : DecodedOffer} :
    encodeAdvance suite binding counter offer ciphertext = .ok record ↔
      HeaderFits binding counter offer.fromEpoch ∧ offer.toEpoch = offer.fromEpoch + 1 ∧
        ciphertext.length = suite.ciphertextBytes ∧
        record = advanceRecord suite binding counter offer ciphertext := by
  constructor
  · intro h
    simp only [encodeAdvance, requireBytes, except_bind_eq_ok, demand_eq_ok, exists_const,
      except_pure_eq_ok, encodeHeader_eq_ok] at h
    obtain ⟨hct, header, ⟨hfits, hto, rfl⟩, rfl⟩ := h
    refine ⟨hfits, hto, hct, ?_⟩
    rw [advanceRecord, hto]
  · rintro ⟨hfits, hto, hct, rfl⟩
    exact encodeAdvance_eq hfits hto hct

/-- An acknowledgement is written exactly for fields that fit. -/
theorem encodePqHealingAck_eq_ok {ack : PqHealingAdvanceAcknowledgement} :
    encodePqHealingAck ack suite binding = .ok record ↔
      AckFits binding ack ∧ record = ackRecord suite binding ack := by
  constructor
  · intro h
    simp only [encodePqHealingAck, requireAcknowledgement, requireBytes, requireU64,
      except_bind_eq_ok, demand_eq_ok, exists_const, except_pure_eq_ok] at h
    obtain ⟨hb, _, ⟨hepoch, hcounter, rfl⟩, rfl⟩ := h
    exact ⟨⟨hb, hepoch, hcounter⟩, rfl⟩
  · rintro ⟨hfits, rfl⟩
    exact encodePqHealingAck_eq hfits

/-! ## A header is its fields -/

/-- The 64 bytes a record starts with, put together again from its fields. -/
theorem headerBytes_of_fields {type : UInt8} (hlen : PQ_HEALING_RECORD_HEADER_BYTES ≤ record.length)
    (hmagic : slice record 0 4 = MAGIC) (hversion : byteAt record 4 = FORMAT_VERSION)
    (htype : byteAt record 5 = type) (hsuite : byteAt record 6 = parameterSetToTag suite)
    (hflags : byteAt record 7 = RESERVED_FLAGS) :
    headerBytes type suite (slice record 8 32) (beNat (slice record 40 8))
        (beNat (slice record 48 8)) (beNat (slice record 56 8)) ++
      record.drop PQ_HEALING_RECORD_HEADER_BYTES = record := by
  have hlen' : 64 ≤ record.length := hlen
  have htags : [FORMAT_VERSION, type, parameterSetToTag suite, RESERVED_FLAGS] ++ record.drop 8 =
      record.drop 4 := by
    rw [← hversion, ← htype, ← hsuite, ← hflags]
    show byteAt record 4 :: byteAt record 5 :: byteAt record 6 :: byteAt record 7 ::
      record.drop 8 = record.drop 4
    rw [byteAt, byteAt, byteAt, byteAt, getD_cons_drop (show 7 < record.length by omega),
      getD_cons_drop (show 6 < record.length by omega), getD_cons_drop (show 5 < record.length by omega),
      getD_cons_drop (show 4 < record.length by omega)]
  calc
    headerBytes type suite (slice record 8 32) (beNat (slice record 40 8))
          (beNat (slice record 48 8)) (beNat (slice record 56 8)) ++
        record.drop PQ_HEALING_RECORD_HEADER_BYTES
      = MAGIC ++ ([FORMAT_VERSION, type, parameterSetToTag suite, RESERVED_FLAGS] ++
          (slice record 8 32 ++ (beBytes 8 (beNat (slice record 40 8)) ++
            (beBytes 8 (beNat (slice record 48 8)) ++
              (beBytes 8 (beNat (slice record 56 8)) ++ record.drop (56 + 8)))))) := by
        simp only [headerBytes, List.append_assoc]
    _ = MAGIC ++ record.drop 4 := by
        rw [beBytes_slice_append_drop (show 56 + 8 ≤ record.length by omega),
          beBytes_slice_append_drop (show 48 + 8 ≤ record.length by omega),
          beBytes_slice_append_drop (show 40 + 8 ≤ record.length by omega), slice_append_drop, htags]
    _ = record := by
        rw [← hmagic]
        exact slice_append_drop record 0 4

/-- A header that decodes is the header of its fields. -/
theorem decodeHeader_canonical {type : UInt8} {expected : Option Bytes} {header : DecodedHeader}
    (h : decodeHeader record type suite expected = .ok header) :
    headerBytes type suite (slice record 8 32) header.senderCounter header.fromEpoch
        (header.fromEpoch + 1) ++ record.drop PQ_HEALING_RECORD_HEADER_BYTES = record ∧
      HeaderFits (slice record 8 32) header.senderCounter header.fromEpoch := by
  obtain ⟨hfrom, -, hcounter, -⟩ := decodeHeader_spec h
  simp only [decodeHeader, except_bind_eq_ok, demand_eq_ok, exists_const, except_pure_eq_ok] at h
  obtain ⟨hlen, hmagic, hversion, htype, hflags, _, htag, rfl, -, ⟨-, hto⟩, rfl⟩ := h
  refine ⟨?_, length_slice (by have : 64 ≤ record.length := hlen; omega), hcounter, hfrom⟩
  rw [← hto]
  exact headerBytes_of_fields hlen hmagic hversion htype (tagToParameterSet_eq_ok htag).symm hflags

/-! ## What a decoder accepts is what the encoder writes -/

/-- An accepted OFFER, written again from its fields, is the same bytes. -/
theorem decodeOffer_canonical {expected : Option Bytes} {offer : DecodedOffer}
    (h : decodeOffer record suite expected = .ok offer) :
    encodeOffer suite (slice record 8 32) offer.senderCounter offer.fromEpoch offer.publicKey =
      .ok record := by
  have hspec := decodeOffer_spec h
  simp only [decodeOffer, except_bind_eq_ok, demand_eq_ok, exists_const, except_pure_eq_ok] at h
  obtain ⟨header, hheader, hlen, rfl⟩ := h
  obtain ⟨hbytes, hfits⟩ := decodeHeader_canonical hheader
  have hpk : (record.drop PQ_HEALING_RECORD_HEADER_BYTES).length = suite.publicKeyBytes := by
    rw [List.length_drop, hlen, offerLength, Nat.add_sub_cancel_left]
  exact encodeOffer_eq_ok.mpr ⟨hfits, hpk, hbytes.symm⟩

/-- An accepted ADVANCE, written again from its fields, is the same bytes. -/
theorem decodeAdvance_canonical {expected : Option Bytes} {advance : DecodedAdvance}
    (h : decodeAdvance record suite expected = .ok advance) :
    encodeAdvance suite (slice record 8 32) advance.senderCounter advance.offer advance.ciphertext =
      .ok record := by
  have hspec := decodeAdvance_spec h
  simp only [decodeAdvance, except_bind_eq_ok, demand_eq_ok, exists_const, except_pure_eq_ok] at h
  obtain ⟨header, hheader, -, offer, hoffer, ⟨hfrom, hto⟩, rfl⟩ := h
  obtain ⟨hbytes, hfits⟩ := decodeHeader_canonical hheader
  have hofferBytes := (decodeOffer_spec hoffer).bytes_eq
  refine encodeAdvance_eq_ok.mpr ⟨?_, (decodeOffer_spec hoffer).to_eq, hspec.ciphertext_length, ?_⟩
  · show HeaderFits _ _ offer.fromEpoch
    rw [hfrom]
    exact hfits
  · -- the nested OFFER and the ciphertext are the two halves of what follows the header
    show record = headerBytes ADVANCE_TYPE suite _ _ offer.fromEpoch (offer.fromEpoch + 1) ++
      (offer.bytes ++ record.drop (PQ_HEALING_RECORD_HEADER_BYTES + offerLength suite))
    rw [hofferBytes, slice_append_drop, hfrom]
    exact hbytes.symm

/-- An accepted acknowledgement, written again from its fields, is the same bytes. -/
theorem decodePqHealingAck_canonical {ack : PqHealingAdvanceAcknowledgement}
    (h : decodePqHealingAck record suite binding = .ok ack) :
    encodePqHealingAck ack suite binding = .ok record := by
  simp only [decodePqHealingAck, requireBytes, except_bind_eq_ok, demand_eq_ok, exists_const,
    except_pure_eq_ok] at h
  obtain ⟨hb, hlen, hmagic, hversion, htype, hflags, _, htag, rfl, hbind, hzero, rfl⟩ := h
  have hfield : ∀ off, beNat (slice record off 8) ≤ MAX_U64 := fun off =>
    Nat.le_of_lt_succ (beNat_slice_lt record off 8)
  refine encodePqHealingAck_eq_ok.mpr ⟨⟨hb, hfield 48, hfield 40⟩, ?_⟩
  have hbytes := headerBytes_of_fields (Nat.le_of_eq hlen.symm) hmagic hversion htype
    (tagToParameterSet_eq_ok htag).symm hflags
  have hend : record.drop PQ_HEALING_RECORD_HEADER_BYTES = [] :=
    List.drop_eq_nil_of_le (Nat.le_of_eq hlen)
  rw [hbind, hzero, hend, List.append_nil] at hbytes
  exact hbytes.symm

/-! ## Kinds of records -/

/-- An OFFER passes for nothing else. -/
structure OfferOnly (suite : MlKemParameterSet) (binding record : Bytes) (offer : DecodedOffer) :
    Prop where
  length : record.length ≠ PQ_HEALING_ACK_BYTES
  inspect : inspectPqHealingRecord record suite = .ok (.offer binding offer)
  notAdvance : ∀ s expected advance, decodeAdvance record s expected ≠ .ok advance
  notAck : ∀ s b ack, decodePqHealingAck record s b ≠ .ok ack

/-- An ADVANCE passes for nothing else. -/
structure AdvanceOnly (suite : MlKemParameterSet) (binding record : Bytes)
    (advance : DecodedAdvance) : Prop where
  length : record.length ≠ PQ_HEALING_ACK_BYTES
  inspect : inspectPqHealingRecord record suite = .ok (.advance binding advance)
  notOffer : ∀ s expected offer, decodeOffer record s expected ≠ .ok offer
  notAck : ∀ s b ack, decodePqHealingAck record s b ≠ .ok ack

/-- An acknowledgement passes for nothing else. -/
structure AckOnly (record : Bytes) : Prop where
  length : record.length = PQ_HEALING_ACK_BYTES
  notInspected : ∀ s inspected, inspectPqHealingRecord record s ≠ .ok inspected
  notOffer : ∀ s expected offer, decodeOffer record s expected ≠ .ok offer
  notAdvance : ∀ s expected advance, decodeAdvance record s expected ≠ .ok advance

theorem byteAt_of_decodePqHealingAck {ack : PqHealingAdvanceAcknowledgement}
    (h : decodePqHealingAck record suite binding = .ok ack) :
    record.length = PQ_HEALING_ACK_BYTES ∧ byteAt record 5 = ACK_TYPE := by
  simp only [decodePqHealingAck, requireBytes, except_bind_eq_ok, demand_eq_ok, exists_const,
    except_pure_eq_ok] at h
  exact ⟨h.2.1, h.2.2.2.2.1⟩

theorem offerLength_gt (suite : MlKemParameterSet) : PQ_HEALING_ACK_BYTES < offerLength suite := by
  cases suite <;> decide

theorem advanceLength_gt (suite : MlKemParameterSet) :
    PQ_HEALING_ACK_BYTES < advanceLength suite := by
  cases suite <;> decide

/-- Whatever a decoder of OFFERs accepts is an OFFER to every other reader. -/
theorem offerOnly_of_decodeOffer {expected : Option Bytes} {offer : DecodedOffer}
    (h : decodeOffer record suite expected = .ok offer) :
    OfferOnly suite (slice record 8 32) record offer := by
  have hspec := decodeOffer_spec h
  have hlong : PQ_HEALING_ACK_BYTES < record.length := hspec.length_eq ▸ offerLength_gt suite
  constructor
  · exact Nat.ne_of_gt hlong
  · have hheader : PQ_HEALING_RECORD_HEADER_BYTES ≤ record.length := Nat.le_of_lt hlong
    simp only [inspectPqHealingRecord, demand_bind, hheader, if_true, hspec.type_eq,
      hspec.decode_none, ok_bind, hspec.bytes_eq]
    rfl
  · intro s e advance hadvance
    have htype := (decodeAdvance_spec hadvance).type_eq
    rw [hspec.type_eq] at htype
    exact absurd htype (by decide)
  · intro s b ack hack
    have hlen := (byteAt_of_decodePqHealingAck hack).1
    omega

/-- Whatever a decoder of ADVANCEs accepts is an ADVANCE to every other reader. -/
theorem advanceOnly_of_decodeAdvance {expected : Option Bytes} {advance : DecodedAdvance}
    (h : decodeAdvance record suite expected = .ok advance) :
    AdvanceOnly suite (slice record 8 32) record advance := by
  have hspec := decodeAdvance_spec h
  have hlong : PQ_HEALING_ACK_BYTES < record.length := hspec.length_eq ▸ advanceLength_gt suite
  have hother : byteAt record 5 ≠ OFFER_TYPE := by
    rw [hspec.type_eq]
    decide
  constructor
  · exact Nat.ne_of_gt hlong
  · have hheader : PQ_HEALING_RECORD_HEADER_BYTES ≤ record.length := Nat.le_of_lt hlong
    simp only [inspectPqHealingRecord, demand_bind, hheader, if_true, hspec.type_eq,
      hspec.decode_none, ok_bind, hspec.bytes_eq]
    rfl
  · intro s e offer hoffer
    exact hother (decodeOffer_spec hoffer).type_eq
  · intro s b ack hack
    have hlen := (byteAt_of_decodePqHealingAck hack).1
    omega

/-- Whatever the decoder of acknowledgements accepts is an acknowledgement to every other
reader. -/
theorem ackOnly_of_decodePqHealingAck {ack : PqHealingAdvanceAcknowledgement}
    (h : decodePqHealingAck record suite binding = .ok ack) : AckOnly record := by
  obtain ⟨hlen, htype⟩ := byteAt_of_decodePqHealingAck h
  have hoffer : byteAt record 5 ≠ OFFER_TYPE := by
    rw [htype]
    decide
  have hadvance : byteAt record 5 ≠ ADVANCE_TYPE := by
    rw [htype]
    decide
  constructor
  · exact hlen
  · intro s inspected hinspected
    simp only [inspectPqHealingRecord, if_neg hoffer, if_neg hadvance, except_bind_eq_ok,
      reduceCtorEq, and_false, exists_false] at hinspected
  · intro s e offer hdecoded
    exact hoffer (decodeOffer_spec hdecoded).type_eq
  · intro s e advance hdecoded
    exact hadvance (decodeAdvance_spec hdecoded).type_eq

/-! ## The OFFER inside an ADVANCE -/

/-- The OFFER embedded in an accepted ADVANCE is canonical for the same suite and epochs, one
epoch apart and below the end of the range; its binding is the expected one, if there is one. -/
structure EmbedsOffer (suite : MlKemParameterSet) (expected : Option Bytes) (record : Bytes)
    (advance : DecodedAdvance) : Prop where
  bytes : advance.offer.bytes = slice record PQ_HEALING_RECORD_HEADER_BYTES (offerLength suite)
  accepted : decodeOffer advance.offer.bytes suite expected = .ok advance.offer
  fromEpoch : advance.offer.fromEpoch = advance.fromEpoch
  toEpoch : advance.offer.toEpoch = advance.toEpoch
  consecutive : advance.toEpoch = advance.fromEpoch + 1
  inRange : advance.fromEpoch < MAX_U64
  binding : ∀ b ∈ expected, slice record 8 32 = b ∧ slice advance.offer.bytes 8 32 = b

theorem embedsOffer_of_decodeAdvance {expected : Option Bytes} {advance : DecodedAdvance}
    (h : decodeAdvance record suite expected = .ok advance) :
    EmbedsOffer suite expected record advance := by
  have hspec := decodeAdvance_spec h
  have hoffer := decodeOffer_spec hspec.offer_decodes
  constructor
  · simp only [decodeAdvance, except_bind_eq_ok, demand_eq_ok, exists_const, except_pure_eq_ok] at h
    obtain ⟨header, -, -, offer, hnested, -, rfl⟩ := h
    exact (decodeOffer_spec hnested).bytes_eq
  · exact hspec.offer_decodes
  · exact hspec.offer_from
  · rw [hoffer.to_eq, hspec.offer_from, hspec.to_eq]
  · exact hspec.to_eq
  · exact hspec.from_lt
  · intro b hb
    exact ⟨hspec.binding_eq b hb, hoffer.binding_eq b hb⟩

/-- An ADVANCE of one edge around the OFFER of another. -/
def splicedAdvance : DecodedAdvance :=
  advanceOf .mlkem512 (List.replicate 32 1) 0
    (offerOf .mlkem512 (List.replicate 32 2) 0 0 (List.replicate 800 0)) (List.replicate 768 0)

/-- Inspection has no binding to compare with: it accepts the spliced record, whose OFFER does not
carry the binding of the ADVANCE. -/
theorem splicedAdvance_accepted :
    inspectPqHealingRecord splicedAdvance.bytes .mlkem512 =
        .ok (.advance (List.replicate 32 1) splicedAdvance) ∧
      slice splicedAdvance.offer.bytes 8 32 ≠ List.replicate 32 1 := by
  have houter : HeaderFits (List.replicate 32 1) 0 0 := ⟨rfl, by decide, by decide⟩
  have hinner : HeaderFits (List.replicate 32 2) 0 0 := ⟨rfl, by decide, by decide⟩
  have hoffer : decodeOffer
      (offerRecord .mlkem512 (List.replicate 32 2) 0 0 (List.replicate 800 0)) .mlkem512 none =
        .ok (offerOf .mlkem512 (List.replicate 32 2) 0 0 (List.replicate 800 0)) :=
    decodeOffer_offerRecord hinner List.length_replicate nofun
  have hdecoded : decodeAdvance splicedAdvance.bytes .mlkem512 none = .ok splicedAdvance :=
    decodeAdvance_advanceRecord houter nofun hoffer List.length_replicate
  have hbinding : slice splicedAdvance.bytes 8 32 = List.replicate 32 1 :=
    slice_header_binding rfl
  constructor
  · rw [← hbinding]
    exact (advanceOnly_of_decodeAdvance hdecoded).inspect
  · have hnested : slice splicedAdvance.offer.bytes 8 32 = List.replicate 32 2 :=
      slice_header_binding rfl
    rw [hnested]
    decide

/-! ## The codec -/

/-- Encoders and decoders of healing records are inverse to each other, and a record has one
kind. The expected binding of a decoder is optional: where it is given it is compared with that of
the record and of the OFFER inside an ADVANCE, and without it neither is compared. -/
theorem healing_record_codec :
    -- the encoders write a record for all fields in range, and its decoder returns them
    (∀ suite binding counter fromEpoch publicKey, HeaderFits binding counter fromEpoch →
      publicKey.length = suite.publicKeyBytes →
      ∃ record, encodeOffer suite binding counter fromEpoch publicKey = .ok record ∧
        ∀ expected : Option Bytes, (∀ b ∈ expected, b = binding) →
          decodeOffer record suite expected =
            .ok ⟨record, publicKey, counter, fromEpoch, fromEpoch + 1⟩) ∧
    (∀ suite binding counter offerBytes offer ciphertext, ∀ expected : Option Bytes,
      binding.length = PQ_HEALING_BINDING_BYTES → counter ≤ MAX_U64 →
      (∀ b ∈ expected, b = binding) → decodeOffer offerBytes suite expected = .ok offer →
      ciphertext.length = suite.ciphertextBytes →
      ∃ record, encodeAdvance suite binding counter offer ciphertext = .ok record ∧
        decodeAdvance record suite expected =
          .ok ⟨record, offer, ciphertext, counter, offer.fromEpoch, offer.toEpoch⟩) ∧
    (∀ suite binding ack, AckFits binding ack →
      ∃ record, encodePqHealingAck ack suite binding = .ok record ∧
        decodePqHealingAck record suite binding = .ok ack) ∧
    -- what a decoder accepts is written again as it was
    (∀ record suite expected offer, decodeOffer record suite expected = .ok offer →
      encodeOffer suite (slice record 8 32) offer.senderCounter offer.fromEpoch offer.publicKey =
        .ok record) ∧
    (∀ record suite expected advance, decodeAdvance record suite expected = .ok advance →
      encodeAdvance suite (slice record 8 32) advance.senderCounter advance.offer
        advance.ciphertext = .ok record) ∧
    (∀ record suite binding ack, decodePqHealingAck record suite binding = .ok ack →
      encodePqHealingAck ack suite binding = .ok record) ∧
    -- the kinds are disjoint, and inspection and the length test tell them apart
    (∀ record suite expected offer, decodeOffer record suite expected = .ok offer →
      OfferOnly suite (slice record 8 32) record offer) ∧
    (∀ record suite expected advance, decodeAdvance record suite expected = .ok advance →
      AdvanceOnly suite (slice record 8 32) record advance) ∧
    (∀ record suite binding ack, decodePqHealingAck record suite binding = .ok ack →
      AckOnly record) ∧
    -- an ADVANCE answers a canonical OFFER
    (∀ record suite expected advance, decodeAdvance record suite expected = .ok advance →
      EmbedsOffer suite expected record advance) := by
  refine ⟨?_, ?_, ?_, ?_, ?_, ?_, ?_, ?_, ?_, ?_⟩
  · intro suite binding counter fromEpoch publicKey hfits hpk
    exact ⟨_, encodeOffer_eq hfits hpk, fun expected hexp => decodeOffer_offerRecord hfits hpk hexp⟩
  · intro suite binding counter offerBytes offer ciphertext expected hb hcounter hexp hoffer hct
    have hspec := decodeOffer_spec hoffer
    have hfits : HeaderFits binding counter offer.fromEpoch := ⟨hb, hcounter, hspec.from_lt⟩
    refine ⟨_, encodeAdvance_eq hfits hspec.to_eq hct, ?_⟩
    rw [hspec.to_eq]
    exact decodeAdvance_advanceRecord hfits hexp (hspec.bytes_eq ▸ hoffer) hct
  · intro suite binding ack hfits
    exact ⟨_, encodePqHealingAck_eq hfits, decodePqHealingAck_ackRecord hfits⟩
  · intro record suite expected offer h
    exact decodeOffer_canonical h
  · intro record suite expected advance h
    exact decodeAdvance_canonical h
  · intro record suite binding ack h
    exact decodePqHealingAck_canonical h
  · intro record suite expected offer h
    exact offerOnly_of_decodeOffer h
  · intro record suite expected advance h
    exact advanceOnly_of_decodeAdvance h
  · intro record suite binding ack h
    exact ackOnly_of_decodePqHealingAck h
  · intro record suite expected advance h
    exact embedsOffer_of_decodeAdvance h

/-- One OFFER, written, read and classified. -/
theorem healing_record_codec_sample :
    ∃ record, encodeOffer .mlkem512 (List.replicate 32 7) 3 4 (List.replicate 800 9) = .ok record ∧
      OfferOnly .mlkem512 (slice record 8 32) record
        ⟨record, List.replicate 800 9, 3, 4, 5⟩ := by
  obtain ⟨roundTrip, -, -, -, -, -, offerOnly, -⟩ := healing_record_codec
  obtain ⟨record, hencoded, hdecoded⟩ := roundTrip .mlkem512 (List.replicate 32 7) 3 4
    (List.replicate 800 9) ⟨rfl, by decide, by decide⟩ List.length_replicate
  exact ⟨record, hencoded, offerOnly record .mlkem512 none _ (hdecoded none nofun)⟩

end PqHealing

end P2Party
