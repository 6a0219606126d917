import P2Party.Cover.SlotGrid
import P2Party.Cryptography.WebCrypto
import P2Party.Room.Policy

/-!
# The policy codec, and the schedule it yields

A policy is checked when it is encoded, when it is decoded, and once more by the cover scheduler
that a room with scheduled cover starts (`coverEdge.ts`, `coverRuntime.ts`). The phase of the
schedule is not a field of the policy: every peer derives it from the hash.

- `hashRoomPolicyV1`, `deriveCoverPhaseOffsetMs`, `coverScheduleOf`: the functions of the source;
- `decode_canonical`: what the decoder accepts is what the encoder writes;
- `Scheduled`, `validate_schedule`: what a valid policy says of its schedule, and that the scheduler
  accepts it;
- `room_policy_codec`: all together.
-/

namespace P2Party

open Base

namespace Rooms

variable {policy left right : RoomPolicyV1} {encoded : Bytes}

/-! ## The hash and the schedule -/

/-- `POLICY_HASH_DOMAIN` (roomPolicy.ts:81-83). -/
def POLICY_HASH_DOMAIN : Bytes := textEncode "p2party/room-policy/v1" ++ [0]

/-- `hashRoomPolicyV1` (roomPolicy.ts:366-376). -/
def hashRoomPolicyV1 (W : WebCrypto) (policy : RoomPolicyV1) : Except JsError Bytes := do
  let encoded ← encodeRoomPolicyV1 policy
  return W.sha256 (POLICY_HASH_DOMAIN ++ encoded)

/-- `deriveCoverPhaseOffsetMs` (coverRuntime.ts:100-114). -/
def deriveCoverPhaseOffsetMs (policyHash : Bytes) (coverCadenceMs : Nat) : Except JsError Nat := do
  demand (¬ policyHash.length < 8) (.error "coverRuntime: policy hash must be at least 8 bytes")
  demand (coverCadenceMs ≤ MAX_SAFE_INTEGER ∧ 0 < coverCadenceMs)
    (.error "coverRuntime: cover cadence must be a positive integer")
  return beNat (slice policyHash 0 8) % coverCadenceMs

/-- The schedule of an edge (coverEdge.ts:79-84, coverRuntime.ts:147-153). -/
def coverScheduleOf (policyHash : Bytes) (policy : RoomPolicyV1) : Except JsError Cover.CoverSchedule := do
  let phaseOffsetMs ← deriveCoverPhaseOffsetMs policyHash policy.coverCadenceMs
  return {
    phaseOffsetMs := phaseOffsetMs
    coverCadenceMs := policy.coverCadenceMs
    coverLanes := policy.coverLanes
    coverFramesPerCell := policy.coverFramesPerCell
    coverDurationEpochs := policy.coverDurationEpochs }

/-! ## The encoder and the decoder -/

theorem encodeRoomPolicyV1_eq_ok :
    encodeRoomPolicyV1 policy = .ok encoded ↔
      validateRoomPolicyV1 policy = .ok () ∧ policyBytes policy = encoded := by
  simp only [encodeRoomPolicyV1, except_bind_eq_ok, except_pure_eq_ok]
  constructor
  · rintro ⟨_, hvalid, hbytes⟩
    exact ⟨hvalid, hbytes⟩
  · rintro ⟨hvalid, hbytes⟩
    exact ⟨(), hvalid, hbytes⟩

theorem authModeToByte_of {value : UInt8} {mode : RoomAuthMode} (h : byteToAuthMode value = .ok mode) :
    authModeToByte mode = value := by
  unfold byteToAuthMode at h
  split_ifs at h with h0 h1
  · cases h
    exact h0.symm
  · cases h
    exact h1.symm

theorem pqModeToByte_of {value : UInt8} {mode : RoomPqMode} (h : byteToPqMode value = .ok mode) :
    pqModeToByte mode = value := by
  unfold byteToPqMode at h
  split_ifs at h with h1 h2 h3
  · cases h
    exact h1.symm
  · cases h
    exact h2.symm
  · cases h
    exact h3.symm

theorem rendezvousModeToByte_of {value : UInt8} {mode : RoomRendezvousMode}
    (h : byteToRendezvousMode value = .ok mode) : rendezvousModeToByte mode = value := by
  unfold byteToRendezvousMode at h
  split_ifs at h with h0 h1 h2
  · cases h
    exact h0.symm
  · cases h
    exact h1.symm
  · cases h
    exact h2.symm

theorem coverModeToByte_of {value : UInt8} {mode : RoomCoverMode} (h : byteToCoverMode value = .ok mode) :
    coverModeToByte mode = value := by
  unfold byteToCoverMode at h
  split_ifs at h with h0 h1
  · cases h
    exact h0.symm
  · cases h
    exact h1.symm

/-- What the decoder accepts is what the encoder writes for the policy it returns. -/
theorem decode_canonical (h : decodeRoomPolicyV1 encoded = .ok policy) :
    encodeRoomPolicyV1 policy = .ok encoded := by
  simp only [decodeRoomPolicyV1, except_bind_eq_ok, demand_eq_ok, exists_const, except_pure_eq_ok] at h
  obtain ⟨hlength, hmagic, hzero, authMode, hauth, pqMode, hpq, rendezvousMode, hrendezvous, coverMode,
    hcover, _, hvalid, rfl⟩ := h
  refine encodeRoomPolicyV1_eq_ok.mpr ⟨hvalid, ?_⟩
  have hfits := fits_of_valid hvalid
  have hlength : encoded.length = 32 := hlength
  -- The bytes are put together again from the last field to the first.
  have hreserved : List.replicate 8 0 = encoded.drop 24 := by
    refine (List.eq_replicate_iff.mpr ⟨?_, hzero⟩).symm
    rw [List.length_drop, hlength]
  have hversion : UInt8.ofNat POLICY_FORMAT_VERSION = encoded.getD 4 0 := by
    rw [← UInt8.ofNat_toNat (x := encoded.getD 4 0)]
    exact congrArg UInt8.ofNat hfits.version.symm
  simp only [policyBytes]
  rw [hreserved, beBytes_slice_append_drop (show 22 + 2 ≤ encoded.length by omega),
    beBytes_slice_append_drop (show 20 + 2 ≤ encoded.length by omega),
    beBytes_slice_append_drop (show 18 + 2 ≤ encoded.length by omega),
    beBytes_slice_append_drop (show 14 + 4 ≤ encoded.length by omega),
    beBytes_slice_append_drop (show 10 + 4 ≤ encoded.length by omega),
    authModeToByte_of hauth, pqModeToByte_of hpq, rendezvousModeToByte_of hrendezvous,
    coverModeToByte_of hcover, UInt8.ofNat_toNat, hversion]
  simp only [List.cons_append, List.nil_append]
  rw [getD_cons_drop (show 9 < encoded.length by omega), getD_cons_drop (show 8 < encoded.length by omega),
    getD_cons_drop (show 7 < encoded.length by omega), getD_cons_drop (show 6 < encoded.length by omega),
    getD_cons_drop (show 5 < encoded.length by omega), getD_cons_drop (show 4 < encoded.length by omega),
    ← hmagic]
  exact List.take_append_drop 4 encoded

/-- Policies are equal exactly if they have one encoding. -/
theorem roomPoliciesEqualV1_iff :
    roomPoliciesEqualV1 left right = .ok true ↔
      ∃ encoded, encodeRoomPolicyV1 left = .ok encoded ∧ encodeRoomPolicyV1 right = .ok encoded := by
  simp only [roomPoliciesEqualV1, except_bind_eq_ok, except_pure_eq_ok, beq_iff_eq]
  constructor
  · rintro ⟨a, ha, b, hb, rfl⟩
    exact ⟨a, ha, hb⟩
  · rintro ⟨encoded, hleft, hright⟩
    exact ⟨encoded, hleft, encoded, hright, rfl⟩

/-- Policies with one hash are equal, or show a collision. -/
theorem hashRoomPolicyV1_inj (W : WebCrypto) {a b : Bytes} (ha : encodeRoomPolicyV1 left = .ok a)
    (hb : encodeRoomPolicyV1 right = .ok b) (h : hashRoomPolicyV1 W left = hashRoomPolicyV1 W right) :
    a = b ∨ W.Collide (POLICY_HASH_DOMAIN ++ a) (POLICY_HASH_DOMAIN ++ b) := by
  rw [hashRoomPolicyV1, hashRoomPolicyV1, ha, hb] at h
  by_cases heq : a = b
  · exact .inl heq
  · refine .inr ⟨?_, Except.ok.inj h⟩
    intro happend
    exact heq (List.append_cancel_left happend)

/-! ## Scheduled cover -/

/-- What a valid policy with scheduled cover satisfies. -/
structure Scheduled (policy : RoomPolicyV1) : Prop where
  cadence : MIN_COVER_CADENCE_MS ≤ policy.coverCadenceMs ∧ policy.coverCadenceMs ≤ MAX_COVER_CADENCE_MS
  lanes : 1 ≤ policy.coverLanes ∧ policy.coverLanes ≤ MAX_COVER_LANES
  frames : 1 ≤ policy.coverFramesPerCell ∧ policy.coverFramesPerCell ≤ MAX_COVER_FRAMES_PER_CELL
  slots : MIN_COVER_SLOT_MS * (policy.coverLanes * policy.coverFramesPerCell) ≤ policy.coverCadenceMs
  epochs : 1 ≤ policy.coverDurationEpochs ∧ policy.coverDurationEpochs ≤ 0xffff

theorem scheduled_of_valid (h : validateRoomPolicyV1 policy = .ok ())
    (hmode : policy.coverMode = .scheduled) : Scheduled policy := by
  simp only [validateRoomPolicyV1, assertUnsignedInteger, hmode, validateSchedule, except_bind_eq_ok,
    demand_eq_ok, exists_const] at h
  obtain ⟨-, -, -, -, -, -, hepochs, hcadence, hlanes, hframes, hslots, hpositive⟩ := h
  exact ⟨hcadence, hlanes, hframes, hslots, hpositive, hepochs.2⟩

/-- The products that the scheduler takes are small. -/
theorem Scheduled.products (h : Scheduled policy) :
    policy.coverLanes * policy.coverFramesPerCell ≤ 16 * 1024 ∧
      policy.coverFramesPerCell * policy.coverDurationEpochs ≤ 1024 * 65535 ∧
      policy.coverCadenceMs * policy.coverDurationEpochs ≤ 3600000 * 65535 :=
  ⟨Nat.mul_le_mul h.lanes.2 h.frames.2, Nat.mul_le_mul h.frames.2 h.epochs.2,
    Nat.mul_le_mul h.cadence.2 h.epochs.2⟩

/-- The scheduler accepts what the policy says, with any phase that is a safe integer. -/
theorem validate_schedule (h : Scheduled policy) {phaseOffsetMs : Int}
    (hphase : Cover.SafeInteger phaseOffsetMs) :
    Cover.validateCoverSchedule {
      phaseOffsetMs := phaseOffsetMs
      coverCadenceMs := policy.coverCadenceMs
      coverLanes := policy.coverLanes
      coverFramesPerCell := policy.coverFramesPerCell
      coverDurationEpochs := policy.coverDurationEpochs } = .ok () := by
  obtain ⟨hperEpoch, hperLane, hduration⟩ := h.products
  obtain ⟨⟨hcadence, hcadence'⟩, ⟨hlanes, hlanes'⟩, ⟨hframes, hframes'⟩, hslots, hepochs, hepochs'⟩ := h
  have hpositive : 0 < policy.coverLanes * policy.coverFramesPerCell := Nat.mul_pos hlanes hframes
  have hspacing : ¬ ((policy.coverCadenceMs : Rat) /
      (policy.coverLanes * policy.coverFramesPerCell : Nat) < Cover.MIN_COVER_SLOT_MS) := by
    rw [not_lt, le_div_iff₀ (by exact_mod_cast hpositive)]
    exact_mod_cast hslots
  have hsafe : ∀ n : Nat, n ≤ 3600000 * 65535 → Cover.SafeInteger n := fun n hn =>
    (Int.natAbs_natCast n).trans_le (hn.trans (by decide))
  simp only [Cover.validateCoverSchedule, Cover.assertSafeInteger, except_bind_eq_ok, demand_eq_ok,
    exists_const]
  refine ⟨hphase, hsafe _ (hcadence'.trans (by decide)), hsafe _ (hlanes'.trans (by decide)),
    hsafe _ (hframes'.trans (by decide)), hsafe _ (hepochs'.trans (by decide)), ?_, ?_,
    Nat.not_lt.mpr hframes, Nat.not_lt.mpr hepochs,
    ⟨hsafe _ (hperEpoch.trans (by decide)), hsafe _ (hperLane.trans (by decide)), hsafe _ hduration⟩,
    hspacing⟩
  · exact Nat.not_lt.mpr (Nat.one_le_iff_ne_zero.mpr (Nat.ne_zero_of_lt hcadence))
  · exact not_or.mpr ⟨Nat.not_lt.mpr hlanes, Nat.not_lt.mpr hlanes'⟩

/-- The phase is less than the cadence. -/
theorem Scheduled.phase (h : Scheduled policy) {policyHash : Bytes} (hhash : 8 ≤ policyHash.length) :
    ∃ phaseOffsetMs, deriveCoverPhaseOffsetMs policyHash policy.coverCadenceMs = .ok phaseOffsetMs ∧
      phaseOffsetMs < policy.coverCadenceMs := by
  have hpositive : 0 < policy.coverCadenceMs := Nat.lt_of_lt_of_le (by decide) h.cadence.1
  have hsafe : policy.coverCadenceMs ≤ MAX_SAFE_INTEGER := h.cadence.2.trans (by decide)
  refine ⟨beNat (slice policyHash 0 8) % policy.coverCadenceMs, ?_, Nat.mod_lt _ hpositive⟩
  rw [deriveCoverPhaseOffsetMs, demand_of (Nat.not_lt.mpr hhash), ok_bind, demand_of ⟨hsafe, hpositive⟩]
  rfl

/-- **The policy codec.** The encoding of a policy that has a canonical form decodes to it; what the
decoder accepts is encoded as the same bytes; policies are equal exactly if their encodings are, and,
unless these show a collision, exactly if their hashes are; and the scheduler accepts the schedule of
every decoded policy with scheduled cover. -/
theorem room_policy_codec (W : WebCrypto) :
    (∀ policy canonical, canonicalizeRoomPolicyV1 policy = .ok canonical →
      ∃ encoded, encodeRoomPolicyV1 policy = .ok encoded ∧ decodeRoomPolicyV1 encoded = .ok canonical ∧
        canonical = policy) ∧
    (∀ encoded policy, decodeRoomPolicyV1 encoded = .ok policy →
      encodeRoomPolicyV1 policy = .ok encoded) ∧
    (∀ left right, roomPoliciesEqualV1 left right = .ok true ↔
      ∃ encoded, encodeRoomPolicyV1 left = .ok encoded ∧ encodeRoomPolicyV1 right = .ok encoded) ∧
    (∀ left right a b, encodeRoomPolicyV1 left = .ok a → encodeRoomPolicyV1 right = .ok b →
      (roomPoliciesEqualV1 left right = .ok true ↔
        hashRoomPolicyV1 W left = hashRoomPolicyV1 W right) ∨
      W.Collide (POLICY_HASH_DOMAIN ++ a) (POLICY_HASH_DOMAIN ++ b)) ∧
    ∀ encoded policy, decodeRoomPolicyV1 encoded = .ok policy → policy.coverMode = .scheduled →
      ∀ policyHash, 8 ≤ policyHash.length →
        ∃ schedule, coverScheduleOf policyHash policy = .ok schedule ∧
          Cover.validateCoverSchedule schedule = .ok () := by
  refine ⟨?_, fun _ _ => decode_canonical, fun _ _ => roomPoliciesEqualV1_iff, ?_, ?_⟩
  · intro policy canonical h
    obtain ⟨hcanonical, hvalid⟩ := canonicalizeRoomPolicyV1_ok h
    refine ⟨policyBytes policy, encodeRoomPolicyV1_eq_ok.mpr ⟨hvalid, rfl⟩, ?_, hcanonical⟩
    rw [hcanonical]
    exact decode_policyBytes hvalid
  · intro left right a b ha hb
    by_cases hcollide : W.Collide (POLICY_HASH_DOMAIN ++ a) (POLICY_HASH_DOMAIN ++ b)
    · exact .inr hcollide
    · refine .inl ?_
      rw [roomPoliciesEqualV1_iff]
      constructor
      · rintro ⟨encoded, hleft, hright⟩
        rw [hashRoomPolicyV1, hashRoomPolicyV1, hleft, hright]
      · intro hhash
        have hsame : a = b := (hashRoomPolicyV1_inj W ha hb hhash).resolve_right hcollide
        subst hsame
        exact ⟨a, ha, hb⟩
  · intro encoded policy h hmode policyHash hhash
    have hvalid := (encodeRoomPolicyV1_eq_ok.mp (decode_canonical h)).1
    have hscheduled := scheduled_of_valid hvalid hmode
    obtain ⟨phaseOffsetMs, hphase, hlt⟩ := hscheduled.phase hhash
    refine ⟨_, by rw [coverScheduleOf, hphase]; rfl, validate_schedule hscheduled ?_⟩
    have hsafe : MAX_COVER_CADENCE_MS ≤ MAX_SAFE_INTEGER := by decide
    exact (Int.natAbs_natCast phaseOffsetMs).trans_le ((hlt.le.trans hscheduled.cadence.2).trans hsafe)

end Rooms

end P2Party
