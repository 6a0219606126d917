import P2Party.Base.Codec
import P2Party.PqHealing.Runtime

/-!
# Room policies (`roomPolicy.ts`)

The public descriptor of a room: its modes and its cover schedule, in a fixed-width wire
form. The modes are enumerations and the counters naturals, so the checks that a field has
the right type have no counterpart.

- `validateRoomPolicyV1`, `encodeRoomPolicyV1`, `decodeRoomPolicyV1`: the functions of the
  source;
- `canonicalizeRoomPolicyV1_eq`: the canonical form of a valid policy is the policy;
- `roomPoliciesEqualV1`: whether two valid policies have one encoding.
-/

namespace P2Party

open Base PqHealing PqHealingRuntime

namespace Rooms

/-- `RoomAuthMode` (roomPolicy.ts:17). -/
inductive RoomAuthMode
  | nopin
  | pin
deriving DecidableEq, Repr

/-- `RoomRendezvousMode` (roomPolicy.ts:25-26). -/
inductive RoomRendezvousMode
  | legacySignaling
  | opaqueToken
  | blindMeetingPoint
deriving DecidableEq, Repr

/-- `RoomCoverMode` (roomPolicy.ts:27). -/
inductive RoomCoverMode
  | immediate
  | scheduled
deriving DecidableEq, Repr

/-- `RoomPolicyV1` (roomPolicy.ts:53-65). -/
structure RoomPolicyV1 where
  version : Nat
  revision : Nat
  wireVersion : Nat
  authMode : RoomAuthMode
  pqMode : RoomPqMode
  rendezvousMode : RoomRendezvousMode
  coverMode : RoomCoverMode
  coverCadenceMs : Nat
  coverLanes : Nat
  coverFramesPerCell : Nat
  coverDurationEpochs : Nat
deriving DecidableEq

/-- `ROOM_POLICY_V1_ENCODED_LEN` (roomPolicy.ts:67). -/
abbrev ROOM_POLICY_V1_ENCODED_LEN : Nat := 32

/-- `MIN_COVER_CADENCE_MS` (roomPolicy.ts:70). -/
abbrev MIN_COVER_CADENCE_MS : Nat := 1000

/-- `MAX_COVER_CADENCE_MS` (roomPolicy.ts:71). -/
abbrev MAX_COVER_CADENCE_MS : Nat := 3600000

/-- `MAX_COVER_LANES` (roomPolicy.ts:74). -/
abbrev MAX_COVER_LANES : Nat := 16

/-- `MAX_COVER_FRAMES_PER_CELL` (roomPolicy.ts:75). -/
abbrev MAX_COVER_FRAMES_PER_CELL : Nat := 1024

/-- `MIN_COVER_SLOT_MS` (roomPolicy.ts:76). -/
abbrev MIN_COVER_SLOT_MS : Nat := 25

/-- `PROTOCOL_VERSION` (constants.ts). -/
abbrev PROTOCOL_VERSION : Nat := 4

/-- `MAGIC`, "P2RP" (roomPolicy.ts:78). -/
def MAGIC : Bytes := [0x50, 0x32, 0x52, 0x50]

/-- `POLICY_FORMAT_VERSION` (roomPolicy.ts:79). -/
abbrev POLICY_FORMAT_VERSION : Nat := 1

/-! ## Validation -/

/-- `assertUnsignedInteger` (roomPolicy.ts:148-155). -/
def assertUnsignedInteger (name : String) (value max : Nat) : Except JsError Unit :=
  demand (value ≤ MAX_SAFE_INTEGER ∧ value ≤ max) (.error ("roomPolicy: " ++ name ++ " is out of range"))

/-- The schedule of a room with scheduled cover (roomPolicy.ts:245-275). A slot is compared
as an exact quotient. -/
def validateSchedule (policy : RoomPolicyV1) : Except JsError Unit := do
  demand (MIN_COVER_CADENCE_MS ≤ policy.coverCadenceMs ∧ policy.coverCadenceMs ≤ MAX_COVER_CADENCE_MS)
    (.error "roomPolicy: scheduled cover cadence is out of range")
  demand (1 ≤ policy.coverLanes ∧ policy.coverLanes ≤ MAX_COVER_LANES)
    (.error "roomPolicy: scheduled cover lanes are out of range")
  demand (1 ≤ policy.coverFramesPerCell ∧ policy.coverFramesPerCell ≤ MAX_COVER_FRAMES_PER_CELL)
    (.error "roomPolicy: scheduled cover frames per cell are out of range")
  demand (MIN_COVER_SLOT_MS * (policy.coverLanes * policy.coverFramesPerCell) ≤ policy.coverCadenceMs)
    (.error "roomPolicy: scheduled cover slots are below the transport timer granularity")
  demand (1 ≤ policy.coverDurationEpochs)
    (.error "roomPolicy: scheduled cover duration epochs are out of range")

/-- `validateRoomPolicyV1` (roomPolicy.ts:201-276). -/
def validateRoomPolicyV1 (policy : RoomPolicyV1) : Except JsError Unit := do
  demand (policy.version = POLICY_FORMAT_VERSION) (.error "roomPolicy: unsupported policy version")
  demand (policy.wireVersion = PROTOCOL_VERSION) (.error "roomPolicy: unsupported wire version")
  assertUnsignedInteger "revision" policy.revision 0xffffffff
  assertUnsignedInteger "cover cadence" policy.coverCadenceMs 0xffffffff
  assertUnsignedInteger "cover lanes" policy.coverLanes 0xffff
  assertUnsignedInteger "cover frames per cell" policy.coverFramesPerCell 0xffff
  assertUnsignedInteger "cover duration epochs" policy.coverDurationEpochs 0xffff
  match policy.coverMode with
  | .immediate =>
    demand (policy.coverCadenceMs = 0 ∧ policy.coverLanes = 0 ∧ policy.coverFramesPerCell = 0 ∧
        policy.coverDurationEpochs = 0)
      (.error "roomPolicy: immediate cover mode requires zero schedule fields")
  | .scheduled => validateSchedule policy

/-! ## The wire form -/

/-- `AUTH_MODE_TO_BYTE` (roomPolicy.ts:99-102). -/
def authModeToByte : RoomAuthMode → UInt8
  | .nopin => 0
  | .pin => 1

/-- `PQ_MODE_TO_BYTE` (roomPolicy.ts:103-107). -/
def pqModeToByte : RoomPqMode → UInt8
  | .hybridMlkem768 => 1
  | .hybridMlkem512 => 2
  | .hybridMlkem1024 => 3

/-- `RENDEZVOUS_MODE_TO_BYTE` (roomPolicy.ts:108-112). -/
def rendezvousModeToByte : RoomRendezvousMode → UInt8
  | .legacySignaling => 0
  | .opaqueToken => 1
  | .blindMeetingPoint => 2

/-- `COVER_MODE_TO_BYTE` (roomPolicy.ts:113-116). -/
def coverModeToByte : RoomCoverMode → UInt8
  | .immediate => 0
  | .scheduled => 1

/-- `byteToAuthMode` (roomPolicy.ts:118-122). -/
def byteToAuthMode (value : UInt8) : Except JsError RoomAuthMode :=
  if value = 0 then .ok .nopin
  else if value = 1 then .ok .pin
  else .error (.error "roomPolicy: unsupported auth mode")

/-- `byteToPqMode` (roomPolicy.ts:124-131). -/
def byteToPqMode (value : UInt8) : Except JsError RoomPqMode :=
  if value = 1 then .ok .hybridMlkem768
  else if value = 2 then .ok .hybridMlkem512
  else if value = 3 then .ok .hybridMlkem1024
  else if value = 0 then .error (.error "roomPolicy: v3 requires a hybrid ML-KEM suite")
  else .error (.error "roomPolicy: unsupported PQ mode")

/-- `byteToRendezvousMode` (roomPolicy.ts:133-138). -/
def byteToRendezvousMode (value : UInt8) : Except JsError RoomRendezvousMode :=
  if value = 0 then .ok .legacySignaling
  else if value = 1 then .ok .opaqueToken
  else if value = 2 then .ok .blindMeetingPoint
  else .error (.error "roomPolicy: unsupported rendezvous mode")

/-- `byteToCoverMode` (roomPolicy.ts:140-144). -/
def byteToCoverMode (value : UInt8) : Except JsError RoomCoverMode :=
  if value = 0 then .ok .immediate
  else if value = 1 then .ok .scheduled
  else .error (.error "roomPolicy: unsupported cover mode")

/-- The 32 bytes of a policy (roomPolicy.ts:288-309). -/
def policyBytes (policy : RoomPolicyV1) : Bytes :=
  MAGIC ++ ([UInt8.ofNat POLICY_FORMAT_VERSION, UInt8.ofNat policy.wireVersion,
      authModeToByte policy.authMode, pqModeToByte policy.pqMode,
      rendezvousModeToByte policy.rendezvousMode, coverModeToByte policy.coverMode] ++
    (beBytes 4 policy.revision ++ (beBytes 4 policy.coverCadenceMs ++ (beBytes 2 policy.coverLanes ++
      (beBytes 2 policy.coverFramesPerCell ++ (beBytes 2 policy.coverDurationEpochs ++
        List.replicate 8 0))))))

/-- `encodeRoomPolicyV1` (roomPolicy.ts:285-310). -/
def encodeRoomPolicyV1 (policy : RoomPolicyV1) : Except JsError Bytes := do
  validateRoomPolicyV1 policy
  return policyBytes policy

/-- `decodeRoomPolicyV1` (roomPolicy.ts:312-348). -/
def decodeRoomPolicyV1 (encoded : Bytes) : Except JsError RoomPolicyV1 := do
  demand (encoded.length = ROOM_POLICY_V1_ENCODED_LEN)
    (.error "roomPolicy: invalid encoded policy length")
  demand (encoded.take 4 = MAGIC) (.error "roomPolicy: invalid policy magic")
  demand (∀ b ∈ encoded.drop 24, b = 0) (.error "roomPolicy: non-zero reserved policy byte")
  let authMode ← byteToAuthMode (encoded.getD 6 0)
  let pqMode ← byteToPqMode (encoded.getD 7 0)
  let rendezvousMode ← byteToRendezvousMode (encoded.getD 8 0)
  let coverMode ← byteToCoverMode (encoded.getD 9 0)
  let policy : RoomPolicyV1 :=
    { version := (encoded.getD 4 0).toNat
      wireVersion := (encoded.getD 5 0).toNat
      authMode, pqMode, rendezvousMode, coverMode
      revision := beNat (slice encoded 10 4)
      coverCadenceMs := beNat (slice encoded 14 4)
      coverLanes := beNat (slice encoded 18 2)
      coverFramesPerCell := beNat (slice encoded 20 2)
      coverDurationEpochs := beNat (slice encoded 22 2) }
  validateRoomPolicyV1 policy
  return policy

/-- `canonicalizeRoomPolicyV1` (roomPolicy.ts:351-352). -/
def canonicalizeRoomPolicyV1 (policy : RoomPolicyV1) : Except JsError RoomPolicyV1 := do
  decodeRoomPolicyV1 (← encodeRoomPolicyV1 policy)

/-- `roomPoliciesEqualV1` (roomPolicy.ts:354-363). -/
def roomPoliciesEqualV1 (left right : RoomPolicyV1) : Except JsError Bool := do
  let a ← encodeRoomPolicyV1 left
  let b ← encodeRoomPolicyV1 right
  return a == b

/-- `DEFAULT_ROOM_POLICY_V1` (roomPolicy.ts:381-393). -/
def DEFAULT_ROOM_POLICY_V1 : RoomPolicyV1 where
  version := 1
  revision := 0
  wireVersion := 4
  authMode := .nopin
  pqMode := .hybridMlkem768
  rendezvousMode := .legacySignaling
  coverMode := .immediate
  coverCadenceMs := 0
  coverLanes := 0
  coverFramesPerCell := 0
  coverDurationEpochs := 0

/-! ## Round trip -/

variable {policy left right : RoomPolicyV1}

/-- What a valid policy fits into. -/
structure PolicyFits (policy : RoomPolicyV1) : Prop where
  version : policy.version = 1
  wireVersion : policy.wireVersion = 4
  revision : policy.revision < 256 ^ 4
  coverCadenceMs : policy.coverCadenceMs < 256 ^ 4
  coverLanes : policy.coverLanes < 256 ^ 2
  coverFramesPerCell : policy.coverFramesPerCell < 256 ^ 2
  coverDurationEpochs : policy.coverDurationEpochs < 256 ^ 2

theorem fits_of_valid (h : validateRoomPolicyV1 policy = .ok ()) : PolicyFits policy := by
  unfold validateRoomPolicyV1 assertUnsignedInteger at h
  obtain ⟨_, hversion, h⟩ := except_bind_eq_ok.mp h
  obtain ⟨_, hwire, h⟩ := except_bind_eq_ok.mp h
  obtain ⟨_, hrevision, h⟩ := except_bind_eq_ok.mp h
  obtain ⟨_, hcadence, h⟩ := except_bind_eq_ok.mp h
  obtain ⟨_, hlanes, h⟩ := except_bind_eq_ok.mp h
  obtain ⟨_, hframes, h⟩ := except_bind_eq_ok.mp h
  obtain ⟨_, hepochs, -⟩ := except_bind_eq_ok.mp h
  rw [demand_eq_ok] at hversion hwire hrevision hcadence hlanes hframes hepochs
  exact {
    version := hversion
    wireVersion := hwire
    revision := by omega
    coverCadenceMs := by omega
    coverLanes := by omega
    coverFramesPerCell := by omega
    coverDurationEpochs := by omega }

theorem decode_policyBytes (h : validateRoomPolicyV1 policy = .ok ()) :
    decodeRoomPolicyV1 (policyBytes policy) = .ok policy := by
  have hfits := fits_of_valid h
  have hrevision : slice (policyBytes policy) 10 4 = beBytes 4 policy.revision := by
    unfold policyBytes
    rw [← List.append_assoc]
    exact slice_append rfl (length_beBytes 4 _)
  have hcadence : slice (policyBytes policy) 14 4 = beBytes 4 policy.coverCadenceMs := by
    unfold policyBytes
    rw [← List.append_assoc, ← List.append_assoc]
    exact slice_append (by simp [MAGIC]) (length_beBytes 4 _)
  have hlanes : slice (policyBytes policy) 18 2 = beBytes 2 policy.coverLanes := by
    unfold policyBytes
    rw [← List.append_assoc, ← List.append_assoc, ← List.append_assoc]
    exact slice_append (by simp [MAGIC]) (length_beBytes 2 _)
  have hframes : slice (policyBytes policy) 20 2 = beBytes 2 policy.coverFramesPerCell := by
    unfold policyBytes
    rw [← List.append_assoc, ← List.append_assoc, ← List.append_assoc, ← List.append_assoc]
    exact slice_append (by simp [MAGIC]) (length_beBytes 2 _)
  have hepochs : slice (policyBytes policy) 22 2 = beBytes 2 policy.coverDurationEpochs := by
    unfold policyBytes
    rw [← List.append_assoc, ← List.append_assoc, ← List.append_assoc, ← List.append_assoc,
      ← List.append_assoc]
    exact slice_append (by simp [MAGIC]) (length_beBytes 2 _)
  have hmagic : (policyBytes policy).take 4 = MAGIC := rfl
  have hreserved : (policyBytes policy).drop 24 = List.replicate 8 0 := by
    unfold policyBytes
    rw [← List.append_assoc, ← List.append_assoc, ← List.append_assoc, ← List.append_assoc,
      ← List.append_assoc, ← List.append_assoc]
    exact List.drop_left' (by simp [MAGIC])
  have hzeros : ∀ b ∈ (policyBytes policy).drop 24, b = 0 := fun b hb => by
    rw [hreserved] at hb
    exact List.eq_of_mem_replicate hb
  have hlength : (policyBytes policy).length = ROOM_POLICY_V1_ENCODED_LEN := by
    simp [policyBytes, MAGIC]
  have hauth : byteToAuthMode ((policyBytes policy).getD 6 0) = .ok policy.authMode := by
    show byteToAuthMode (authModeToByte policy.authMode) = _
    cases policy.authMode <;> rfl
  have hpq : byteToPqMode ((policyBytes policy).getD 7 0) = .ok policy.pqMode := by
    show byteToPqMode (pqModeToByte policy.pqMode) = _
    cases policy.pqMode <;> rfl
  have hrendezvous : byteToRendezvousMode ((policyBytes policy).getD 8 0) = .ok policy.rendezvousMode := by
    show byteToRendezvousMode (rendezvousModeToByte policy.rendezvousMode) = _
    cases policy.rendezvousMode <;> rfl
  have hcover : byteToCoverMode ((policyBytes policy).getD 9 0) = .ok policy.coverMode := by
    show byteToCoverMode (coverModeToByte policy.coverMode) = _
    cases policy.coverMode <;> rfl
  have hversion : ((policyBytes policy).getD 4 0).toNat = policy.version := hfits.version.symm
  have hwire : ((policyBytes policy).getD 5 0).toNat = policy.wireVersion := by
    show (UInt8.ofNat policy.wireVersion).toNat = policy.wireVersion
    rw [hfits.wireVersion]
    rfl
  unfold decodeRoomPolicyV1
  rw [demand_of hlength, ok_bind, demand_of hmagic, ok_bind, demand_of hzeros, ok_bind, hauth, ok_bind, hpq, ok_bind,
    hrendezvous, ok_bind, hcover, ok_bind, hversion, hwire, hrevision, hcadence, hlanes, hframes,
    hepochs, beNat_beBytes hfits.revision, beNat_beBytes hfits.coverCadenceMs,
    beNat_beBytes hfits.coverLanes, beNat_beBytes hfits.coverFramesPerCell,
    beNat_beBytes hfits.coverDurationEpochs]
  show (validateRoomPolicyV1 policy >>= fun _ => pure policy) = .ok policy
  rw [h]
  rfl

/-- The canonical form of a policy is the policy, when it is valid. -/
theorem encodeRoomPolicyV1_ok (h : validateRoomPolicyV1 policy = .ok ()) :
    encodeRoomPolicyV1 policy = .ok (policyBytes policy) := by
  simp only [encodeRoomPolicyV1, h, ok_bind, except_pure_eq_ok]

theorem canonicalizeRoomPolicyV1_eq (policy : RoomPolicyV1) :
    canonicalizeRoomPolicyV1 policy = (do validateRoomPolicyV1 policy; return policy) := by
  unfold canonicalizeRoomPolicyV1
  cases h : validateRoomPolicyV1 policy with
  | error e => simp only [encodeRoomPolicyV1, h, error_bind]
  | ok _ =>
    have hdecode : decodeRoomPolicyV1 (policyBytes policy) = .ok policy := decode_policyBytes h
    simp only [encodeRoomPolicyV1_ok h, ok_bind, hdecode]
    exact (except_pure_eq_ok.mpr rfl).symm

theorem canonicalizeRoomPolicyV1_ok {canonical : RoomPolicyV1}
    (h : canonicalizeRoomPolicyV1 policy = .ok canonical) :
    canonical = policy ∧ validateRoomPolicyV1 policy = .ok () := by
  rw [canonicalizeRoomPolicyV1_eq] at h
  obtain ⟨_, hvalid, h⟩ := except_bind_eq_ok.mp h
  exact ⟨(Except.ok.inj h).symm, hvalid⟩

theorem default_valid : validateRoomPolicyV1 DEFAULT_ROOM_POLICY_V1 = .ok () := rfl

end Rooms

end P2Party
