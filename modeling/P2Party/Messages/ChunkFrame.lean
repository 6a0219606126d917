import P2Party.Cryptography.Ratchet
import P2Party.PqHealing.Runtime

/-!
# Chunk frames and their keys

The cleartext header of a message chunk (`handlers/chunkFrame.ts`), the name its
combined key is cached under (`handlers/messageChunkCrypto.ts`) and the combiner
of a classical message key with a PQ epoch root (`cryptography/pqMessageKey.ts`).

- `packChunkFrameHeader`, `parseChunkFrameHeader`: the codec, with
  `packChunkFrameHeader_eq` and `parse_chunkHeader`;
- `messageCacheKey`, `cacheKey`, `cacheKey_inj`: the name of a combined key;
- `combinePqMessageKey`, `combinePqMessageKey_eq`: the combiner.
-/

namespace P2Party

open Base PqHealing

/-! ## Constants (utils/constants.ts) -/

/-- `CHUNK_AAD_HEADER_LEN` (constants.ts:88-93). -/
abbrev CHUNK_AAD_HEADER_LEN : Nat := 57

/-- `CHUNK_FRAME_HEADER_LEN` (chunkFrame.ts:30), also `MESSAGE_START`. -/
abbrev CHUNK_FRAME_HEADER_LEN : Nat := 69

/-- The text of a root suite (constants.ts:132-137). -/
def RatchetRootSuite.text : RatchetRootSuite → String
  | .hybridMlkem512 => "hybrid-3dh-mlkem512-cpace21-v4"
  | .hybridMlkem768 => "hybrid-3dh-mlkem768-cpace21-v4"
  | .hybridMlkem1024 => "hybrid-3dh-mlkem1024-cpace21-v4"

/-! ## The header codec -/

/-- `writeU64BE` (chunkFrame.ts:37-46). -/
def writeU64BE (value : Nat) : Except JsError Bytes := do
  demand (value ≤ MAX_SAFE_INTEGER)
    (.error "chunkFrame: ratchet counter out of safe-integer range")
  return beBytes 8 value

/-- `readU64BE` (chunkFrame.ts:48-57). -/
def readU64BE (buf : Bytes) (offset : Nat) : Except JsError Nat := do
  let value := beNat (slice buf offset 8)
  demand (value ≤ MAX_SAFE_INTEGER)
    (.error "chunkFrame: ratchet counter exceeds safe-integer range")
  return value

/-- `packChunkFrameHeader` (chunkFrame.ts:79-95). -/
def packChunkFrameHeader (header : RatchetHeader) (nonce : Bytes) (pqEpoch : Nat) :
    Except JsError Bytes := do
  demand (header.dhPub.length = RATCHET_DHPUB_LEN) (.error "chunkFrame: dhPub must be 32 bytes")
  demand (nonce.length = RATCHET_NONCE_LEN) (.error "chunkFrame: nonce must be 12 bytes")
  let n ← writeU64BE header.N
  let pn ← writeU64BE header.PN
  demand (pqEpoch ≤ MAX_U64) (.error "chunkFrame: PQ epoch out of u64 range")
  return [FRAME_TYPE_CHUNK] ++ (header.dhPub ++ (n ++ (pn ++ (beBytes 8 pqEpoch ++ nonce))))

/-- `ParsedChunkFrame` (chunkFrame.ts:97-102). -/
structure ParsedChunkFrame where
  header : RatchetHeader
  pqEpoch : Nat
  nonce : Bytes
  ciphertext : Bytes
deriving DecidableEq

/-- `parseChunkFrameHeader` (chunkFrame.ts:105-119). -/
def parseChunkFrameHeader (frame : Bytes) : Except JsError ParsedChunkFrame := do
  demand (CHUNK_FRAME_HEADER_LEN ≤ frame.length)
    (.error "chunkFrame: frame shorter than the header")
  demand (byteAt frame 0 = FRAME_TYPE_CHUNK)
    (.error "chunkFrame: leading byte is not FRAME_TYPE_CHUNK")
  let N ← readU64BE frame 33
  let PN ← readU64BE frame 41
  return {
    header := { dhPub := slice frame 1 RATCHET_DHPUB_LEN, N, PN }
    pqEpoch := beNat (slice frame 49 8)
    nonce := slice frame 57 RATCHET_NONCE_LEN
    ciphertext := frame.drop CHUNK_FRAME_HEADER_LEN }

/-- A header every field of which fits its place on the wire. -/
structure HeaderFits (header : RatchetHeader) (pqEpoch : Nat) : Prop where
  dhPub : header.dhPub.length = 32
  N : header.N ≤ MAX_SAFE_INTEGER
  PN : header.PN ≤ MAX_SAFE_INTEGER
  epoch : pqEpoch ≤ MAX_U64

/-- The bytes of a header. -/
def chunkHeader (header : RatchetHeader) (pqEpoch : Nat) (nonce : Bytes) : Bytes :=
  [FRAME_TYPE_CHUNK] ++ (header.dhPub ++ (beBytes 8 header.N ++ (beBytes 8 header.PN ++
    (beBytes 8 pqEpoch ++ nonce))))

variable {header : RatchetHeader} {pqEpoch : Nat} {nonce : Bytes}

theorem length_chunkHeader (hdh : header.dhPub.length = 32) (hnonce : nonce.length = 12) :
    (chunkHeader header pqEpoch nonce).length = CHUNK_FRAME_HEADER_LEN := by
  simp [chunkHeader, hdh, hnonce]

theorem packChunkFrameHeader_eq (h : HeaderFits header pqEpoch) (hnonce : nonce.length = 12) :
    packChunkFrameHeader header nonce pqEpoch = .ok (chunkHeader header pqEpoch nonce) := by
  unfold packChunkFrameHeader writeU64BE
  simp only [demand_of (show header.dhPub.length = RATCHET_DHPUB_LEN from h.dhPub),
    demand_of hnonce, demand_of h.N, demand_of h.PN, demand_of h.epoch, ok_bind]
  rfl

/-- What was packed fits. -/
theorem headerFits_of_pack {bytes : Bytes} (h : packChunkFrameHeader header nonce pqEpoch = .ok bytes) :
    HeaderFits header pqEpoch ∧ nonce.length = 12 := by
  unfold packChunkFrameHeader writeU64BE at h
  simp only [demand_bind, ite_eq_iff, reduceCtorEq, and_false, or_false] at h
  obtain ⟨hdh, hnonce, h⟩ := h
  obtain ⟨_, hn, h⟩ := except_bind_eq_ok.mp h
  obtain ⟨_, hpn, h⟩ := except_bind_eq_ok.mp h
  simp only [ite_eq_iff, reduceCtorEq, and_false, or_false] at hn hpn h
  exact ⟨⟨hdh, hn.1, hpn.1, h.1⟩, hnonce⟩

/-- Parsing a frame that starts with a packed header gives its fields back. -/
theorem parse_chunkHeader (h : HeaderFits header pqEpoch) (hnonce : nonce.length = 12)
    (ciphertext : Bytes) :
    parseChunkFrameHeader (chunkHeader header pqEpoch nonce ++ ciphertext) =
      .ok ⟨header, pqEpoch, nonce, ciphertext⟩ := by
  have hlen := @length_chunkHeader header pqEpoch nonce h.dhPub hnonce
  obtain ⟨dhPub, N, PN⟩ := header
  have hdh : dhPub.length = 32 := h.dhPub
  -- the frame as one right-nested concatenation, so that every field sits at its offset
  have hframe : chunkHeader ⟨dhPub, N, PN⟩ pqEpoch nonce ++ ciphertext =
      [FRAME_TYPE_CHUNK] ++ (dhPub ++ (beBytes 8 N ++ (beBytes 8 PN ++ (beBytes 8 pqEpoch ++
        (nonce ++ ciphertext))))) := by
    simp [chunkHeader]
  have hdhPub : slice (chunkHeader ⟨dhPub, N, PN⟩ pqEpoch nonce ++ ciphertext) 1 32 = dhPub := by
    rw [hframe]
    exact slice_append rfl hdh
  have hN : slice (chunkHeader ⟨dhPub, N, PN⟩ pqEpoch nonce ++ ciphertext) 33 8 = beBytes 8 N := by
    rw [hframe, ← List.append_assoc]
    exact slice_append (by simp [hdh]) (length_beBytes 8 N)
  have hPN : slice (chunkHeader ⟨dhPub, N, PN⟩ pqEpoch nonce ++ ciphertext) 41 8 = beBytes 8 PN := by
    rw [hframe, ← List.append_assoc, ← List.append_assoc]
    exact slice_append (by simp [hdh]) (length_beBytes 8 PN)
  have hepoch : slice (chunkHeader ⟨dhPub, N, PN⟩ pqEpoch nonce ++ ciphertext) 49 8 =
      beBytes 8 pqEpoch := by
    rw [hframe, ← List.append_assoc, ← List.append_assoc, ← List.append_assoc]
    exact slice_append (by simp [hdh]) (length_beBytes 8 pqEpoch)
  have hnonceAt : slice (chunkHeader ⟨dhPub, N, PN⟩ pqEpoch nonce ++ ciphertext) 57 12 = nonce := by
    rw [hframe, ← List.append_assoc, ← List.append_assoc, ← List.append_assoc,
      ← List.append_assoc]
    exact slice_append (by simp [hdh]) hnonce
  have hfit : ∀ n, n ≤ MAX_SAFE_INTEGER → n < 256 ^ 8 := fun n hn =>
    Nat.lt_of_le_of_lt hn (by decide)
  have hvalN : beNat (beBytes 8 N) = N := beNat_beBytes (hfit N h.N)
  have hvalPN : beNat (beBytes 8 PN) = PN := beNat_beBytes (hfit PN h.PN)
  have hvalEpoch : beNat (beBytes 8 pqEpoch) = pqEpoch := beNat_beBytes (lt_256_pow_8 h.epoch)
  have hlong : CHUNK_FRAME_HEADER_LEN ≤
      (chunkHeader ⟨dhPub, N, PN⟩ pqEpoch nonce ++ ciphertext).length := by
    rw [List.length_append, hlen]
    exact Nat.le_add_right _ _
  have htype : byteAt (chunkHeader ⟨dhPub, N, PN⟩ pqEpoch nonce ++ ciphertext) 0 =
      FRAME_TYPE_CHUNK := rfl
  unfold parseChunkFrameHeader readU64BE
  simp only [demand_of hlong, demand_of htype, hN, hPN, hvalN, hvalPN,
    demand_of (show N ≤ MAX_SAFE_INTEGER from h.N),
    demand_of (show PN ≤ MAX_SAFE_INTEGER from h.PN), RATCHET_DHPUB_LEN, RATCHET_NONCE_LEN, hdhPub,
    hepoch, hvalEpoch, hnonceAt, drop_append_of_length hlen, ok_bind]
  rfl

/-- Every parsed header fits, whatever the frame. -/
theorem headerFits_of_parse {frame : Bytes} {parsed : ParsedChunkFrame}
    (h : parseChunkFrameHeader frame = .ok parsed) : HeaderFits parsed.header parsed.pqEpoch := by
  unfold parseChunkFrameHeader readU64BE at h
  simp only [demand_bind, ite_eq_iff, reduceCtorEq, and_false, or_false] at h
  obtain ⟨hlen, -, h⟩ := h
  obtain ⟨N, hN, h⟩ := except_bind_eq_ok.mp h
  obtain ⟨PN, hPN, h⟩ := except_bind_eq_ok.mp h
  simp only [ite_eq_iff, reduceCtorEq, and_false, or_false, except_pure_eq_ok] at hN hPN h
  obtain ⟨hNle, rfl⟩ := hN
  obtain ⟨hPNle, rfl⟩ := hPN
  subst h
  refine ⟨length_slice (Nat.le_trans (by decide) hlen), hNle, hPNle, ?_⟩
  have hlt := beNat_lt (slice frame 49 8)
  rw [length_slice (Nat.le_trans (by decide) hlen)] at hlt
  exact Nat.le_of_lt_succ (Nat.lt_of_lt_of_eq hlt (by decide))

/-! ## Names of combined keys -/

/-- `messageCacheKey` (messageChunkCrypto.ts:65-76); without an epoch it is the
name of a skipped key. -/
def messageCacheKey (dhPub : Bytes) (N : Nat) : Option Nat → Except JsError String
  | none => .ok (skippedKey dhPub N)
  | some pqEpoch => do
    demand (pqEpoch ≤ MAX_U64) (.error "messageChunkCrypto: PQ epoch out of u64 range")
    return skippedKey dhPub N ++ ":" ++ String.ofList (Nat.toDigits 10 pqEpoch)

/-- The name of the combined key of a message. -/
def cacheKey (dhPub : Bytes) (N epoch : Nat) : String :=
  String.ofList (hexChars dhPub ++ ':' :: (Nat.toDigits 10 N ++ ':' :: Nat.toDigits 10 epoch))

theorem messageCacheKey_eq {dhPub : Bytes} {N epoch : Nat} (h : epoch ≤ MAX_U64) :
    messageCacheKey dhPub N (some epoch) = .ok (cacheKey dhPub N epoch) := by
  simp only [messageCacheKey, demand_of h, ok_bind]
  show Except.ok _ = Except.ok _
  rw [Except.ok.injEq]
  refine String.toList_injective ?_
  simp [cacheKey, skippedKey]

/-- The name determines the message and its epoch. -/
theorem cacheKey_inj {a b : Bytes} {m n e f : Nat} :
    cacheKey a m e = cacheKey b n f ↔ a = b ∧ m = n ∧ e = f := by
  constructor
  · intro h
    obtain ⟨rfl, hrest⟩ := hexChars_colon_inj (String.ofList_injective h)
    obtain ⟨hm, he⟩ := append_sep_inj (colon_notMem_toDigits m) (colon_notMem_toDigits n) hrest
    exact ⟨rfl, toDigits_injective hm, toDigits_injective he⟩
  · rintro ⟨rfl, rfl, rfl⟩
    rfl

/-! ## The combiner -/

namespace PqMessageKey

/-- `DOMAIN` (pqMessageKey.ts:30). -/
def DOMAIN : Bytes := textEncode "p2party/pq-message-key/v1" ++ [0]

/-- `requireBytes` (pqMessageKey.ts:32-39). -/
def requireBytes (value : Bytes) (name : String) (length : Nat) : Except JsError Unit :=
  demand (value.length = length)
    (.error ("pqMessageKey: " ++ name ++ " must be " ++ toString length ++ " bytes"))

/-- `requireCounter` (pqMessageKey.ts:41-44). -/
def requireCounter (value : Nat) (name : String) : Except JsError Unit :=
  demand (value ≤ MAX_SAFE_INTEGER)
    (.error ("pqMessageKey: " ++ name ++ " is outside the safe u64 range"))

/-- The bytes of the canonical info (pqMessageKey.ts:57-65). -/
def messageKeyInfo (context : PqMessageKeyContext) (header : RatchetHeader) : Bytes :=
  let suite := textEncode context.rootSuite.text
  DOMAIN ++ (beBytes 2 suite.length ++ (suite ++ (context.binding ++ (beBytes 8 context.epoch ++
    ([FRAME_TYPE_CHUNK] ++ (header.dhPub ++ (beBytes 8 header.N ++ beBytes 8 header.PN)))))))

/-- `encodeInfo` (pqMessageKey.ts:66-112). The suite is a suite by type. -/
def encodeInfo (context : PqMessageKeyContext) (header : RatchetHeader) : Except JsError Bytes := do
  requireBytes context.rootKey "rootKey" 32
  requireBytes context.binding "binding" 32
  demand (context.epoch ≤ MAX_U64) (.error "pqMessageKey: epoch is outside the u64 range")
  requireBytes header.dhPub "header.dhPub" RATCHET_DHPUB_LEN
  requireCounter header.N "header.N"
  requireCounter header.PN "header.PN"
  demand (¬ (textEncode context.rootSuite.text).length > 0xffff)
    (.error "pqMessageKey: root suite identifier is too long")
  return messageKeyInfo context header

end PqMessageKey

open PqMessageKey

variable (L : LibCrypto)

/-- `combinePqMessageKey` (pqMessageKey.ts:127-160). -/
def combinePqMessageKey (classicalMessageKey : Bytes) (context : PqMessageKeyContext)
    (header : RatchetHeader) : Except JsError Bytes := do
  PqMessageKey.requireBytes classicalMessageKey "classicalMessageKey" 32
  let info ← encodeInfo context header
  return L.hkdfExpand (L.hkdfExtract context.rootKey classicalMessageKey) info 32

/-- The combined key of a message. -/
def combinedKey (classicalMessageKey : Bytes) (context : PqMessageKeyContext)
    (header : RatchetHeader) : Bytes :=
  L.hkdfExpand (L.hkdfExtract context.rootKey classicalMessageKey)
    (messageKeyInfo context header) 32

variable {L} {classicalMessageKey : Bytes} {context : PqMessageKeyContext}

theorem combinePqMessageKey_eq (hkey : classicalMessageKey.length = 32)
    (hroot : context.rootKey.length = 32) (hbinding : context.binding.length = 32)
    (h : HeaderFits header context.epoch) :
    combinePqMessageKey L classicalMessageKey context header =
      .ok (combinedKey L classicalMessageKey context header) := by
  have hsuite : ¬ (textEncode context.rootSuite.text).length > 0xffff := by
    cases context.rootSuite <;> decide
  unfold combinePqMessageKey encodeInfo PqMessageKey.requireBytes requireCounter
  simp only [demand_of hkey, demand_of hroot, demand_of hbinding, demand_of h.epoch,
    demand_of (show header.dhPub.length = RATCHET_DHPUB_LEN from h.dhPub), demand_of h.N,
    demand_of h.PN, demand_of hsuite, ok_bind]
  rfl

theorem length_combinePqMessageKey {key : Bytes}
    (h : combinePqMessageKey L classicalMessageKey context header = .ok key) : key.length = 32 := by
  unfold combinePqMessageKey at h
  obtain ⟨_, -, h⟩ := except_bind_eq_ok.mp h
  obtain ⟨_, -, h⟩ := except_bind_eq_ok.mp h
  rw [← except_pure_eq_ok.mp h, L.length_hkdfExpand]

end P2Party
