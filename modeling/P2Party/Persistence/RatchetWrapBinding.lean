import P2Party.Persistence.RatchetWrap

/-!
# A wrapped row is bound to itself

The associated data of an envelope is a concatenation of variable-length fields. Every field
that may vary in length carries its length, the optional one is announced by a flag and the
list by its count, so the bytes determine what they were written from.

- `clearAad_append_inj`: the associated data determines the public fields, the name of the secret, its
  index and the record id;
- `Written`: what wrapping has written of every secret, and `Written.unwrap`: it unwraps to the
  row;
- `Accepted`: what unwrapping has checked of every envelope;
- `ratchet_row_wrapping`: of wrapped rows nothing can be put together that is not one of them,
  unless AES-GCM accepts what was never sealed.
-/

namespace P2Party

open Base

namespace RatchetWrap

variable {W : WebCrypto} {s t w x y : RatchetSession} {key recordId recordId' : Bytes}
  {field field' : RatchetSecretField} {index index' : Nat}

/-! ## What validation guarantees -/

/-- The public fields after validation. -/
structure ClearOk (c : ClearFields) : Prop where
  roomId : c.roomId.encode.length ≤ MAX_AAD_STRING_BYTES ∧ JsString.decode c.roomId.encode = c.roomId
  peerPublicKey : c.peerPublicKey.encode.length ≤ MAX_AAD_STRING_BYTES ∧
    JsString.decode c.peerPublicKey.encode = c.peerPublicKey
  peerId : c.peerId.encode.length ≤ MAX_AAD_STRING_BYTES ∧ JsString.decode c.peerId.encode = c.peerId
  nonempty : c.roomId.length ≠ 0 ∧ c.peerPublicKey.length ≠ 0 ∧ c.peerId.length ≠ 0
  hex : c.peerPublicKey.length = 64 ∧ c.peerPublicKey.all isLowerHexUnit = true
  dhSelfPub : c.dhSelfPub.length = 32
  dhRemotePub : ∀ p ∈ c.dhRemotePub, p.length = 32
  Ns : c.Ns ≤ MAX_SAFE_INTEGER
  Nr : c.Nr ≤ MAX_SAFE_INTEGER
  PN : c.PN ≤ MAX_SAFE_INTEGER
  updatedAt : c.updatedAt ≤ MAX_SAFE_INTEGER
  size : c.skipped.length ≤ MAX_SKIP_SESSION
  skipped : ∀ e ∈ c.skipped, e.1.length = 32 ∧ e.2 ≤ MAX_SAFE_INTEGER

/-- The edge checkpoint of a row that is stored or to be stored. -/
def EdgeOk (edge : Option Bytes) : Prop :=
  ∀ checkpoint ∈ edge, ¬ (checkpoint.length < 1 ∨
    checkpoint.length > MAX_EDGE_CRYPTO_STATE_BYTES + RATCHET_WRAP_HEADER_BYTES + GCM_TAG_BYTES)

theorem requireCanonicalString_eq_ok {value : JsString} {name : String} {u : Unit} :
    requireCanonicalString value name = .ok u ↔ value.length ≠ 0 ∧
      value.encode.length ≤ MAX_AAD_STRING_BYTES ∧ JsString.decode value.encode = value := by
  simp only [requireCanonicalString, except_bind_eq_ok, demand_eq_ok, exists_const, Nat.not_lt,
    gt_iff_lt]

theorem requireOptionalBuffer_eq_ok {value : Option Bytes} {name : String} {n : Nat} {u : Unit} :
    requireOptionalBuffer value name n = .ok u ↔ ∀ bytes ∈ value, bytes.length = n := by
  cases value with
  | none => simp [requireOptionalBuffer]
  | some bytes => simp [requireOptionalBuffer, requireBuffer, demand_eq_ok]

theorem validateSkipped_eq_ok {start : Nat} {es : List SkippedMessageKey} {u : Unit} :
    validateSkipped start es = .ok u ↔
      ∀ e ∈ es.map fun e => (e.dhPub, e.n), e.1.length = 32 ∧ e.2 ≤ MAX_SAFE_INTEGER := by
  induction es generalizing start with
  | nil => simp [validateSkipped]
  | cons e es ih =>
    simp only [validateSkipped, requireBuffer, requireSafeUint, except_bind_eq_ok, demand_eq_ok,
      exists_const, ih, List.map_cons, List.forall_mem_cons, and_assoc]

/-- Validation reads the public fields and the length of the checkpoint. -/
theorem validateMetadata_eq_ok {u : Unit} :
    validateMetadata s = .ok u ↔ ClearOk s.clear ∧ EdgeOk s.edgeCryptoState := by
  simp only [validateMetadata, requireBuffer, requireSafeUint, except_bind_eq_ok, demand_eq_ok,
    exists_const, requireCanonicalString_eq_ok, requireOptionalBuffer_eq_ok, validateSkipped_eq_ok]
  constructor
  · rintro ⟨⟨hroom, hroomId⟩, ⟨hpeerKey, hpeerPublicKey⟩, hhex, ⟨hpeer, hpeerId⟩, hself, hremote,
      hNs, hNr, hPN, hupdatedAt, hsize, hskipped, hedge⟩
    refine ⟨⟨hroomId, hpeerPublicKey, hpeerId, ⟨hroom, hpeerKey, hpeer⟩, hhex, hself, hremote, hNs,
      hNr, hPN, hupdatedAt, ?_, hskipped⟩, hedge⟩
    show (s.skippedMessageKeys.map _).length ≤ MAX_SKIP_SESSION
    rw [List.length_map]
    exact Nat.not_lt.mp hsize
  · rintro ⟨h, hedge⟩
    have hsize : (s.skippedMessageKeys.map fun e => (e.dhPub, e.n)).length ≤ MAX_SKIP_SESSION :=
      h.size
    rw [List.length_map] at hsize
    exact ⟨⟨h.nonempty.1, h.roomId⟩, ⟨h.nonempty.2.1, h.peerPublicKey⟩, h.hex,
      ⟨h.nonempty.2.2, h.peerId⟩, h.dhSelfPub, h.dhRemotePub, h.Ns, h.Nr, h.PN, h.updatedAt,
      Nat.not_lt.mpr hsize, h.skipped, hedge⟩

/-! ## The associated data determines what it was written from -/

/-- The associated data from the public fields. -/
def clearAad (c : ClearFields) (field : RatchetSecretField) (recordId : Bytes) (index : Nat) :
    Bytes :=
  lengthPrefixed RATCHET_AAD_DOMAIN ++ ([RATCHET_WRAP_VERSION, field.tag] ++
    (lengthPrefixed recordId ++ (beBytes 4 index ++
    (lengthPrefixed (textEncode c.rootSuite.text) ++ (encodeString c.roomId ++
    (encodeString c.peerPublicKey ++ (encodeString c.peerId ++ (lengthPrefixed c.dhSelfPub ++
    ([(if c.hasSending then 1 else 0) + (if c.hasReceiving then 2 else 0) +
      (if c.dhRemotePub.isSome then 4 else 0) + (if c.hasEdge then 8 else 0)] ++
    ((c.dhRemotePub.map lengthPrefixed).getD [] ++ (beBytes 8 c.Ns ++
    (beBytes 8 c.Nr ++ (beBytes 8 c.PN ++ (beBytes 8 c.updatedAt ++
    (beBytes 4 c.skipped.length ++
    c.skipped.flatMap fun e => lengthPrefixed e.1 ++ beBytes 8 e.2)))))))))))))))

theorem aadBytes_eq : aadBytes s field recordId index = clearAad s.clear field recordId index := by
  simp only [aadBytes, clearAad, RatchetSession.clear, aadFlags, List.length_map, List.flatMap_map]
  rfl

/-- A length-prefixed field is read off the front. -/
theorem lengthPrefixed_append_inj {a b u v : Bytes} (ha : a.length < 256 ^ 4)
    (hb : b.length < 256 ^ 4) (h : lengthPrefixed a ++ u = lengthPrefixed b ++ v) : a = b ∧ u = v := by
  simp only [lengthPrefixed, List.append_assoc] at h
  obtain ⟨hlength, h⟩ := List.append_inj h (by rw [length_beBytes, length_beBytes])
  exact List.append_inj h (beBytes_inj ha hb hlength)

/-- An integer field is read off the front. -/
theorem beBytes_append_inj {n m m' : Nat} {u v : Bytes} (hm : m < 256 ^ n) (hm' : m' < 256 ^ n)
    (h : beBytes n m ++ u = beBytes n m' ++ v) : m = m' ∧ u = v := by
  obtain ⟨hvalue, hrest⟩ := List.append_inj h (by rw [length_beBytes, length_beBytes])
  exact ⟨beBytes_inj hm hm' hvalue, hrest⟩

/-- A string that survives its round trip is read off the front. -/
theorem encodeString_append_inj {a b : JsString} {u v : Bytes}
    (ha : a.encode.length ≤ MAX_AAD_STRING_BYTES ∧ JsString.decode a.encode = a)
    (hb : b.encode.length ≤ MAX_AAD_STRING_BYTES ∧ JsString.decode b.encode = b)
    (h : encodeString a ++ u = encodeString b ++ v) : a = b ∧ u = v := by
  obtain ⟨hbytes, hrest⟩ := lengthPrefixed_append_inj (Nat.lt_of_le_of_lt ha.1 (by decide))
    (Nat.lt_of_le_of_lt hb.1 (by decide)) h
  exact ⟨JsString.encode_inj_of_decode ha.2 hb.2 hbytes, hrest⟩

theorem lt_of_safe {n : Nat} (h : n ≤ MAX_SAFE_INTEGER) : n < 256 ^ 8 :=
  Nat.lt_of_le_of_lt h (by decide)

/-- The flag byte tells its four flags apart. -/
theorem flagByte_inj {a b c d a' b' c' d' : Bool}
    (h : ((if a then 1 else 0) + (if b then 2 else 0) + (if c then 4 else 0) +
        (if d then 8 else 0) : UInt8) =
      (if a' then 1 else 0) + (if b' then 2 else 0) + (if c' then 4 else 0) +
        (if d' then 8 else 0)) : a = a' ∧ b = b' ∧ c = c' ∧ d = d' := by
  revert a b c d a' b' c' d'
  decide

/-- The optional key is read off the front once its flag is known. -/
theorem optional_append_inj {a b : Option Bytes} {u v : Bytes} (ha : ∀ p ∈ a, p.length = 32)
    (hb : ∀ p ∈ b, p.length = 32) (hflag : a.isSome = b.isSome)
    (h : (a.map lengthPrefixed).getD [] ++ u = (b.map lengthPrefixed).getD [] ++ v) :
    a = b ∧ u = v := by
  cases a with
  | none =>
    cases b with
    | none => exact ⟨rfl, h⟩
    | some q => cases hflag
  | some p =>
    cases b with
    | none => cases hflag
    | some q =>
      obtain ⟨rfl, hrest⟩ := lengthPrefixed_append_inj (by rw [ha p rfl]; decide)
        (by rw [hb q rfl]; decide) h
      exact ⟨rfl, hrest⟩

/-- The skipped keys are read one by one once their number is known. -/
theorem skipped_append_inj {es es' : List (Bytes × Nat)} {u v : Bytes}
    (hlength : es.length = es'.length) (hes : ∀ e ∈ es, e.1.length = 32 ∧ e.2 ≤ MAX_SAFE_INTEGER)
    (hes' : ∀ e ∈ es', e.1.length = 32 ∧ e.2 ≤ MAX_SAFE_INTEGER)
    (h : (es.flatMap fun e => lengthPrefixed e.1 ++ beBytes 8 e.2) ++ u =
      (es'.flatMap fun e => lengthPrefixed e.1 ++ beBytes 8 e.2) ++ v) : es = es' ∧ u = v := by
  induction es generalizing es' with
  | nil =>
    obtain rfl := List.length_eq_zero_iff.mp hlength.symm
    exact ⟨rfl, h⟩
  | cons e es ih =>
    cases es' with
    | nil => cases hlength
    | cons e' es' =>
      obtain ⟨hpub, hn⟩ := hes e List.mem_cons_self
      obtain ⟨hpub', hn'⟩ := hes' e' List.mem_cons_self
      simp only [List.flatMap_cons, List.append_assoc] at h
      obtain ⟨hdhPub, h⟩ := lengthPrefixed_append_inj (by rw [hpub]; decide) (by rw [hpub']; decide) h
      obtain ⟨hindex, h⟩ := beBytes_append_inj (lt_of_safe hn) (lt_of_safe hn') h
      obtain ⟨hrest, htail⟩ := ih (Nat.succ.inj hlength)
        (fun d hd => hes d (List.mem_cons_of_mem e hd))
        (fun d hd => hes' d (List.mem_cons_of_mem e' hd)) h
      exact ⟨by rw [hrest, Prod.ext hdhPub hindex], htail⟩

theorem tag_injective : Function.Injective RatchetSecretField.tag := by
  intro a b h
  cases a <;> cases b <;> first | rfl | exact absurd h (by decide)

theorem rootSuite_text_inj {a b : RatchetRootSuite} (h : textEncode a.text = textEncode b.text) :
    a = b := by
  have htext : a.text = b.text := by
    have := congrArg textDecode h
    rwa [textDecode_textEncode, textDecode_textEncode, Option.some.injEq] at this
  revert htext
  cases a <;> cases b <;> first | exact fun _ => rfl | exact fun h => absurd h (by decide)

theorem length_rootSuite_text (a : RatchetRootSuite) : (textEncode a.text).length < 256 ^ 4 := by
  cases a <;> decide

/-- **The associated data is unambiguous**, also in front of other bytes. -/
theorem clearAad_append_inj {c c' : ClearFields} {u v : Bytes} (hc : ClearOk c) (hc' : ClearOk c')
    (hid : recordId.length = RATCHET_RECORD_ID_BYTES)
    (hid' : recordId'.length = RATCHET_RECORD_ID_BYTES) (hindex : index < 256 ^ 4)
    (hindex' : index' < 256 ^ 4)
    (h : clearAad c field recordId index ++ u = clearAad c' field' recordId' index' ++ v) :
    (c = c' ∧ field = field' ∧ recordId = recordId' ∧ index = index') ∧ u = v := by
  simp only [clearAad, List.append_assoc] at h
  obtain ⟨-, h⟩ := lengthPrefixed_append_inj (by decide) (by decide) h
  obtain ⟨-, h⟩ := List.cons.inj h
  obtain ⟨htag, h⟩ := List.cons.inj h
  obtain ⟨hrecordId, h⟩ := lengthPrefixed_append_inj (by rw [hid]; decide) (by rw [hid']; decide) h
  obtain ⟨hindexEq, h⟩ := beBytes_append_inj hindex hindex' h
  obtain ⟨hsuite, h⟩ := lengthPrefixed_append_inj (length_rootSuite_text _) (length_rootSuite_text _) h
  obtain ⟨hroomId, h⟩ := encodeString_append_inj hc.roomId hc'.roomId h
  obtain ⟨hpeerPublicKey, h⟩ := encodeString_append_inj hc.peerPublicKey hc'.peerPublicKey h
  obtain ⟨hpeerId, h⟩ := encodeString_append_inj hc.peerId hc'.peerId h
  obtain ⟨hself, h⟩ := lengthPrefixed_append_inj (by rw [hc.dhSelfPub]; decide)
    (by rw [hc'.dhSelfPub]; decide) h
  obtain ⟨hflags, h⟩ := List.cons.inj h
  obtain ⟨hsending, hreceiving, hremoteFlag, hedge⟩ := flagByte_inj hflags
  obtain ⟨hremote, h⟩ := optional_append_inj hc.dhRemotePub hc'.dhRemotePub hremoteFlag h
  obtain ⟨hNs, h⟩ := beBytes_append_inj (lt_of_safe hc.Ns) (lt_of_safe hc'.Ns) h
  obtain ⟨hNr, h⟩ := beBytes_append_inj (lt_of_safe hc.Nr) (lt_of_safe hc'.Nr) h
  obtain ⟨hPN, h⟩ := beBytes_append_inj (lt_of_safe hc.PN) (lt_of_safe hc'.PN) h
  obtain ⟨hupdatedAt, h⟩ := beBytes_append_inj (lt_of_safe hc.updatedAt) (lt_of_safe hc'.updatedAt) h
  obtain ⟨hcount, h⟩ := beBytes_append_inj (Nat.lt_of_le_of_lt hc.size (by decide))
    (Nat.lt_of_le_of_lt hc'.size (by decide)) h
  obtain ⟨hskipped, hrest⟩ := skipped_append_inj hcount hc.skipped hc'.skipped h
  refine ⟨⟨?_, tag_injective htag, hrecordId, hindexEq⟩, hrest⟩
  have hsuiteEq := rootSuite_text_inj hsuite
  cases c
  cases c'
  simp only at hsuiteEq hroomId hpeerPublicKey hpeerId hself hsending hreceiving hedge hremote hskipped
  simp only at hNs hNr hPN hupdatedAt
  subst hsuiteEq hroomId hpeerPublicKey hpeerId hself hsending hreceiving hedge hremote hskipped
  subst hNs hNr hPN hupdatedAt
  rfl

theorem clearAad_inj {c c' : ClearFields} (hc : ClearOk c) (hc' : ClearOk c')
    (hid : recordId.length = RATCHET_RECORD_ID_BYTES)
    (hid' : recordId'.length = RATCHET_RECORD_ID_BYTES) (hindex : index < 256 ^ 4)
    (hindex' : index' < 256 ^ 4)
    (h : clearAad c field recordId index = clearAad c' field' recordId' index') :
    c = c' ∧ field = field' ∧ recordId = recordId' ∧ index = index' :=
  (clearAad_append_inj hc hc' hid hid' hindex hindex' (congrArg (· ++ ([] : Bytes)) h)).1

/-! ## The decryptions a row asks for -/

/-- The decryption that unwrapping `w` asks for one envelope. -/
def query (key : Bytes) (w : RatchetSession) (field : RatchetSecretField) (index : Nat)
    (envelope : Bytes) : WebCrypto.Query :=
  ⟨key, slice envelope 21 12, aadBytes w field (slice w.rootKey 5 RATCHET_RECORD_ID_BYTES) index,
    envelope.drop RATCHET_WRAP_HEADER_BYTES⟩

/-- Unwrapping the row asks for this decryption. -/
def Asks (key : Bytes) (w : RatchetSession) (q : WebCrypto.Query) : Prop :=
  ∃ field index envelope, w.secret field index = some envelope ∧ q = query key w field index envelope

/-- An envelope with the head that `ratchetEnvelopeRecordId` checks, under a record id. -/
structure EnvelopeOk (envelope recordId : Bytes) : Prop where
  length : RATCHET_WRAP_HEADER_BYTES ≤ envelope.length
  magic : envelope.take 4 = RATCHET_WRAP_MAGIC
  version : envelope.getD 4 0 = RATCHET_WRAP_VERSION
  recordId : slice envelope 5 RATCHET_RECORD_ID_BYTES = recordId

/-- Record id, IV and ciphertext make up the envelope. -/
theorem EnvelopeOk.ext {a b : Bytes} (ha : EnvelopeOk a recordId) (hb : EnvelopeOk b recordId)
    (hiv : slice a 21 12 = slice b 21 12) (hct : a.drop 33 = b.drop 33) : a = b := by
  have split : ∀ {e : Bytes}, EnvelopeOk e recordId → e = RATCHET_WRAP_MAGIC ++
      RATCHET_WRAP_VERSION :: (recordId ++ (slice e 21 12 ++ e.drop 33)) := by
    intro e he
    have hlong : 4 < e.length := Nat.lt_of_lt_of_le (by decide) he.length
    have hiv : slice e 21 12 ++ e.drop 33 = e.drop 21 := slice_append_drop e 21 12
    have hid : recordId ++ e.drop 21 = e.drop 5 := by
      rw [← he.recordId]
      exact slice_append_drop e 5 16
    rw [hiv, hid, ← he.version, getD_cons_drop hlong, ← he.magic, List.take_append_drop]
  rw [split ha, split hb, hiv, hct]

theorem EnvelopeLength.header_le {expected : Option Nat} {n : Nat} (h : EnvelopeLength expected n) :
    RATCHET_WRAP_HEADER_BYTES ≤ n := by
  cases expected with
  | none =>
    have hmin : RATCHET_WRAP_HEADER_BYTES + 1 + GCM_TAG_BYTES ≤ n := h.1
    simp only [RATCHET_WRAP_HEADER_BYTES] at hmin ⊢
    omega
  | some expected =>
    have heq : n = RATCHET_WRAP_HEADER_BYTES + expected + GCM_TAG_BYTES := h
    simp only [RATCHET_WRAP_HEADER_BYTES] at heq ⊢
    omega

theorem ratchetEnvelopeRecordId_eq_ok {blob : Bytes} {expected : Option Nat} :
    ratchetEnvelopeRecordId blob expected = .ok recordId ↔
      EnvelopeLength expected blob.length ∧ EnvelopeOk blob recordId := by
  simp only [ratchetEnvelopeRecordId, except_bind_eq_ok, demand_eq_ok, exists_const,
    except_pure_eq_ok]
  constructor
  · rintro ⟨hlength, hmagic, hversion, hid⟩
    exact ⟨hlength, hlength.header_le, hmagic, hversion, hid⟩
  · rintro ⟨hlength, h⟩
    exact ⟨hlength, h.magic, h.version, h.recordId⟩

/-- What unwrapping one envelope has checked. -/
theorem unwrapRatchetField_eq_ok {envelope aad plaintext : Bytes} {expected : Option Nat} :
    unwrapRatchetField W key envelope aad recordId expected = .ok plaintext ↔
      EnvelopeLength expected envelope.length ∧ EnvelopeOk envelope recordId ∧
        W.decrypt key (slice envelope 21 12) aad (envelope.drop 33) = some plaintext ∧
        PlaintextLength expected plaintext.length := by
  simp only [unwrapRatchetField, except_bind_eq_ok, demand_eq_ok, exists_const,
    ratchetEnvelopeRecordId_eq_ok]
  constructor
  · rintro ⟨id, ⟨hlength, hok⟩, rfl, h⟩
    cases hdec : W.decrypt key (slice envelope 21 12) aad (envelope.drop RATCHET_WRAP_HEADER_BYTES)
    with
    | none =>
      rw [hdec] at h
      cases h
    | some p =>
      rw [hdec] at h
      simp only [except_bind_eq_ok, demand_eq_ok, exists_const, except_pure_eq_ok] at h
      obtain ⟨hp, rfl⟩ := h
      exact ⟨hlength, hok, rfl, hp⟩
  · rintro ⟨hlength, hok, hdec, hp⟩
    refine ⟨recordId, ⟨hlength, hok⟩, rfl, ?_⟩
    have hdec' : W.decrypt key (slice envelope 21 12) aad
        (envelope.drop RATCHET_WRAP_HEADER_BYTES) = some plaintext := hdec
    rw [hdec']
    simp only [except_bind_eq_ok, demand_eq_ok, exists_const, except_pure_eq_ok]
    exact ⟨hp, trivial⟩

/-- What unwrapping a row has checked: the public fields, and of every envelope its head, its
record id, and that its decryption succeeded. -/
structure Accepted (W : WebCrypto) (key : Bytes) (w : RatchetSession) (recordId : Bytes) : Prop where
  clear : ClearOk w.clear
  envelope : ∀ field index e, w.secret field index = some e → EnvelopeOk e recordId
  asked : ∀ field index e, w.secret field index = some e → (query key w field index e).Succeeds W

theorem canonicalRatchetAad_eq_ok {aad : Bytes} :
    canonicalRatchetAad s field recordId index = .ok aad ↔
      (ClearOk s.clear ∧ EdgeOk s.edgeCryptoState) ∧ recordId.length = RATCHET_RECORD_ID_BYTES ∧
        aadBytes s field recordId index = aad := by
  simp only [canonicalRatchetAad, except_bind_eq_ok, demand_eq_ok, exists_const, except_pure_eq_ok,
    validateMetadata_eq_ok]

theorem accepted_of_unwrap (h : unwrapRatchetSession W w key = .ok s) :
    ∃ recordId, Accepted W key w recordId := by
  simp only [unwrapRatchetSession, except_bind_eq_ok, validateMetadata_eq_ok, exists_const,
    ratchetEnvelopeRecordId_eq_ok, replaceSecrets_eq_ok] at h
  obtain ⟨⟨hclear, -⟩, recordId, ⟨-, hroot⟩, -, hreplaced⟩ := h
  -- every secret that is there went through `unwrapRatchetField`
  have hfield : ∀ field index e, w.secret field index = some e → EnvelopeOk e recordId ∧
      ∃ plaintext, W.decrypt key (slice e 21 12) (aadBytes w field recordId index) (e.drop 33) =
        some plaintext := by
    intro field index e he
    have hone := hreplaced field index
    rw [he] at hone
    obtain ⟨plaintext, hrun, -⟩ := hone
    simp only [except_bind_eq_ok, canonicalRatchetAad_eq_ok, unwrapRatchetField_eq_ok] at hrun
    obtain ⟨aad, ⟨-, -, rfl⟩, -, hok, hdec, -⟩ := hrun
    exact ⟨hok, plaintext, hdec⟩
  refine ⟨recordId, hclear, fun field index e he => (hfield field index e he).1, ?_⟩
  intro field index e he
  obtain ⟨-, plaintext, hdec⟩ := hfield field index e he
  simp only [WebCrypto.Query.Succeeds, query, hroot.recordId]
  rw [hdec]
  rfl

/-- Unwrapping keeps the public fields. -/
theorem clear_of_unwrap (h : unwrapRatchetSession W w key = .ok s) : s.clear = w.clear := by
  simp only [unwrapRatchetSession, except_bind_eq_ok, replaceSecrets_eq_ok] at h
  obtain ⟨-, -, -, -, hclear, -⟩ := h
  exact hclear

/-! ## Wrapped rows -/

/-- The head of an envelope as it is written. -/
theorem envelopeOk_wrap {id iv ct : Bytes} (hid : id.length = RATCHET_RECORD_ID_BYTES)
    (hiv : iv.length = 12) :
    EnvelopeOk (RATCHET_WRAP_MAGIC ++ (RATCHET_WRAP_VERSION :: (id ++ (iv ++ ct)))) id ∧
      slice (RATCHET_WRAP_MAGIC ++ (RATCHET_WRAP_VERSION :: (id ++ (iv ++ ct)))) 21 12 = iv ∧
      (RATCHET_WRAP_MAGIC ++ (RATCHET_WRAP_VERSION :: (id ++ (iv ++ ct)))).drop 33 = ct := by
  have hhead : (RATCHET_WRAP_MAGIC ++ [RATCHET_WRAP_VERSION]).length = 5 := rfl
  have hfront : (RATCHET_WRAP_MAGIC ++ [RATCHET_WRAP_VERSION] ++ id).length = 21 := by
    rw [List.length_append, hhead, hid]
    rfl
  have hshape : RATCHET_WRAP_MAGIC ++ (RATCHET_WRAP_VERSION :: (id ++ (iv ++ ct))) =
      RATCHET_WRAP_MAGIC ++ [RATCHET_WRAP_VERSION] ++ (id ++ (iv ++ ct)) := by simp
  refine ⟨⟨?_, rfl, rfl, ?_⟩, ?_, ?_⟩
  · rw [hshape, ← List.append_assoc, List.length_append, hfront, List.length_append, hiv]
    simp only [RATCHET_WRAP_HEADER_BYTES]
    omega
  · rw [hshape]
    exact slice_append hhead hid
  · rw [hshape, ← List.append_assoc]
    exact slice_append hfront hiv
  · rw [hshape, ← List.append_assoc, ← List.append_assoc]
    exact drop_append_of_length (by rw [List.length_append, hfront, hiv])

/-- Wrapping one secret. -/
theorem wrapRatchetField_eq_ok {plaintext aad envelope : Bytes} {expected : Option Nat} {iv : Iv} :
    wrapRatchetField W key plaintext aad recordId expected iv = .ok envelope ↔
      PlaintextLength expected plaintext.length ∧ recordId.length = RATCHET_RECORD_ID_BYTES ∧
        RATCHET_WRAP_MAGIC ++ (RATCHET_WRAP_VERSION :: (recordId ++ (iv.val ++
          W.encrypt key iv.val aad plaintext))) = envelope := by
  simp only [wrapRatchetField, except_bind_eq_ok, demand_eq_ok, exists_const, except_pure_eq_ok]

/-- The envelope of an acceptable secret has an acceptable length. -/
theorem envelopeLength_of_plaintext {expected : Option Nat} {n : Nat}
    (h : PlaintextLength expected n) :
    EnvelopeLength expected (RATCHET_WRAP_HEADER_BYTES + n + GCM_TAG_BYTES) := by
  cases expected with
  | none =>
    obtain ⟨hmin, hmax⟩ : 1 ≤ n ∧ n ≤ MAX_EDGE_CRYPTO_STATE_BYTES := h
    constructor
    · simp only [RATCHET_WRAP_HEADER_BYTES, GCM_TAG_BYTES]
      omega
    · simp only [RATCHET_WRAP_HEADER_BYTES, GCM_TAG_BYTES]
      omega
  | some expected =>
    have heq : n = expected := h
    rw [heq]
    rfl

/-- What wrapping `s` has written: the public fields, and for each secret an envelope under
one record id with the secret sealed under the associated data of the row itself. -/
structure Written (W : WebCrypto) (key : Bytes) (s w : RatchetSession) (recordId : Bytes) : Prop where
  sameClear : w.clear = s.clear
  clear : ClearOk w.clear
  id : recordId.length = RATCHET_RECORD_ID_BYTES
  envelope : ∀ field index plaintext, s.secret field index = some plaintext →
    PlaintextLength field.expectedPlaintextBytes plaintext.length ∧
      ∃ e, w.secret field index = some e ∧ EnvelopeOk e recordId ∧
        EnvelopeLength field.expectedPlaintextBytes e.length ∧
        e.drop 33 = W.encrypt key (slice e 21 12) (aadBytes w field recordId index) plaintext

theorem aadBytes_congr (h : s.clear = t.clear) :
    aadBytes s field recordId index = aadBytes t field recordId index := by
  rw [aadBytes_eq, aadBytes_eq, h]

theorem requireMessageKeys_eq_ok {start : Nat} {es : List SkippedMessageKey} {u : Unit} :
    requireMessageKeys start es = .ok u ↔ ∀ e ∈ es, e.messageKey.length = 32 := by
  induction es generalizing start with
  | nil => simp [requireMessageKeys]
  | cons e es ih =>
    simp only [requireMessageKeys, requireBuffer, except_bind_eq_ok, demand_eq_ok, exists_const, ih,
      List.forall_mem_cons]

/-- The secrets are accepted exactly when each has the length of its field. -/
theorem requireSecrets_eq_ok {u : Unit} :
    requireSecrets s = .ok u ↔ ∀ field index plaintext, s.secret field index = some plaintext →
      PlaintextLength field.expectedPlaintextBytes plaintext.length := by
  have hedge : (∀ e ∈ s.edgeCryptoState, ¬ (e.length < 1 ∨ e.length > MAX_EDGE_CRYPTO_STATE_BYTES)) ↔
      ∀ e ∈ s.edgeCryptoState, PlaintextLength none e.length := by
    refine forall_congr' fun e => imp_congr_right fun _ => ?_
    rw [not_or, Nat.not_lt, gt_iff_lt, Nat.not_lt]
    rfl
  simp only [requireSecrets, requireBuffer, except_bind_eq_ok, demand_eq_ok, exists_const,
    requireOptionalBuffer_eq_ok, requireMessageKeys_eq_ok, hedge]
  exact (@forall_secret_iff s
    fun field e => PlaintextLength field.expectedPlaintextBytes e.length).symm

theorem written_of_wrap {draws : Draws} (h : wrapRatchetSession W s key draws = .ok w) :
    Written W key s w draws.recordId.val := by
  simp only [wrapRatchetSession, except_bind_eq_ok, validateMetadata_eq_ok, exists_const,
    replaceSecrets_eq_ok] at h
  obtain ⟨⟨hclear, -⟩, -, -, hsame, hreplaced⟩ := h
  refine ⟨hsame, hsame ▸ hclear, draws.recordId.property, ?_⟩
  intro field index plaintext hplain
  have hone := hreplaced field index
  rw [hplain] at hone
  obtain ⟨e, hrun, he⟩ := hone
  simp only [except_bind_eq_ok, canonicalRatchetAad_eq_ok, wrapRatchetField_eq_ok] at hrun
  obtain ⟨aad, ⟨-, hid, rfl⟩, hlength, -, hshape⟩ := hrun
  obtain ⟨hok, hiv, hct⟩ := @envelopeOk_wrap draws.recordId.val (draws.iv field index).val
    (W.encrypt key (draws.iv field index).val (aadBytes s field draws.recordId.val index) plaintext)
    hid (draws.iv field index).property
  rw [hshape] at hok hiv hct
  refine ⟨hlength, e, he, hok, ?_, ?_⟩
  · have hcount : e.length = RATCHET_WRAP_HEADER_BYTES + plaintext.length + GCM_TAG_BYTES := by
      have := congrArg List.length hct
      rw [List.length_drop, WebCrypto.length_encrypt] at this
      have hheader := hok.length
      simp only [RATCHET_WRAP_HEADER_BYTES, GCM_TAG_BYTES] at hheader ⊢
      omega
    rw [hcount]
    exact envelopeLength_of_plaintext hlength
  · rw [hct, hiv, aadBytes_congr hsame]

/-- The record id is readable in the row. -/
theorem Written.recordId_eq (h : Written W key s w recordId) :
    slice w.rootKey 5 RATCHET_RECORD_ID_BYTES = recordId := by
  obtain ⟨-, e, he, hok, -, -⟩ := h.envelope .rootKey 0 s.rootKey rfl
  rw [show w.rootKey = e from Option.some.inj he]
  exact hok.recordId

/-- Each envelope of a written row seals the secret of its place. -/
theorem Written.plaintext (h : Written W key s w recordId) {e : Bytes}
    (he : w.secret field index = some e) : ∃ plaintext, s.secret field index = some plaintext := by
  have hsome := secret_isSome_of_clear h.sameClear field index
  rw [he] at hsome
  exact Option.isSome_iff_exists.mp hsome.symm

/-- The head and the length of each envelope of a written row. -/
theorem Written.stored (h : Written W key s w recordId) {e : Bytes}
    (he : w.secret field index = some e) :
    EnvelopeLength field.expectedPlaintextBytes e.length ∧ EnvelopeOk e recordId := by
  obtain ⟨plaintext, hplain⟩ := h.plaintext he
  obtain ⟨-, e', he', hok, hlength, -⟩ := h.envelope field index plaintext hplain
  have heq : e = e' := Option.some.inj (he.symm.trans he')
  rw [heq]
  exact ⟨hlength, hok⟩

/-- The checkpoint of a written row passes the check on stored rows. -/
theorem Written.edgeOk (h : Written W key s w recordId) : EdgeOk w.edgeCryptoState := by
  intro checkpoint hcheckpoint
  have hsecret : w.secret .edgeCryptoState 0 = some checkpoint := hcheckpoint
  obtain ⟨hmin, hmax⟩ : RATCHET_WRAP_HEADER_BYTES + 1 + GCM_TAG_BYTES ≤ checkpoint.length ∧
    checkpoint.length ≤ RATCHET_WRAP_HEADER_BYTES + MAX_EDGE_CRYPTO_STATE_BYTES + GCM_TAG_BYTES :=
    (h.stored hsecret).1
  simp only [RATCHET_WRAP_HEADER_BYTES, GCM_TAG_BYTES] at hmin hmax ⊢
  omega

/-- **A written row unwraps to the row it was written from.** -/
theorem Written.unwrap (hW : WebCrypto.GcmLaws W) (h : Written W key s w recordId) :
    unwrapRatchetSession W w key = .ok s := by
  have hedge : EdgeOk w.edgeCryptoState := h.edgeOk
  have hvalid : validateMetadata w = .ok () := validateMetadata_eq_ok.mpr ⟨h.clear, hedge⟩
  have hroot : ratchetEnvelopeRecordId w.rootKey (some 32) = .ok recordId := by
    obtain ⟨-, e, he, hok, hlength, -⟩ := h.envelope .rootKey 0 s.rootKey rfl
    rw [show w.rootKey = e from Option.some.inj he]
    exact ratchetEnvelopeRecordId_eq_ok.mpr ⟨hlength, hok⟩
  simp only [unwrapRatchetSession, hvalid, hroot, ok_bind]
  refine replaceSecrets_eq_ok.mpr ⟨h.sameClear.symm, fun field index => ?_⟩
  cases hwrapped : w.secret field index with
  | none =>
    have hnone := secret_isSome_of_clear h.sameClear field index
    rw [hwrapped] at hnone
    exact Option.isNone_iff_eq_none.mp (by simpa using hnone)
  | some e =>
    obtain ⟨plaintext, hplain⟩ := h.plaintext hwrapped
    obtain ⟨hlength, e', he', hok, hcount, hct⟩ := h.envelope field index plaintext hplain
    have heq : e = e' := Option.some.inj (hwrapped.symm.trans he')
    rw [heq]
    refine ⟨plaintext, ?_, hplain⟩
    simp only [except_bind_eq_ok, canonicalRatchetAad_eq_ok, unwrapRatchetField_eq_ok]
    refine ⟨_, ⟨⟨h.clear, hedge⟩, h.id, rfl⟩, hcount, hok, ?_, hlength⟩
    rw [hct]
    exact hW.decrypt_encrypt _ _ _ _

/-! ## Nothing else is accepted -/

/-- Only as many indices are in use as there may be skipped keys. -/
theorem index_lt (hclear : ClearOk w.clear) {e : Bytes} (he : w.secret field index = some e) :
    index < 256 ^ 4 := by
  have hzero : 0 < 256 ^ 4 := by decide
  cases field with
  | skippedMessageKey =>
    have hsize : (w.skippedMessageKeys.map fun e => (e.dhPub, e.n)).length ≤ MAX_SKIP_SESSION :=
      hclear.size
    rw [List.length_map] at hsize
    obtain ⟨skipped, hskipped, -⟩ := Option.map_eq_some_iff.mp he
    obtain ⟨hlt, -⟩ := List.getElem?_eq_some_iff.mp hskipped
    exact Nat.lt_trans (Nat.lt_of_lt_of_le hlt hsize) (by decide)
  | _ =>
    cases index with
    | zero => exact hzero
    | succ n => cases he

/-- A decryption names the row, the place in it and the envelope. -/
theorem query_inj {r : RatchetSession} {e e' : Bytes} (hw : ClearOk w.clear) (hr : ClearOk r.clear)
    (hidw : (slice w.rootKey 5 RATCHET_RECORD_ID_BYTES).length = RATCHET_RECORD_ID_BYTES)
    (hidr : (slice r.rootKey 5 RATCHET_RECORD_ID_BYTES).length = RATCHET_RECORD_ID_BYTES)
    (he : w.secret field index = some e) (he' : r.secret field' index' = some e')
    (h : query key w field index e = query key r field' index' e') :
    w.clear = r.clear ∧ field = field' ∧ index = index' ∧
      slice w.rootKey 5 RATCHET_RECORD_ID_BYTES = slice r.rootKey 5 RATCHET_RECORD_ID_BYTES ∧
      slice e 21 12 = slice e' 21 12 ∧ e.drop 33 = e'.drop 33 := by
  obtain ⟨-, hiv, haad, hct⟩ := WebCrypto.Query.mk.inj h
  rw [aadBytes_eq, aadBytes_eq] at haad
  obtain ⟨hclear, hfield, hid, hindex⟩ :=
    clearAad_inj hw hr hidw hidr (index_lt hw he) (index_lt hr he') haad
  exact ⟨hclear, hfield, hindex, hid, hiv, hct⟩

/-- Each accepted envelope is the one a written row has in that place, when no decryption
succeeds that was not asked for by a written row. -/
theorem Accepted.envelope_of_rows {rows : Set RatchetSession} (hw : Accepted W key w recordId)
    (hrows : ∀ r ∈ rows, ∃ s id, Written W key s r id)
    (hideal : ∀ q, Asks key w q → q.Succeeds W → ∃ r ∈ rows, Asks key r q) {e : Bytes}
    (he : w.secret field index = some e) :
    ∃ r ∈ rows, w.clear = r.clear ∧ r.secret field index = some e ∧
      slice r.rootKey 5 RATCHET_RECORD_ID_BYTES = recordId := by
  obtain ⟨r, hr, field', index', e', he', hquery⟩ :=
    hideal _ ⟨field, index, e, he, rfl⟩ (hw.asked field index e he)
  obtain ⟨s, id, hwritten⟩ := hrows r hr
  have hroot : EnvelopeOk w.rootKey recordId := hw.envelope .rootKey 0 w.rootKey rfl
  have hlong : 5 + RATCHET_RECORD_ID_BYTES ≤ w.rootKey.length :=
    Nat.le_trans (by decide) hroot.length
  obtain ⟨hclear, rfl, rfl, hid, hiv, hct⟩ := query_inj hw.clear hwritten.clear
    (length_slice hlong) (hwritten.recordId_eq.symm ▸ hwritten.id) he he' hquery
  obtain ⟨plaintext, hplain⟩ := hwritten.plaintext he'
  obtain ⟨-, e'', he'', hok, -⟩ := hwritten.envelope field index plaintext hplain
  have heq : e' = e'' := Option.some.inj (he'.symm.trans he'')
  rw [hroot.recordId, hwritten.recordId_eq] at hid
  subst heq hid
  have hsame : e = e' := (hw.envelope field index e he).ext hok hiv hct
  exact ⟨r, hr, hclear, by rw [he', hsame], hwritten.recordId_eq⟩

/-- An accepted row is a written one. -/
theorem mem_of_unwrap {rows : Set RatchetSession}
    (hrows : ∀ r ∈ rows, ∃ s id, Written W key s r id)
    (hfresh : ∀ r ∈ rows, ∀ r' ∈ rows, slice r.rootKey 5 RATCHET_RECORD_ID_BYTES =
      slice r'.rootKey 5 RATCHET_RECORD_ID_BYTES → r = r')
    (hideal : ∀ q, Asks key w q → q.Succeeds W → ∃ r ∈ rows, Asks key r q)
    (h : unwrapRatchetSession W w key = .ok s) : w ∈ rows := by
  obtain ⟨recordId, hw⟩ := accepted_of_unwrap h
  have hstored : w.secret .rootKey 0 = some w.rootKey := rfl
  obtain ⟨r, hr, hclear, -, hid⟩ := hw.envelope_of_rows hrows hideal hstored
  have heq : w = r := by
    refine eq_of_clear_secret hclear fun field index => ?_
    cases hsecret : w.secret field index with
    | none =>
      have hnone := secret_isSome_of_clear hclear field index
      rw [hsecret] at hnone
      exact (Option.isNone_iff_eq_none.mp (by simpa using hnone.symm)).symm
    | some e =>
      -- the row of this envelope has the same record id, so it is the same row
      obtain ⟨r', hr', -, he, hid'⟩ := hw.envelope_of_rows hrows hideal hsecret
      rw [hfresh r hr r' hr' (hid.trans hid'.symm), he]
  rw [heq]
  exact hr

/-! ## Rows at rest -/

/-- Wrapping refuses a row only for its public fields or the length of a secret. -/
theorem wrap_of_valid {draws : Draws} (hvalid : validateMetadata s = .ok ())
    (hsecrets : requireSecrets s = .ok ()) : ∃ w, wrapRatchetSession W s key draws = .ok w := by
  obtain ⟨hclear, hedge⟩ := validateMetadata_eq_ok.mp hvalid
  have hlength := requireSecrets_eq_ok.mp hsecrets
  have hone : ∀ field index plaintext, s.secret field index = some plaintext → ∃ e,
      (do
        let aad ← canonicalRatchetAad s field draws.recordId.val index
        wrapRatchetField W key plaintext aad draws.recordId.val field.expectedPlaintextBytes
          (draws.iv field index)) = Except.ok e := by
    intro field index plaintext hplain
    refine ⟨_, except_bind_eq_ok.mpr ⟨_, canonicalRatchetAad_eq_ok.mpr
      ⟨⟨hclear, hedge⟩, draws.recordId.property, rfl⟩, wrapRatchetField_eq_ok.mpr
      ⟨hlength field index plaintext hplain, draws.recordId.property, rfl⟩⟩⟩
  obtain ⟨w, hw⟩ := replaceSecrets_isOk hone
  refine ⟨w, ?_⟩
  simp only [wrapRatchetSession, hvalid, hsecrets, ok_bind]
  exact hw

/-- **Rows at rest.** Let `rows` be the rows wrapped under a key, no two of them with one random
record id. A row whose public fields and secrets pass the checks is wrapped, and what was
wrapped unwraps to it. A row that is none of `rows` is rejected, whatever of them it is put
together from, unless AES-GCM accepts something that no row was sealed with. For the associated
data determines the public fields, the field, its index and the record id. -/
theorem ratchet_row_wrapping (hW : WebCrypto.GcmLaws W) {rows : Set RatchetSession}
    (hrows : ∀ r ∈ rows, ∃ s draws, wrapRatchetSession W s key draws = .ok r)
    (hfresh : ∀ r ∈ rows, ∀ r' ∈ rows, slice r.rootKey 5 RATCHET_RECORD_ID_BYTES =
      slice r'.rootKey 5 RATCHET_RECORD_ID_BYTES → r = r') :
    (∀ s draws, validateMetadata s = .ok () → requireSecrets s = .ok () →
      ∃ w, wrapRatchetSession W s key draws = .ok w) ∧
    (∀ s draws w, wrapRatchetSession W s key draws = .ok w →
      unwrapRatchetSession W w key = .ok s) ∧
    (∀ w, w ∉ rows → (∀ q, Asks key w q → q.Succeeds W → ∃ r ∈ rows, Asks key r q) →
      ∃ e, unwrapRatchetSession W w key = .error e) ∧
    ∀ s s' field field' recordId recordId' index index' aad, index < 2 ^ 32 → index' < 2 ^ 32 →
      canonicalRatchetAad s field recordId index = .ok aad →
      canonicalRatchetAad s' field' recordId' index' = .ok aad →
      s.clear = s'.clear ∧ field = field' ∧ recordId = recordId' ∧ index = index' := by
  refine ⟨fun s draws hvalid hsecrets => wrap_of_valid hvalid hsecrets,
    fun s draws w h => (written_of_wrap h).unwrap hW, ?_, ?_⟩
  · intro w hw hideal
    cases hrun : unwrapRatchetSession W w key with
    | error e => exact ⟨e, rfl⟩
    | ok s =>
      have hwritten : ∀ r ∈ rows, ∃ s id, Written W key s r id := by
        intro r hr
        obtain ⟨s, draws, h⟩ := hrows r hr
        exact ⟨s, _, written_of_wrap h⟩
      exact absurd (mem_of_unwrap hwritten hfresh hideal hrun) hw
  · intro s s' field field' recordId recordId' index index' aad hindex hindex' h h'
    obtain ⟨⟨hclear, -⟩, hid, haad⟩ := canonicalRatchetAad_eq_ok.mp h
    obtain ⟨⟨hclear', -⟩, hid', haad'⟩ := canonicalRatchetAad_eq_ok.mp h'
    rw [aadBytes_eq] at haad haad'
    exact clearAad_inj hclear hclear' hid hid' hindex hindex' (haad.trans haad'.symm)

/-- A row with one optional secret. -/
def sampleRow : RatchetSession where
  rootSuite := .hybridMlkem768
  roomId := JsString.ofString "room"
  peerPublicKey := List.replicate 64 0x61
  peerId := JsString.ofString "peer"
  rootKey := List.replicate 32 1
  sendingChainKey := none
  receivingChainKey := none
  dhSelfPub := List.replicate 32 2
  dhSelfSec := List.replicate 32 3
  dhRemotePub := none
  Ns := 0
  Nr := 0
  PN := 0
  skippedMessageKeys := []
  edgeCryptoState := none
  updatedAt := 7

/-- Draws that differ in one number. -/
def sampleDraws (b : UInt8) : Draws where
  recordId := ⟨List.replicate 16 b, rfl⟩
  iv _ _ := ⟨List.replicate 12 b, rfl⟩

/-- The row wrapped under such draws. -/
def sampleWrapped (b : UInt8) : RatchetSession :=
  (wrapRatchetSession .transparent sampleRow [] (sampleDraws b)).toOption.getD sampleRow

theorem sampleWrapped_ok (b : UInt8) (h : b = 0 ∨ b = 1) :
    wrapRatchetSession .transparent sampleRow [] (sampleDraws b) = .ok (sampleWrapped b) := by
  rcases h with rfl | rfl
  · decide +kernel
  · decide +kernel

/-- Two writes of one row, and the row of the first with a secret of the second. -/
theorem ratchet_row_wrapping_sample :
    unwrapRatchetSession .transparent (sampleWrapped 0) [] = .ok sampleRow ∧
    ∃ e, unwrapRatchetSession .transparent
      { sampleWrapped 0 with dhSelfSec := (sampleWrapped 1).dhSelfSec } [] = .error e := by
  obtain ⟨-, hround, hreject, -⟩ := @ratchet_row_wrapping .transparent []
    WebCrypto.transparent_gcmLaws { w | w = sampleWrapped 0 ∨ w = sampleWrapped 1 }
    (by
      rintro r (rfl | rfl)
      · exact ⟨sampleRow, sampleDraws 0, sampleWrapped_ok 0 (.inl rfl)⟩
      · exact ⟨sampleRow, sampleDraws 1, sampleWrapped_ok 1 (.inr rfl)⟩)
    (by
      rintro r (rfl | rfl) r' (rfl | rfl) h
      · rfl
      · exact absurd h (by decide +kernel)
      · exact absurd h (by decide +kernel)
      · rfl)
  refine ⟨hround _ _ _ (sampleWrapped_ok 0 (.inl rfl)), hreject _ ?_ ?_⟩
  · rintro (h | h)
    · exact absurd h (by decide +kernel)
    · exact absurd h (by decide +kernel)
  · rintro q ⟨field, index, e, he, rfl⟩ hsucceeds
    cases field with
    | rootKey =>
      cases index with
      | zero =>
        cases he
        exact ⟨sampleWrapped 0, .inl rfl, .rootKey, 0, _, rfl, rfl⟩
      | succ n => cases he
    | dhSelfSecret =>
      cases index with
      | zero =>
        cases he
        exact absurd hsucceeds (by unfold WebCrypto.Query.Succeeds; decide +kernel)
      | succ n => cases he
    | skippedMessageKey => cases he
    | _ =>
      cases index with
      | zero => cases he
      | succ n => cases he

end RatchetWrap

end P2Party
