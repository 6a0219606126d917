import P2Party.Persistence.RatchetWrapBinding

/-!
# The rollback guard

`RatchetRollbackGuard` keeps, for each edge, the stamp and a digest of the last row it has
accepted. It refuses a row with an older stamp, and another row with the same stamp.

- `ratchetWorkerKey`, and `ratchetWorkerKey_inj`: the edges under which the maps are kept;
- `ratchetEnvelopeFingerprint`, and `fingerprintBytes_inj`: what is digested is the whole row;
- `acceptFingerprint`: the guard on one edge.
-/

namespace P2Party

open Base

namespace RatchetWrap

variable {W : WebCrypto} {s t w : RatchetSession} {key recordId recordId' : Bytes}

/-! ## Edges -/

/-- `ratchetWorkerKey` (db.worker.ts:1773-1777), which is `rollbackEdgeKey` too. -/
def ratchetWorkerKey (roomId peerPublicKey : JsString) : JsString :=
  JsString.decimal roomId.length ++ 0x3a :: (roomId ++
    (JsString.decimal peerPublicKey.length ++ 0x3a :: peerPublicKey))

/-- A key names one edge. -/
theorem ratchetWorkerKey_inj {r p r' p' : JsString}
    (h : ratchetWorkerKey r p = ratchetWorkerKey r' p') : r = r' ∧ p = p' := by
  obtain ⟨hlength, h⟩ :=
    append_sep_inj (JsString.colon_notMem_decimal _) (JsString.colon_notMem_decimal _) h
  obtain ⟨hroom, h⟩ := List.append_inj h (JsString.decimal_injective hlength)
  obtain ⟨-, hpeer⟩ :=
    append_sep_inj (JsString.colon_notMem_decimal _) (JsString.colon_notMem_decimal _) h
  exact ⟨hroom, hpeer⟩

/-! ## Fingerprints -/

/-- An envelope carries the record id of its row (ratchetWrap.ts:399-415). -/
def requireRecordId (recordId envelope : Bytes) (expectedPlaintextBytes : Option Nat) :
    Except JsError Unit := do
  let id ← ratchetEnvelopeRecordId envelope expectedPlaintextBytes
  demand (id = recordId) (.error "Ratchet wrap record ID mismatch")

/-- The loop over the envelopes of 32-byte secrets. -/
def requireRecordIds (recordId : Bytes) : List Bytes → Except JsError Unit
  | [] => .ok ()
  | envelope :: rest => do
    requireRecordId recordId envelope (some 32)
    requireRecordIds recordId rest

/-- The check on the checkpoint, when there is one. -/
def requireEdgeRecordId (recordId : Bytes) : Option Bytes → Except JsError Unit
  | none => .ok ()
  | some envelope => requireRecordId recordId envelope none

/-- The envelopes as they are digested (ratchetWrap.ts:418-439); an absent one is empty. -/
def envelopeBytes (s : RatchetSession) : Bytes :=
  lengthPrefixed s.rootKey ++ (lengthPrefixed (s.sendingChainKey.getD []) ++
    (lengthPrefixed (s.receivingChainKey.getD []) ++ (lengthPrefixed s.dhSelfSec ++
    ((s.skippedMessageKeys.flatMap fun e => lengthPrefixed e.messageKey) ++
    lengthPrefixed (s.edgeCryptoState.getD [])))))

/-- `ratchetEnvelopeFingerprint` (ratchetWrap.ts:392-446). -/
def ratchetEnvelopeFingerprint (W : WebCrypto) (s : RatchetSession) : Except JsError Bytes := do
  validateMetadata s
  let recordId ← ratchetEnvelopeRecordId s.rootKey (some 32)
  requireRecordIds recordId (s.sendingChainKey.toList ++ (s.receivingChainKey.toList ++
    (s.dhSelfSec :: s.skippedMessageKeys.map SkippedMessageKey.messageKey)))
  requireEdgeRecordId recordId s.edgeCryptoState
  let aad ← canonicalRatchetAad s .rootKey recordId 0
  return W.sha256 (aad ++ envelopeBytes s)

/-- A row with acceptable public fields and envelopes of the right lengths and heads, all under
one record id. -/
structure Enveloped (s : RatchetSession) (recordId : Bytes) : Prop where
  clear : ClearOk s.clear
  edge : EdgeOk s.edgeCryptoState
  id : recordId.length = RATCHET_RECORD_ID_BYTES
  envelope : ∀ field index e, s.secret field index = some e →
    EnvelopeLength field.expectedPlaintextBytes e.length ∧ EnvelopeOk e recordId

theorem requireRecordId_eq_ok {e : Bytes} {expected : Option Nat} {u : Unit} :
    requireRecordId recordId e expected = .ok u ↔
      EnvelopeLength expected e.length ∧ EnvelopeOk e recordId := by
  simp only [requireRecordId, except_bind_eq_ok, demand_eq_ok, ratchetEnvelopeRecordId_eq_ok]
  constructor
  · rintro ⟨id, h, rfl⟩
    exact h
  · intro h
    exact ⟨recordId, h, rfl⟩

theorem requireRecordIds_eq_ok {es : List Bytes} {u : Unit} :
    requireRecordIds recordId es = .ok u ↔
      ∀ e ∈ es, EnvelopeLength (some 32) e.length ∧ EnvelopeOk e recordId := by
  induction es with
  | nil => simp [requireRecordIds]
  | cons e es ih =>
    simp only [requireRecordIds, except_bind_eq_ok, requireRecordId_eq_ok, exists_const, ih,
      List.forall_mem_cons]

theorem requireEdgeRecordId_eq_ok {edge : Option Bytes} {u : Unit} :
    requireEdgeRecordId recordId edge = .ok u ↔
      ∀ e ∈ edge, EnvelopeLength none e.length ∧ EnvelopeOk e recordId := by
  cases edge with
  | none => simp [requireEdgeRecordId]
  | some e => simp [requireEdgeRecordId, requireRecordId_eq_ok]

theorem ratchetEnvelopeFingerprint_eq_ok {fingerprint : Bytes} :
    ratchetEnvelopeFingerprint W s = .ok fingerprint ↔ ∃ recordId, Enveloped s recordId ∧
      W.sha256 (aadBytes s .rootKey recordId 0 ++ envelopeBytes s) = fingerprint := by
  simp only [ratchetEnvelopeFingerprint, except_bind_eq_ok, validateMetadata_eq_ok, exists_const,
    ratchetEnvelopeRecordId_eq_ok, requireRecordIds_eq_ok, requireEdgeRecordId_eq_ok,
    canonicalRatchetAad_eq_ok, except_pure_eq_ok, List.forall_mem_append, Option.mem_toList,
    List.forall_mem_cons, List.forall_mem_map]
  constructor
  · rintro ⟨⟨hclear, hedge⟩, recordId, hroot, ⟨hsending, hreceiving, hself, hskipped⟩, hcheckpoint,
      aad, ⟨-, hid, rfl⟩, rfl⟩
    exact ⟨recordId, ⟨hclear, hedge, hid, forall_secret_iff.mpr
      ⟨hroot, hsending, hreceiving, hself, hskipped, hcheckpoint⟩⟩, rfl⟩
  · rintro ⟨recordId, h, rfl⟩
    obtain ⟨hroot, hsending, hreceiving, hself, hskipped, hcheckpoint⟩ :=
      forall_secret_iff.mp h.envelope
    exact ⟨⟨h.clear, h.edge⟩, recordId, hroot, ⟨hsending, hreceiving, hself, hskipped⟩, hcheckpoint,
      _, ⟨⟨h.clear, h.edge⟩, h.id, rfl⟩, rfl⟩

theorem EnvelopeLength.lt {expected : Option Nat} {n : Nat} (h : EnvelopeLength expected n)
    (hexpected : expected = none ∨ expected = some 32) : n < 256 ^ 4 := by
  rcases hexpected with rfl | rfl
  · exact Nat.lt_of_le_of_lt h.2 (by decide)
  · rw [show n = 81 from h]
    decide

/-- Each envelope is short enough for its length to be written in four bytes. -/
theorem Enveloped.lt (h : Enveloped s recordId) {field : RatchetSecretField} {index : Nat} {e : Bytes}
    (he : s.secret field index = some e) : e.length < 256 ^ 4 := by
  refine (h.envelope field index e he).1.lt ?_
  cases field with
  | edgeCryptoState => exact .inl rfl
  | _ => exact .inr rfl

/-- An optional envelope is read off the front; whether there is one is known. -/
theorem getD_append_inj {a b : Option Bytes} {u v : Bytes} (ha : ∀ e ∈ a, e.length < 256 ^ 4)
    (hb : ∀ e ∈ b, e.length < 256 ^ 4) (hsome : a.isSome = b.isSome)
    (h : lengthPrefixed (a.getD []) ++ u = lengthPrefixed (b.getD []) ++ v) : a = b ∧ u = v := by
  cases a with
  | none =>
    cases b with
    | none => exact ⟨rfl, List.append_cancel_left h⟩
    | some e => cases hsome
  | some d =>
    cases b with
    | none => cases hsome
    | some e =>
      obtain ⟨rfl, hrest⟩ := lengthPrefixed_append_inj (ha d rfl) (hb e rfl) h
      exact ⟨rfl, hrest⟩

/-- The message keys are read off the front once their number is known. -/
theorem messageKeys_append_inj {es es' : List SkippedMessageKey} {u v : Bytes}
    (hes : ∀ i key, messageKeyAt es i = some key → key.length < 256 ^ 4)
    (hes' : ∀ i key, messageKeyAt es' i = some key → key.length < 256 ^ 4)
    (hlength : es.length = es'.length)
    (h : (es.flatMap fun e => lengthPrefixed e.messageKey) ++ u =
      (es'.flatMap fun e => lengthPrefixed e.messageKey) ++ v) :
    (∀ i, messageKeyAt es i = messageKeyAt es' i) ∧ u = v := by
  induction es generalizing es' with
  | nil =>
    obtain rfl := List.length_eq_zero_iff.mp hlength.symm
    exact ⟨fun _ => rfl, h⟩
  | cons e es ih =>
    cases es' with
    | nil => cases hlength
    | cons e' es' =>
      simp only [List.flatMap_cons, List.append_assoc] at h
      obtain ⟨hkey, h⟩ := lengthPrefixed_append_inj (hes 0 _ rfl) (hes' 0 _ rfl) h
      obtain ⟨hrest, htail⟩ := ih (fun i key hi => hes (i + 1) key hi)
        (fun i key hi => hes' (i + 1) key hi) (Nat.succ.inj hlength) h
      refine ⟨fun i => ?_, htail⟩
      cases i with
      | zero => exact congrArg some hkey
      | succ i => exact hrest i

/-- **What is digested is the whole row.** -/
theorem fingerprintBytes_inj (hs : Enveloped s recordId) (ht : Enveloped t recordId')
    (h : aadBytes s .rootKey recordId 0 ++ envelopeBytes s =
      aadBytes t .rootKey recordId' 0 ++ envelopeBytes t) : s = t := by
  rw [aadBytes_eq, aadBytes_eq] at h
  obtain ⟨⟨hclear, -⟩, h⟩ := clearAad_append_inj hs.clear ht.clear hs.id ht.id (by decide) (by decide) h
  obtain ⟨-, -, -, -, -, -, -, -, -, -, hskipped, hsending, hreceiving, hedge⟩ :=
    ClearFields.mk.inj hclear
  have hlength : s.skippedMessageKeys.length = t.skippedMessageKeys.length := by
    simpa using congrArg List.length hskipped
  -- the lengths of all envelopes, by field
  have short : ∀ {r : RatchetSession} {id : Bytes}, Enveloped r id → ∀ field index e,
      r.secret field index = some e → e.length < 256 ^ 4 := fun h _ _ _ he => h.lt he
  obtain ⟨hroot, h⟩ := lengthPrefixed_append_inj (short hs .rootKey 0 _ rfl) (short ht .rootKey 0 _ rfl) h
  obtain ⟨hsendingEq, h⟩ := getD_append_inj (short hs .sendingChainKey 0) (short ht .sendingChainKey 0)
    hsending h
  obtain ⟨hreceivingEq, h⟩ := getD_append_inj (short hs .receivingChainKey 0)
    (short ht .receivingChainKey 0) hreceiving h
  obtain ⟨hself, h⟩ := lengthPrefixed_append_inj (short hs .dhSelfSecret 0 _ rfl)
    (short ht .dhSelfSecret 0 _ rfl) h
  obtain ⟨hkeys, h⟩ := messageKeys_append_inj (short hs .skippedMessageKey)
    (short ht .skippedMessageKey) hlength h
  obtain ⟨hedgeEq, -⟩ := getD_append_inj (short hs .edgeCryptoState 0) (short ht .edgeCryptoState 0) hedge
    (congrArg (· ++ ([] : Bytes)) h)
  refine eq_of_clear_secret hclear fun field index => ?_
  cases field with
  | skippedMessageKey => exact hkeys index
  | rootKey =>
    cases index with
    | zero => exact congrArg some hroot
    | succ n => rfl
  | sendingChainKey =>
    cases index with
    | zero => exact hsendingEq
    | succ n => rfl
  | receivingChainKey =>
    cases index with
    | zero => exact hreceivingEq
    | succ n => rfl
  | dhSelfSecret =>
    cases index with
    | zero => exact congrArg some hself
    | succ n => rfl
  | edgeCryptoState =>
    cases index with
    | zero => exact hedgeEq
    | succ n => rfl

/-- A written row has a fingerprint. -/
theorem Written.enveloped (h : Written W key s w recordId) : Enveloped w recordId :=
  ⟨h.clear, h.edgeOk, h.id, fun _ _ _ he => h.stored he⟩

/-! ## The guard -/

/-- The watermark of one edge. -/
structure Watermark where
  updatedAt : Nat
  fingerprint : Bytes
deriving DecidableEq

/-- `#acceptFingerprint` (ratchetWrap.ts:474-498) on the watermark of the row's edge. -/
def acceptFingerprint (previous : Option Watermark) (s : RatchetSession) (fingerprint : Bytes) :
    Except JsError Watermark :=
  match previous with
  | none => .ok ⟨s.updatedAt, fingerprint⟩
  | some watermark => do
    demand (¬ s.updatedAt < watermark.updatedAt) (.error "Ratchet persistence rollback detected")
    demand (¬ (s.updatedAt = watermark.updatedAt ∧ fingerprint ≠ watermark.fingerprint))
      (.error "Ratchet persistence equivocation detected")
    return if s.updatedAt > watermark.updatedAt then ⟨s.updatedAt, fingerprint⟩ else watermark

/-- `acceptAuthenticated`, and `rememberTrustedWrite` (ratchetWrap.ts:500-515), which are the same
code. -/
def acceptRow (W : WebCrypto) (previous : Option Watermark) (s : RatchetSession) :
    Except JsError Watermark := do
  let fingerprint ← ratchetEnvelopeFingerprint W s
  acceptFingerprint previous s fingerprint

/-- A row and its watermark. -/
def Marks (W : WebCrypto) (m : Watermark) (s : RatchetSession) : Prop :=
  m.updatedAt = s.updatedAt ∧ ratchetEnvelopeFingerprint W s = .ok m.fingerprint

/-- What the guard accepts, and what it keeps. -/
theorem acceptFingerprint_eq_ok {previous : Option Watermark} {fingerprint : Bytes} {m : Watermark} :
    acceptFingerprint previous s fingerprint = .ok m ↔ m = ⟨s.updatedAt, fingerprint⟩ ∧
      ∀ p ∈ previous, p.updatedAt ≤ s.updatedAt ∧
        (p.updatedAt = s.updatedAt → p.fingerprint = fingerprint) := by
  cases previous with
  | none =>
    simp only [acceptFingerprint, Except.ok.injEq]
    exact ⟨fun h => ⟨h.symm, fun _ hp => nomatch hp⟩, fun h => h.1.symm⟩
  | some p =>
    simp only [acceptFingerprint, except_bind_eq_ok, demand_eq_ok, exists_const, except_pure_eq_ok,
      Nat.not_lt]
    constructor
    · rintro ⟨hle, hsame, rfl⟩
      have hfingerprint : s.updatedAt = p.updatedAt → p.fingerprint = fingerprint := by
        intro hstamp
        by_contra hne
        exact hsame ⟨hstamp, fun h => hne h.symm⟩
      constructor
      · by_cases hgt : s.updatedAt > p.updatedAt
        · rw [if_pos hgt]
        · have hstamp : s.updatedAt = p.updatedAt := by omega
          rw [if_neg hgt, hstamp, ← hfingerprint hstamp]
      · rintro q ⟨⟩
        exact ⟨hle, fun hstamp => hfingerprint hstamp.symm⟩
    · rintro ⟨rfl, h⟩
      obtain ⟨hle, hfingerprint⟩ := h p rfl
      refine ⟨hle, fun hboth => hboth.2 (hfingerprint hboth.1.symm).symm, ?_⟩
      by_cases hgt : s.updatedAt > p.updatedAt
      · rw [if_pos hgt]
      · have hstamp : s.updatedAt = p.updatedAt := by omega
        rw [if_neg hgt, hstamp, ← hfingerprint hstamp.symm]

/-- The row accepted becomes the watermark; it is no older than the row before it and, unless two
different rows have one digest, it is that row if it has the same stamp. -/
theorem acceptRow_eq_ok {previous : Option Watermark} {m : Watermark}
    (h : acceptRow W previous s = .ok m) : Marks W m s ∧
      ∀ p ∈ previous, p.updatedAt ≤ s.updatedAt ∧
        (p.updatedAt = s.updatedAt → p.fingerprint = m.fingerprint) := by
  obtain ⟨fingerprint, hfingerprint, haccept⟩ := except_bind_eq_ok.mp h
  obtain ⟨rfl, hprevious⟩ := acceptFingerprint_eq_ok.mp haccept
  exact ⟨⟨rfl, hfingerprint⟩, hprevious⟩

/-- A row with a fingerprint is accepted after an older row, and after itself. -/
theorem acceptRow_isOk {previous : Option Watermark} (hs : Enveloped s recordId)
    (h : ∀ p ∈ previous, p.updatedAt < s.updatedAt ∨ Marks W p s) :
    ∃ m, acceptRow W previous s = .ok m := by
  have hfingerprint : ratchetEnvelopeFingerprint W s =
      .ok (W.sha256 (aadBytes s .rootKey recordId 0 ++ envelopeBytes s)) :=
    ratchetEnvelopeFingerprint_eq_ok.mpr ⟨recordId, hs, rfl⟩
  refine ⟨_, except_bind_eq_ok.mpr ⟨_, hfingerprint, acceptFingerprint_eq_ok.mpr ⟨rfl, ?_⟩⟩⟩
  intro p hp
  rcases h p hp with hlt | ⟨hstamp, hmark⟩
  · exact ⟨Nat.le_of_lt hlt, fun heq => absurd heq (Nat.ne_of_lt hlt)⟩
  · exact ⟨Nat.le_of_eq hstamp, fun _ => Except.ok.inj (hmark.symm.trans hfingerprint)⟩

/-- What is digested of a row under a record id. -/
def digested (s : RatchetSession) (recordId : Bytes) : Bytes :=
  aadBytes s .rootKey recordId 0 ++ envelopeBytes s

/-- Rows of one fingerprint are one row, or two inputs of SHA-256 collide. -/
theorem Marks.eq_or_collide {m m' : Watermark} (hs : Marks W m s) (ht : Marks W m' t)
    (h : m.fingerprint = m'.fingerprint) :
    s = t ∨ ∃ recordId recordId', W.Collide (digested s recordId) (digested t recordId') := by
  obtain ⟨recordId, hsEnv, hsDigest⟩ := ratchetEnvelopeFingerprint_eq_ok.mp hs.2
  obtain ⟨recordId', htEnv, htDigest⟩ := ratchetEnvelopeFingerprint_eq_ok.mp ht.2
  by_cases hbytes : digested s recordId = digested t recordId'
  · exact .inl (fingerprintBytes_inj hsEnv htEnv hbytes)
  · exact .inr ⟨recordId, recordId', hbytes, hsDigest.trans (h.trans htDigest.symm)⟩

end RatchetWrap

end P2Party
