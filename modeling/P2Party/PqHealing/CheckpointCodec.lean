import P2Party.Session.Run

/-!
# The checkpoint format is canonical

What `SparsePqHealingState.restore` accepts, read back field by field, and what
follows for the checkpoints of every reachable runtime.

- `readSized_spec`, `readPhase_spec`, `readOutbox_spec`, `readActiveKeys_spec`: a reader
  that returned has consumed the encoding of its result;
- `snapshot_restore`: the snapshot of a restored machine is the one it was restored from;
- `serialize_of_restore`: a checkpoint whose active keys stand in canonical order is
  written back byte for byte;
- `no_strict_initial`, `no_extension`: no strict initial part and no extension of a
  checkpoint is accepted;
- `Reachable`: the runtimes of an edge;
- `checkpoint_codec`: their checkpoints.
-/

namespace P2Party

open Base PqHealing PqControlFrame

namespace PqHealingRuntime

/-! ## What the readers consume -/

section Readers

variable {s s' : Bytes}

theorem take_spec {n : Nat} {v : Bytes} (h : (take n).run s = .ok v s') :
    s = v ++ s' ∧ v.length = n := getBytes_spec h

theorem readUint_spec {w n : Nat} (h : (readUint w).run s = .ok n s') :
    s = beBytes w n ++ s' ∧ n < 256 ^ w := getUint_spec h

theorem readSized_spec {maximum : Nat} {value : Option Bytes}
    (h : (readSized maximum).run s = .ok value s') :
    s = encodeSized value ++ s' ∧ ∀ v ∈ value, Fits maximum v := by
  unfold readSized at h
  obtain ⟨length, s₁, hlength, h⟩ := bind_eq_ok.mp h
  obtain ⟨hs, -⟩ := readUint_spec hlength
  by_cases hzero : length = 0
  · rw [if_pos hzero] at h
    cases h
    subst_vars
    exact ⟨rfl, nofun⟩
  · rw [if_neg hzero] at h
    obtain ⟨hle, h⟩ := ensure_bind_eq_ok.mp h
    obtain ⟨v, s₃, hv, h⟩ := bind_eq_ok.mp h
    obtain ⟨hs₁, hlen⟩ := take_spec hv
    cases h
    refine ⟨by rw [hs, hs₁, encodeSized, hlen, List.append_assoc], ?_⟩
    rintro _ ⟨⟩
    exact ⟨by omega, by omega⟩

theorem requiredSized_spec {maximum : Nat} {name : String} {v : Bytes}
    (h : (requiredSized maximum name).run s = .ok v s') :
    s = encodeSized (some v) ++ s' ∧ Fits maximum v := by
  unfold requiredSized at h
  obtain ⟨value, s₁, hvalue, h⟩ := bind_eq_ok.mp h
  cases value with
  | none => cases h
  | some v' =>
    cases h
    obtain ⟨hs, hfits⟩ := readSized_spec hvalue
    exact ⟨hs, hfits v rfl⟩

theorem readPhase_spec {suite : MlKemParameterSet} {phase : PqHealingSnapshotPhase}
    (h : (readPhase suite).run s = .ok phase s') :
    s = encodePhase phase ++ s' ∧ PhaseFits suite phase := by
  unfold readPhase at h
  obtain ⟨tag, s₁, htag, h⟩ := bind_eq_ok.mp h
  obtain ⟨hs, -⟩ := readUint_spec htag
  split at h
  case h_1 =>
    cases h
    exact ⟨hs, trivial⟩
  -- an OFFER alone, or an ADVANCE
  case h_4 | h_6 | h_8 =>
    obtain ⟨record, s₂, hr, h⟩ := bind_eq_ok.mp h
    obtain ⟨hs₁, hfits⟩ := requiredSized_spec hr
    cases h
    subst_vars
    exact ⟨by simp only [encodePhase, phaseTag, List.append_assoc], hfits⟩
  -- with a secret key, or a root
  case h_2 | h_3 | h_5 =>
    obtain ⟨record, s₂, hr, h⟩ := bind_eq_ok.mp h
    obtain ⟨secret, s₃, hsecret, h⟩ := bind_eq_ok.mp h
    obtain ⟨hs₁, hfits⟩ := requiredSized_spec hr
    obtain ⟨hs₂, hsecretFits⟩ := requiredSized_spec hsecret
    cases h
    subst_vars
    exact ⟨by simp only [encodePhase, phaseTag, List.append_assoc], hfits, hsecretFits⟩
  case h_7 =>
    obtain ⟨advance, s₂, ha, h⟩ := bind_eq_ok.mp h
    obtain ⟨secretKey, s₃, hsk, h⟩ := bind_eq_ok.mp h
    obtain ⟨nextRoot, s₄, hroot, h⟩ := bind_eq_ok.mp h
    obtain ⟨hs₁, hafits⟩ := requiredSized_spec ha
    obtain ⟨hs₂, hskfits⟩ := requiredSized_spec hsk
    obtain ⟨hs₃, hrootfits⟩ := requiredSized_spec hroot
    cases h
    subst_vars
    exact ⟨by simp only [encodePhase, phaseTag, List.append_assoc], hafits, hskfits, hrootfits⟩
  case h_9 => cases h

theorem readOutbox_spec {outbox : Option PqHealingOutbox} (h : readOutbox.run s = .ok outbox s') :
    s = encodeOutbox outbox ++ s' ∧ ∀ ob ∈ outbox, ob.frame.length = WIRE_CHUNK_FRAME_LEN ∧
      ob.attempts ≤ PQ_HEAL_MAX_RETRIES ∧ ob.nextRetryAt ≤ MAX_SAFE_INTEGER := by
  unfold readOutbox at h
  obtain ⟨tag, s₁, htag, h⟩ := bind_eq_ok.mp h
  obtain ⟨hs, -⟩ := readUint_spec htag
  by_cases hzero : tag = 0
  · rw [if_pos hzero] at h
    cases h
    subst_vars
    exact ⟨rfl, nofun⟩
  · rw [if_neg hzero] at h
    obtain ⟨hkind, h⟩ := ensure_bind_eq_ok.mp h
    obtain ⟨attempts, s₃, hattempts, h⟩ := bind_eq_ok.mp h
    obtain ⟨hs₁, -⟩ := readUint_spec hattempts
    obtain ⟨hbudget, h⟩ := ensure_bind_eq_ok.mp h
    obtain ⟨nextRetryAt, s₅, hretry, h⟩ := bind_eq_ok.mp h
    obtain ⟨hs₂, -⟩ := readUint_spec hretry
    obtain ⟨hsafe, h⟩ := ensure_bind_eq_ok.mp h
    obtain ⟨frame, s₇, hframe, h⟩ := bind_eq_ok.mp h
    obtain ⟨hs₃, -⟩ := requiredSized_spec hframe
    obtain ⟨_, hlen, h⟩ := attempt_bind_eq_ok.mp h
    cases h
    have htagged : outboxTag (if tag = 1 then .offer else .advance) = tag := by
      rcases hkind with rfl | rfl <;> rfl
    refine ⟨by simp only [hs, hs₁, hs₂, hs₃, encodeOutbox, htagged, List.append_assoc], ?_⟩
    rintro _ ⟨⟩
    exact ⟨demand_eq_ok.mp hlen, Nat.not_lt.mp hbudget, Nat.not_lt.mp hsafe⟩

/-- A row of the key table: the bytes of a name, the name they decode to, and its key. -/
structure KeyRow where
  bytes : Bytes
  name : String
  key : Bytes

/-- The bytes of a row. -/
def KeyRow.encode (row : KeyRow) : Bytes :=
  beBytes 2 row.bytes.length ++ (row.bytes ++ row.key)

/-- What is checked of a row. -/
structure KeyRow.Ok (row : KeyRow) : Prop where
  decodes : decodeText row.bytes = some row.name
  canonical : canonicalCacheKey row.name = true
  length : row.bytes.length ≤ MAX_CACHE_KEY_BYTES
  key : row.key.length = 32

theorem readActiveKey_spec {result result' : OrdMap String Bytes}
    (h : (readActiveKey result).run s = .ok result' s') :
    ∃ row : KeyRow, row.Ok ∧ s = row.encode ++ s' ∧
      result'.entries = result.entries ++ [(row.name, row.key)] := by
  unfold readActiveKey at h
  obtain ⟨keyLength, s₁, hlength, h⟩ := bind_eq_ok.mp h
  obtain ⟨hs, -⟩ := readUint_spec hlength
  obtain ⟨hbounds, h⟩ := ensure_bind_eq_ok.mp h
  obtain ⟨bytes, s₂, hbytes, h⟩ := bind_eq_ok.mp h
  obtain ⟨hs₁, hlen⟩ := take_spec hbytes
  cases hname : decodeText bytes with
  | none =>
    rw [hname] at h
    cases h
  | some name =>
    rw [hname] at h
    obtain ⟨hchecks, h⟩ := ensure_bind_eq_ok.mp h
    obtain ⟨key, s₃, hkey, h⟩ := bind_eq_ok.mp h
    obtain ⟨hs₂, hkeylen⟩ := take_spec hkey
    cases h
    simp only [not_or, Bool.not_eq_false, Bool.not_eq_true] at hbounds hchecks
    have hfresh : name ∉ result.keys := fun hmem =>
      absurd (OrdMap.has_iff.mpr hmem) (by rw [hchecks.2.2]; decide)
    refine ⟨⟨bytes, name, key⟩, ⟨hname, hchecks.2.1, hlen ▸ Nat.not_lt.mp hbounds.2, hkeylen⟩, ?_,
      OrdMap.set_entries_of_not_has key hfresh⟩
    rw [hs, hs₁, hs₂, KeyRow.encode, hlen]
    simp only [List.append_assoc]

theorem readActiveKeysLoop_spec {count : Nat} {result result' : OrdMap String Bytes}
    (h : (readActiveKeysLoop count result).run s = .ok result' s') :
    ∃ rows : List KeyRow, rows.length = count ∧ (∀ row ∈ rows, row.Ok) ∧
      s = rows.flatMap KeyRow.encode ++ s' ∧
      result'.entries = result.entries ++ rows.map fun row => (row.name, row.key) := by
  induction count generalizing s result with
  | zero =>
    cases h
    exact ⟨[], rfl, nofun, rfl, by simp⟩
  | succ count ih =>
    obtain ⟨result₁, s₁, hfirst, h⟩ := bind_eq_ok.mp h
    obtain ⟨row, hrow, hs, hentries⟩ := readActiveKey_spec hfirst
    obtain ⟨rows, hcount, hrows, hs₁, hentries₁⟩ := ih h
    refine ⟨row :: rows, by rw [List.length_cons, hcount], ?_, ?_, ?_⟩
    · intro r hr
      rcases List.mem_cons.mp hr with rfl | hr
      · exact hrow
      · exact hrows r hr
    · rw [hs, hs₁, List.flatMap_cons, List.append_assoc]
    · rw [hentries₁, hentries, List.map_cons, List.append_assoc]
      rfl

/-- The table of the active keys, in the order they were written. -/
def keyTable (rows : List KeyRow) : Bytes := beBytes 2 rows.length ++ rows.flatMap KeyRow.encode

theorem readActiveKeys_spec {keys : OrdMap String Bytes} (h : readActiveKeys.run s = .ok keys s') :
    ∃ rows : List KeyRow, rows.length ≤ MAX_ACTIVE_RECEIVE_KEYS ∧ (∀ row ∈ rows, row.Ok) ∧
      s = keyTable rows ++ s' ∧ keys.entries = rows.map fun row => (row.name, row.key) := by
  unfold readActiveKeys at h
  obtain ⟨count, s₁, hcount, h⟩ := bind_eq_ok.mp h
  obtain ⟨hs, -⟩ := readUint_spec hcount
  obtain ⟨hmax, h⟩ := ensure_bind_eq_ok.mp h
  obtain ⟨rows, hlen, hrows, hs₁, hentries⟩ := readActiveKeysLoop_spec h
  refine ⟨rows, hlen ▸ Nat.not_lt.mp hmax, hrows, ?_, ?_⟩
  · rw [hs, hs₁, keyTable, hlen, List.append_assoc]
  · rw [hentries]
    rfl

/-- The bytes of the fields before the active keys, from what was read. -/
def Checkpoint.edgeBytes (c : Checkpoint) (amInitiator : Bool) : Bytes :=
  EDGE_MAGIC ++ (beBytes 1 EDGE_FORMAT_VERSION ++ (beBytes 1 (suiteTag c.snapshot.parameterSet) ++
    (beBytes 1 (if amInitiator then 1 else 2) ++ (beBytes 1 0 ++ (beBytes 8 c.lastHealedAt ++
    (beBytes 8 c.messagesSinceHealing ++ (c.snapshot.binding ++ (c.snapshot.rootKey ++
    (beBytes 8 c.snapshot.epoch ++ (beBytes 8 c.snapshot.localCounter ++
    (beBytes 8 c.snapshot.remoteCounter ++ (beBytes 1 (turnTag c.snapshot.nextOfferer) ++
    (encodePhase c.snapshot.phase ++ (encodeSized c.snapshot.lastInboundOffer ++
    (encodeSized c.snapshot.lastInboundAdvance ++ (encodeOutbox c.outbox ++
    (encodeSized c.lastOfferFrame ++ (encodeSized c.lastAdvanceFrame ++
    encodeSized c.cachedAckFrame))))))))))))))))))

/-- What was checked of the fields of a checkpoint. -/
structure Checkpoint.Ok (c : Checkpoint) (options : RestoreSparsePqHealingOptions) : Prop where
  suite : c.snapshot.parameterSet = roomPqModeToParameterSet options.pqMode
  rootSuite : roomPqModeToRootSuite options.pqMode = options.rootSuite
  binding : c.snapshot.binding = options.binding
  lastHealedAt : c.lastHealedAt ≤ MAX_SAFE_INTEGER
  messages : c.messagesSinceHealing ≤ MAX_SAFE_INTEGER
  phase : PhaseFits c.snapshot.parameterSet c.snapshot.phase
  outbox : ∀ ob ∈ c.outbox, ob.frame.length = WIRE_CHUNK_FRAME_LEN ∧
    ob.attempts ≤ PQ_HEAL_MAX_RETRIES ∧ ob.nextRetryAt ≤ MAX_SAFE_INTEGER
  offerFrame : ∀ frame ∈ c.lastOfferFrame, frame.length = WIRE_CHUNK_FRAME_LEN
  advanceFrame : ∀ frame ∈ c.lastAdvanceFrame, frame.length = WIRE_CHUNK_FRAME_LEN
  ackFrame : ∀ frame ∈ c.cachedAckFrame, frame.length = WIRE_CHUNK_FRAME_LEN

theorem requireFrame_spec {frame : Option Bytes} {u : Unit} (h : requireFrame frame = .ok u) :
    ∀ f ∈ frame, f.length = WIRE_CHUNK_FRAME_LEN := by
  rintro f rfl
  exact demand_eq_ok.mp h

theorem tagSuite_spec {tag : Nat} {suite : MlKemParameterSet} (h : tagSuite tag = .ok suite) :
    suiteTag suite = tag := by
  unfold tagSuite at h
  split at h
  case isTrue htag =>
    cases h
    exact htag.symm
  split at h
  case isTrue htag =>
    cases h
    exact htag.symm
  split at h
  case isTrue htag =>
    cases h
    exact htag.symm
  cases h

theorem tagTurn_spec {tag : Nat} {turn : PqHealingTurn} (h : tagTurn tag = .ok turn) :
    turnTag turn = tag := by
  unfold tagTurn at h
  split at h
  case isTrue htag =>
    cases h
    exact htag.symm
  split at h
  case isTrue htag =>
    cases h
    exact htag.symm
  cases h

/-- A checkpoint that was read is the encoding of what was read, its key table apart. -/
theorem readCheckpoint_spec {options : RestoreSparsePqHealingOptions} {c : Checkpoint}
    (h : (readCheckpoint options).run s = .ok c s') :
    c.Ok options ∧ ∃ rows : List KeyRow, rows.length ≤ MAX_ACTIVE_RECEIVE_KEYS ∧
      (∀ row ∈ rows, row.Ok) ∧
      c.activeKeys.entries = rows.map (fun row => (row.name, row.key)) ∧
      s = c.edgeBytes options.amInitiator ++ (keyTable rows ++ s') := by
  unfold readCheckpoint at h
  obtain ⟨magic, s₁, hmagic, h⟩ := bind_eq_ok.mp h
  obtain ⟨hs, -⟩ := take_spec hmagic
  obtain ⟨hmagicEq, h⟩ := ensure_bind_eq_ok.mp h
  obtain ⟨version, s₂, hversion, h⟩ := bind_eq_ok.mp h
  obtain ⟨hs₁, -⟩ := readUint_spec hversion
  obtain ⟨hversionEq, h⟩ := ensure_bind_eq_ok.mp h
  obtain ⟨tag, s₃, htag, h⟩ := bind_eq_ok.mp h
  obtain ⟨hs₂, -⟩ := readUint_spec htag
  obtain ⟨parameterSet, hset, h⟩ := attempt_bind_eq_ok.mp h
  obtain ⟨hsuite, h⟩ := ensure_bind_eq_ok.mp h
  obtain ⟨hrootSuite, h⟩ := ensure_bind_eq_ok.mp h
  obtain ⟨direction, s₄, hdirection, h⟩ := bind_eq_ok.mp h
  obtain ⟨hs₃, -⟩ := readUint_spec hdirection
  obtain ⟨hdirectionEq, h⟩ := ensure_bind_eq_ok.mp h
  obtain ⟨reserved, s₅, hreserved, h⟩ := bind_eq_ok.mp h
  obtain ⟨hs₄, -⟩ := readUint_spec hreserved
  obtain ⟨hreservedEq, h⟩ := ensure_bind_eq_ok.mp h
  obtain ⟨lastHealedAt, s₆, hhealed, h⟩ := bind_eq_ok.mp h
  obtain ⟨hs₅, -⟩ := readUint_spec hhealed
  obtain ⟨messages, s₇, hmessages, h⟩ := bind_eq_ok.mp h
  obtain ⟨hs₆, -⟩ := readUint_spec hmessages
  obtain ⟨hsafe, h⟩ := ensure_bind_eq_ok.mp h
  obtain ⟨binding, s₈, hbinding, h⟩ := bind_eq_ok.mp h
  obtain ⟨hs₇, -⟩ := take_spec hbinding
  obtain ⟨hedge, h⟩ := ensure_bind_eq_ok.mp h
  obtain ⟨rootKey, s₉, hroot, h⟩ := bind_eq_ok.mp h
  obtain ⟨hs₈, -⟩ := take_spec hroot
  obtain ⟨epoch, s₁₀, hepoch, h⟩ := bind_eq_ok.mp h
  obtain ⟨hs₉, -⟩ := readUint_spec hepoch
  obtain ⟨localCounter, s₁₁, hlocal, h⟩ := bind_eq_ok.mp h
  obtain ⟨hs₁₀, -⟩ := readUint_spec hlocal
  obtain ⟨remoteCounter, s₁₂, hremote, h⟩ := bind_eq_ok.mp h
  obtain ⟨hs₁₁, -⟩ := readUint_spec hremote
  obtain ⟨turn, s₁₃, hturn, h⟩ := bind_eq_ok.mp h
  obtain ⟨hs₁₂, -⟩ := readUint_spec hturn
  obtain ⟨nextOfferer, hnext, h⟩ := attempt_bind_eq_ok.mp h
  obtain ⟨phase, s₁₄, hphase, h⟩ := bind_eq_ok.mp h
  obtain ⟨hs₁₃, hphasefits⟩ := readPhase_spec hphase
  obtain ⟨lastOffer, s₁₅, hlastOffer, h⟩ := bind_eq_ok.mp h
  obtain ⟨hs₁₄, -⟩ := readSized_spec hlastOffer
  obtain ⟨lastAdvance, s₁₆, hlastAdvance, h⟩ := bind_eq_ok.mp h
  obtain ⟨hs₁₅, -⟩ := readSized_spec hlastAdvance
  obtain ⟨outbox, s₁₇, houtbox, h⟩ := bind_eq_ok.mp h
  obtain ⟨hs₁₆, houtboxok⟩ := readOutbox_spec houtbox
  obtain ⟨offerFrame, s₁₈, hofferFrame, h⟩ := bind_eq_ok.mp h
  obtain ⟨hs₁₇, -⟩ := readSized_spec hofferFrame
  obtain ⟨advanceFrame, s₁₉, hadvanceFrame, h⟩ := bind_eq_ok.mp h
  obtain ⟨hs₁₈, -⟩ := readSized_spec hadvanceFrame
  obtain ⟨ackFrame, s₂₀, hackFrame, h⟩ := bind_eq_ok.mp h
  obtain ⟨hs₁₉, -⟩ := readSized_spec hackFrame
  obtain ⟨_, hofferLength, h⟩ := attempt_bind_eq_ok.mp h
  obtain ⟨_, hadvanceLength, h⟩ := attempt_bind_eq_ok.mp h
  obtain ⟨_, hackLength, h⟩ := attempt_bind_eq_ok.mp h
  obtain ⟨keys, s₂₁, hkeys, h⟩ := bind_eq_ok.mp h
  obtain ⟨rows, hcount, hrows, hs₂₀, hentries⟩ := readActiveKeys_spec hkeys
  cases h
  simp only [not_or, Nat.not_lt] at hsafe
  refine ⟨⟨hsuite, hrootSuite, hedge, hsafe.1, hsafe.2, hphasefits, houtboxok,
    requireFrame_spec hofferLength, requireFrame_spec hadvanceLength,
    requireFrame_spec hackLength⟩, rows, hcount, hrows, hentries, ?_⟩
  rw [hs, hs₁, hs₂, hs₃, hs₄, hs₅, hs₆, hs₇, hs₈, hs₉, hs₁₀, hs₁₁, hs₁₂, hs₁₃, hs₁₄, hs₁₅, hs₁₆, hs₁₇,
    hs₁₈, hs₁₉, hs₂₀, Checkpoint.edgeBytes, tagSuite_spec hset, tagTurn_spec hnext, hmagicEq,
    hversionEq, hdirectionEq, hreservedEq]
  simp only [List.append_assoc]

end Readers

end PqHealingRuntime

/-! ## The snapshot of a restored machine -/

namespace PqHealing

variable {suite : MlKemParameterSet} {binding : Bytes}

theorem restoreOffer_spec {record : Bytes} {name : String} {offer : DecodedOffer}
    (h : restoreOffer record name suite binding = .ok offer) :
    offer.bytes = record ∧ record.length = offerLength suite := by
  unfold restoreOffer at h
  obtain ⟨_, -, h⟩ := except_bind_eq_ok.mp h
  exact ⟨(decodeOffer_spec h).bytes_eq, (decodeOffer_spec h).length_eq⟩

theorem restoreAdvance_spec {record : Bytes} {name : String} {advance : DecodedAdvance}
    (h : restoreAdvance record name suite binding = .ok advance) :
    advance.bytes = record ∧ record.length = advanceLength suite := by
  unfold restoreAdvance at h
  obtain ⟨_, -, h⟩ := except_bind_eq_ok.mp h
  exact ⟨(decodeAdvance_spec h).bytes_eq, (decodeAdvance_spec h).length_eq⟩

/-- A decoded phase is stored as it was. -/
theorem snapshotPhase_decode {stored : PqHealingSnapshotPhase} {phase : InternalPhase}
    (h : decodeSnapshotPhase stored suite binding = .ok phase) : snapshotPhase phase = stored := by
  unfold decodeSnapshotPhase at h
  cases stored with
  | idle =>
    cases h
    rfl
  | outboundOfferPrepared offer secretKey =>
    obtain ⟨offer', hoffer, h⟩ := except_bind_eq_ok.mp h
    obtain ⟨_, -, h⟩ := except_bind_eq_ok.mp h
    cases h
    rw [snapshotPhase, (restoreOffer_spec hoffer).1]
  | outboundOfferDispatched offer secretKey =>
    obtain ⟨offer', hoffer, h⟩ := except_bind_eq_ok.mp h
    obtain ⟨_, -, h⟩ := except_bind_eq_ok.mp h
    cases h
    rw [snapshotPhase, (restoreOffer_spec hoffer).1]
  | inboundOffer offer =>
    obtain ⟨offer', hoffer, h⟩ := except_bind_eq_ok.mp h
    cases h
    rw [snapshotPhase, (restoreOffer_spec hoffer).1]
  | outboundAdvancePrepared advance nextRoot =>
    obtain ⟨advance', hadvance, h⟩ := except_bind_eq_ok.mp h
    obtain ⟨_, -, h⟩ := except_bind_eq_ok.mp h
    cases h
    rw [snapshotPhase, (restoreAdvance_spec hadvance).1]
  | outboundAdvanceAwaitingAck advance =>
    obtain ⟨advance', hadvance, h⟩ := except_bind_eq_ok.mp h
    cases h
    rw [snapshotPhase, (restoreAdvance_spec hadvance).1]
  | inboundAdvancePrepared advance secretKey nextRoot =>
    obtain ⟨advance', hadvance, h⟩ := except_bind_eq_ok.mp h
    obtain ⟨_, -, h⟩ := except_bind_eq_ok.mp h
    obtain ⟨_, -, h⟩ := except_bind_eq_ok.mp h
    cases h
    rw [snapshotPhase, (restoreAdvance_spec hadvance).1]
  | inboundAdvanceAwaitingAckDispatch advance =>
    obtain ⟨advance', hadvance, h⟩ := except_bind_eq_ok.mp h
    cases h
    rw [snapshotPhase, (restoreAdvance_spec hadvance).1]

/-- An optional record is read as it was, and is one that could be read. -/
theorem mapM_spec {α β : Type} {f : α → Except JsError β} {g : β → α} {P : α → Prop}
    (hf : ∀ a b, f a = .ok b → g b = a ∧ P a) {x : Option α} {y : Option β}
    (h : x.mapM f = .ok y) : y.map g = x ∧ ∀ a ∈ x, P a := by
  cases x with
  | none =>
    cases h
    exact ⟨rfl, nofun⟩
  | some a =>
    rw [Option.mapM_some] at h
    obtain ⟨b, hb, h⟩ := except_bind_eq_ok.mp h
    cases h
    obtain ⟨hg, hP⟩ := hf a b hb
    refine ⟨by rw [Option.map_some, hg], ?_⟩
    rintro _ ⟨⟩
    exact hP

/-- What restoring a machine establishes. -/
structure Restored (snapshot : PqHealingSnapshot) (suite : MlKemParameterSet) (m : Machine) :
    Prop where
  snapshot_eq : m.snapshot = snapshot
  suite_eq : m.suite = suite
  epoch : m.epoch ≤ MAX_U64
  localCounter : m.localCounter ≤ MAX_U64
  remoteCounter : m.remoteCounter ≤ MAX_U64
  lastOffer : ∀ v ∈ snapshot.lastInboundOffer, v.length = offerLength suite
  lastAdvance : ∀ v ∈ snapshot.lastInboundAdvance, v.length = advanceLength suite

/-- The snapshot of a restored machine is the one it was restored from. -/
theorem snapshot_restore {snapshot : PqHealingSnapshot} {m : Machine}
    (h : restore snapshot suite binding = .ok m) : Restored snapshot suite m := by
  unfold restore at h
  simp only [requireBytes, requireU64, demand_bind, ite_eq_iff, reduceCtorEq, and_false,
    or_false] at h
  obtain ⟨-, hsuite, -, hbinding, -, hepoch, hlocal, hremote, h⟩ := h
  obtain ⟨phase, hphase, h⟩ := except_bind_eq_ok.mp h
  obtain ⟨offer, hoffer, h⟩ := except_bind_eq_ok.mp h
  obtain ⟨advance, hadvance, h⟩ := except_bind_eq_ok.mp h
  obtain ⟨_, -, h⟩ := except_bind_eq_ok.mp h
  cases h
  obtain ⟨hoffers, hofferLength⟩ :=
    mapM_spec (g := DecodedOffer.bytes) (fun _ _ => restoreOffer_spec) hoffer
  obtain ⟨hadvances, hadvanceLength⟩ :=
    mapM_spec (g := DecodedAdvance.bytes) (fun _ _ => restoreAdvance_spec) hadvance
  refine ⟨?_, rfl, hepoch, hlocal, hremote, hofferLength, hadvanceLength⟩
  unfold Machine.snapshot
  simp only [snapshotPhase_decode hphase, hoffers, hadvances, ← hsuite, ← hbinding]

end PqHealing

/-! ## Writing back what was read -/

namespace PqHealingRuntime

variable {bytes : Bytes} {options : RestoreSparsePqHealingOptions} {r : SparsePqHealingState}

/-- What `restore` does with an accepted checkpoint. -/
theorem restore_spec (h : SparsePqHealingState.restore bytes options = .ok r) :
    ∃ c : Checkpoint, (readCheckpoint options).run bytes = .ok c [] ∧
      bytes.length ≤ MAX_EDGE_STATE_BYTES ∧
      Restored c.snapshot (roomPqModeToParameterSet options.pqMode) r.machine ∧
      r.pqMode = options.pqMode ∧ r.amInitiator = options.amInitiator ∧
      r.lastHealedAt = c.lastHealedAt ∧ r.messagesSinceHealing = c.messagesSinceHealing ∧
      r.outbox = c.outbox ∧ r.lastInboundOfferFrame = c.lastOfferFrame ∧
      r.lastInboundAdvanceFrame = c.lastAdvanceFrame ∧ r.cachedAckFrame = c.cachedAckFrame ∧
      r.activeReceiveKeys = c.activeKeys := by
  unfold SparsePqHealingState.restore at h
  obtain ⟨_, -, h⟩ := except_bind_eq_ok.mp h
  obtain ⟨_, hlen, h⟩ := except_bind_eq_ok.mp h
  cases hread : (readCheckpoint options).run bytes with
  | error e s =>
    rw [hread] at h
    cases h
  | ok c rest =>
    rw [hread] at h
    obtain ⟨_, hrest, h⟩ := except_bind_eq_ok.mp h
    have hrest' : rest = [] := demand_eq_ok.mp hrest
    obtain ⟨machine, hmachine, h⟩ := except_bind_eq_ok.mp h
    obtain ⟨fresh, hnew, h⟩ := except_bind_eq_ok.mp h
    obtain ⟨_, -, h⟩ := except_bind_eq_ok.mp h
    cases h
    have hmax := demand_eq_ok.mp hlen
    have hfresh : fresh.pqMode = options.pqMode ∧ fresh.amInitiator = options.amInitiator ∧
        fresh.lastHealedAt = c.lastHealedAt := by
      unfold SparsePqHealingState.new at hnew
      iterate 3 obtain ⟨_, -, hnew⟩ := except_bind_eq_ok.mp hnew
      obtain ⟨_, -, hnew⟩ := except_bind_eq_ok.mp hnew
      obtain ⟨_, -, hnew⟩ := except_bind_eq_ok.mp hnew
      cases hnew
      exact ⟨rfl, rfl, rfl⟩
    refine ⟨c, by rw [hrest'], ?_, snapshot_restore hmachine, hfresh.1, hfresh.2.1, hfresh.2.2, rfl,
      rfl, rfl, rfl, rfl, rfl⟩
    simp only [not_or, Nat.not_lt] at hmax
    exact hmax.2

/-- The active keys stand at the end of a checkpoint in canonical order: its rows are sorted
by name, and each name is written plainly. -/
def KeysInOrder (bytes : Bytes) (r : SparsePqHealingState) : Prop :=
  ∃ rows : List KeyRow, bytes = encodeEdge r ++ keyTable rows ∧
    r.activeReceiveKeys.entries = rows.map (fun row => (row.name, row.key)) ∧
    rows.Pairwise (fun a b => a.name ≤ b.name) ∧ ∀ row ∈ rows, row.bytes = textEncode row.name

/-- Sorting changes nothing then. -/
theorem KeysInOrder.bytes_eq (h : KeysInOrder bytes r) :
    bytes = encodeEdge r ++ encodeActiveKeys r.activeReceiveKeys := by
  obtain ⟨rows, hbytes, hentries, hsorted, hplain⟩ := h
  have hkept : sortedEntries r.activeReceiveKeys = rows.map fun row => (row.name, row.key) := by
    rw [sortedEntries, hentries]
    exact List.mergeSort_of_pairwise (List.pairwise_map.mpr (hsorted.imp fun hle => decide_eq_true hle))
  rw [hbytes, encodeActiveKeys, hkept, List.length_map, List.flatMap_map, keyTable,
    List.flatMap_congr fun row hrow => show row.encode = encodeActiveKey (row.name, row.key) from ?_]
  rw [KeyRow.encode, hplain row hrow]
  rfl

theorem KeyRow.Ok.textEncode_le {row : KeyRow} (h : row.Ok) :
    (textEncode row.name).length ≤ MAX_CACHE_KEY_BYTES := by
  have hdecodes := h.decodes
  unfold decodeText at hdecodes
  rw [textEncode_of_textDecode hdecodes]
  split
  · rw [List.length_drop]
    exact Nat.le_trans (Nat.sub_le _ _) h.length
  · exact h.length

/-- A checkpoint whose active keys stand in canonical order is written back byte for byte. -/
theorem serialize_of_restore (h : SparsePqHealingState.restore bytes options = .ok r)
    (hkeys : KeysInOrder bytes r) : r.serialize r.activeReceiveKeys = .ok bytes := by
  obtain ⟨c, hread, hmax, hmachine, hmode, hrole, hhealed, hmessages, houtbox, hoffer, hadvance,
    hack, hactive⟩ := restore_spec h
  obtain ⟨hok, rows, hcount, hrows, hentries, hbytes⟩ := readCheckpoint_spec hread
  have hsuite : r.suite = c.snapshot.parameterSet := by
    rw [SparsePqHealingState.suite, hmode, hok.suite]
  have hmsuite : r.machine.suite = c.snapshot.parameterSet := by rw [← hmachine.snapshot_eq]; rfl
  have hedge : encodeEdge r = c.edgeBytes options.amInitiator := by
    unfold encodeEdge Checkpoint.edgeBytes
    rw [← hmachine.snapshot_eq] at hsuite ⊢
    rw [hsuite, hrole, hhealed, hmessages, houtbox, hoffer, hadvance, hack]
    rfl
  have htable : keyTable rows = encodeActiveKeys r.activeReceiveKeys := by
    rw [hkeys.bytes_eq, ← hedge, List.append_nil] at hbytes
    exact (List.append_cancel_left hbytes).symm
  have hstorable : r.Storable := by
    have hlast : ∀ v ∈ r.machine.lastInboundOffer.map (·.bytes),
        Fits (offerLength r.machine.suite) v := by
      intro v hv
      have hlen := hmachine.lastOffer v (by rw [← hmachine.snapshot_eq]; exact hv)
      rw [hmsuite, hok.suite]
      exact fits_of_length (by cases roomPqModeToParameterSet options.pqMode <;> decide) hlen
    have hlast' : ∀ v ∈ r.machine.lastInboundAdvance.map (·.bytes),
        Fits (advanceLength r.machine.suite) v := by
      intro v hv
      have hlen := hmachine.lastAdvance v (by rw [← hmachine.snapshot_eq]; exact hv)
      rw [hmsuite, hok.suite]
      exact fits_of_length (by cases roomPqModeToParameterSet options.pqMode <;> decide) hlen
    refine ⟨hhealed ▸ hok.lastHealedAt, hmessages ▸ hok.messages, hmachine.epoch,
      hmachine.localCounter, hmachine.remoteCounter, ?_, hlast, hlast', houtbox ▸ hok.outbox,
      hoffer ▸ hok.offerFrame, hadvance ▸ hok.advanceFrame, hack ▸ hok.ackFrame⟩
    have hphase := hok.phase
    rw [← hmachine.snapshot_eq] at hphase
    exact hphase
  have hactiveok : ActiveKeysOk r.activeReceiveKeys := by
    intro entry hentry
    rw [hactive, hentries] at hentry
    obtain ⟨row, hrow, rfl⟩ := List.mem_map.mp hentry
    exact ⟨(hrows row hrow).canonical, (hrows row hrow).textEncode_le, (hrows row hrow).key⟩
  have hsize : r.activeReceiveKeys.size ≤ MAX_ACTIVE_RECEIVE_KEYS := by
    rw [OrdMap.size, hactive, hentries, List.length_map]
    exact hcount
  have hwhole : encodeEdge r ++ encodeActiveKeys r.activeReceiveKeys = bytes := by
    rw [← htable, hbytes, hedge, List.append_nil]
  have hrun := ((writes_edge hstorable).seq (writes_activeKeys hactiveok hsize)) [] (by
    rw [List.length_nil, Nat.zero_add, hwhole]
    exact hmax)
  rw [SparsePqHealingState.serialize, writeCheckpoint, hrun, List.nil_append, hwhole]

/-! ## Strict initial parts and extensions -/

theorem extends_readUint (w : Nat) : Extends (readUint w) := Extends.getUint _ w

theorem extends_take (n : Nat) : Extends (take n) := Extends.getBytes _ n

theorem extends_readSized (maximum : Nat) : Extends (readSized maximum) :=
  (extends_readUint 4).bind fun _ => Extends.ite (Extends.pure _)
    ((Extends.ensure _ _).bind fun _ => (extends_take _).bind fun _ => Extends.pure _)

theorem extends_requiredSized (maximum : Nat) (name : String) :
    Extends (requiredSized maximum name) := by
  refine (extends_readSized maximum).bind fun value => ?_
  cases value with
  | none => exact Extends.throw _
  | some value => exact Extends.pure _

theorem extends_readPhase (suite : MlKemParameterSet) : Extends (readPhase suite) := by
  refine (extends_readUint 1).bind fun tag => ?_
  have hone : ∀ maximum name, ∀ f : Bytes → PqHealingSnapshotPhase,
      Extends (requiredSized maximum name >>= fun v => pure (f v)) := fun maximum name f =>
    (extends_requiredSized maximum name).bind fun _ => Extends.pure _
  split
  · exact Extends.pure _
  · exact (extends_requiredSized _ _).bind fun _ => hone _ _ _
  · exact (extends_requiredSized _ _).bind fun _ => hone _ _ _
  · exact hone _ _ _
  · exact (extends_requiredSized _ _).bind fun _ => hone _ _ _
  · exact hone _ _ _
  · exact (extends_requiredSized _ _).bind fun _ =>
      (extends_requiredSized _ _).bind fun _ => hone _ _ _
  · exact hone _ _ _
  · exact Extends.throw _

theorem extends_readOutbox : Extends readOutbox := by
  refine (extends_readUint 1).bind fun tag => Extends.ite (Extends.pure _) ?_
  refine (Extends.ensure _ _).bind fun _ => (extends_readUint 1).bind fun _ => ?_
  refine (Extends.ensure _ _).bind fun _ => (extends_readUint 8).bind fun _ => ?_
  refine (Extends.ensure _ _).bind fun _ => (extends_requiredSized _ _).bind fun _ => ?_
  exact (Extends.attempt _).bind fun _ => Extends.pure _

theorem extends_readActiveKey (result : OrdMap String Bytes) : Extends (readActiveKey result) := by
  refine (extends_readUint 2).bind fun _ => (Extends.ensure _ _).bind fun _ => ?_
  refine (extends_take _).bind fun bytes => ?_
  cases decodeText bytes with
  | none => exact Extends.throw _
  | some key =>
    exact (Extends.ensure _ _).bind fun _ => (extends_take _).bind fun _ => Extends.pure _

theorem extends_readActiveKeysLoop (count : Nat) (result : OrdMap String Bytes) :
    Extends (readActiveKeysLoop count result) := by
  induction count generalizing result with
  | zero => exact Extends.pure _
  | succ count ih => exact (extends_readActiveKey result).bind fun result' => ih result'

theorem extends_readActiveKeys : Extends readActiveKeys :=
  (extends_readUint 2).bind fun count => (Extends.ensure _ _).bind fun _ =>
    extends_readActiveKeysLoop count _

theorem extends_readCheckpoint (options : RestoreSparsePqHealingOptions) :
    Extends (readCheckpoint options) := by
  refine (extends_take _).bind fun _ => (Extends.ensure _ _).bind fun _ => ?_
  refine (extends_readUint 1).bind fun _ => (Extends.ensure _ _).bind fun _ => ?_
  refine (extends_readUint 1).bind fun _ => (Extends.attempt _).bind fun suite => ?_
  refine (Extends.ensure _ _).bind fun _ => (Extends.ensure _ _).bind fun _ => ?_
  refine (extends_readUint 1).bind fun _ => (Extends.ensure _ _).bind fun _ => ?_
  refine (extends_readUint 1).bind fun _ => (Extends.ensure _ _).bind fun _ => ?_
  refine (extends_readUint 8).bind fun _ => (extends_readUint 8).bind fun _ => ?_
  refine (Extends.ensure _ _).bind fun _ => (extends_take _).bind fun _ => ?_
  refine (Extends.ensure _ _).bind fun _ => (extends_take _).bind fun _ => ?_
  refine (extends_readUint 8).bind fun _ => (extends_readUint 8).bind fun _ => ?_
  refine (extends_readUint 8).bind fun _ => (extends_readUint 1).bind fun _ => ?_
  refine (Extends.attempt _).bind fun _ => (extends_readPhase suite).bind fun _ => ?_
  refine (extends_readSized _).bind fun _ => (extends_readSized _).bind fun _ => ?_
  refine extends_readOutbox.bind fun _ => (extends_readSized _).bind fun _ => ?_
  refine (extends_readSized _).bind fun _ => (extends_readSized _).bind fun _ => ?_
  refine (Extends.attempt _).bind fun _ => (Extends.attempt _).bind fun _ => ?_
  exact (Extends.attempt _).bind fun _ => extends_readActiveKeys.bind fun _ => Extends.pure _

theorem suiteTag_injective : Function.Injective suiteTag := by
  intro a b h
  cases a <;> cases b <;> first | rfl | cases h

theorem roomPqModeToParameterSet_injective : Function.Injective roomPqModeToParameterSet := by
  intro a b h
  cases a <;> cases b <;> first | rfl | cases h

/-- A checkpoint is read under one set of options only: suite, role and binding stand in it. -/
theorem readCheckpoint_options {options' : RestoreSparsePqHealingOptions} {c c' : Checkpoint}
    {s s₁ s₂ : Bytes} (hbinding : options.binding.length = 32)
    (hbinding' : options'.binding.length = 32) (h : (readCheckpoint options).run s = .ok c s₁)
    (h' : (readCheckpoint options').run s = .ok c' s₂) : options = options' := by
  obtain ⟨hok, _, -, -, -, hs⟩ := readCheckpoint_spec h
  obtain ⟨hok', _, -, -, -, hs'⟩ := readCheckpoint_spec h'
  rw [hs] at hs'
  simp only [Checkpoint.edgeBytes, List.append_assoc, hok.binding, hok'.binding] at hs'
  obtain ⟨-, hs'⟩ := List.append_inj hs' rfl
  obtain ⟨-, hs'⟩ := List.append_inj hs' rfl
  obtain ⟨hsuite, hs'⟩ := List.append_inj hs' (by simp)
  obtain ⟨hrole, hs'⟩ := List.append_inj hs' (by simp)
  obtain ⟨-, hs'⟩ := List.append_inj hs' rfl
  obtain ⟨-, hs'⟩ := List.append_inj hs' (by simp)
  obtain ⟨-, hs'⟩ := List.append_inj hs' (by simp)
  obtain ⟨hedge, -⟩ := List.append_inj hs' (by rw [hbinding, hbinding'])
  have hset := suiteTag_injective (beBytes_inj (suiteTag_lt _) (suiteTag_lt _) hsuite)
  rw [hok.suite, hok'.suite] at hset
  have hmode := roomPqModeToParameterSet_injective hset
  have hinit : options.amInitiator = options'.amInitiator := by
    have htag := beBytes_inj (directionTag_lt _) (directionTag_lt _) hrole
    cases hi : options.amInitiator <;> cases hi' : options'.amInitiator <;> rw [hi, hi'] at htag <;>
      first | rfl | exact absurd htag (by decide)
  have hroot : options.rootSuite = options'.rootSuite := by
    rw [← hok.rootSuite, ← hok'.rootSuite, hmode]
  cases options
  cases options'
  subst hmode hinit hroot hedge
  rfl

/-- What `restore` asks of its options. -/
theorem restore_binding (h : SparsePqHealingState.restore bytes options = .ok r) :
    options.binding.length = 32 := by
  unfold SparsePqHealingState.restore at h
  obtain ⟨_, hbinding, -⟩ := except_bind_eq_ok.mp h
  exact demand_eq_ok.mp hbinding

section Strict

variable {keys : OrdMap String Bytes} {r' : SparsePqHealingState}

/-- No extension of a checkpoint is accepted, under any options. -/
theorem no_extension (h : r.WellFormed) (hok : ActiveKeysOk keys)
    (hsize : keys.size ≤ MAX_ACTIVE_RECEIVE_KEYS) {extra : Bytes} (hextra : extra ≠ []) :
    SparsePqHealingState.restore (encodeCheckpoint r keys ++ extra) options ≠ .ok r' := by
  intro haccepted
  obtain ⟨c, hread, -⟩ := restore_spec haccepted
  have hown := reads_checkpoint h hok hsize extra
  have hsame := readCheckpoint_options (restore_binding haccepted) h.binding_length hread hown
  rw [hsame, hown] at hread
  cases hread
  exact hextra rfl

/-- No strict initial part of a checkpoint is accepted, under any options. -/
theorem no_strict_initial (h : r.WellFormed) (hok : ActiveKeysOk keys)
    (hsize : keys.size ≤ MAX_ACTIVE_RECEIVE_KEYS) {part extra : Bytes} (hextra : extra ≠ [])
    (hpart : part ++ extra = encodeCheckpoint r keys) :
    SparsePqHealingState.restore part options ≠ .ok r' := by
  intro haccepted
  obtain ⟨c, hread, -⟩ := restore_spec haccepted
  have hown := reads_checkpoint h hok hsize []
  rw [List.append_nil, ← hpart] at hown
  have hmore := extends_readCheckpoint options part c [] extra hread
  have hsame := readCheckpoint_options (restore_binding haccepted) h.binding_length hmore hown
  rw [hsame, hown] at hmore
  cases hmore
  exact hextra rfl

end Strict

/-! ## The runtimes of an edge -/

/-- The runtimes the public methods reach, whether a call returns or throws. Clock
readings are those of `Date.now()`; the shared key map is changed by the receive path
and by retiring a key. -/
inductive Reachable (L : LibCrypto) : SparsePqHealingState → Prop
  | new {pqMode : RoomPqMode} {rootSuite : RatchetRootSuite} {binding rootKey : Bytes}
      {nextOfferer : PqHealingTurn} {amInitiator : Bool} {now : Instant}
      {r : SparsePqHealingState}
      (h : SparsePqHealingState.new pqMode rootSuite binding rootKey nextOfferer amInitiator
        now.val = .ok r) : Reachable L r
  | prepareHealingOffer {r : SparsePqHealingState} (h : Reachable L r) (coins : Bytes)
      (nonce : Nonce) (now : Instant) :
      Reachable L (finalState ((prepareHealingOffer L coins nonce now.val).run r))
  | acceptControlFrame {r : SparsePqHealingState} (h : Reachable L r) (frame coins : Bytes)
      (nonce : Nonce) (now : Instant) :
      Reachable L (finalState ((acceptControlFrame L frame coins nonce now.val).run r))
  | markPendingDispatched {r : SparsePqHealingState} (h : Reachable L r) (now : Instant) :
      Reachable L (finalState ((markPendingDispatched now.val).run r))
  | noteApplicationMessage {r : SparsePqHealingState} (h : Reachable L r) :
      Reachable L (finalState (noteApplicationMessage.run r))
  | receive {r : SparsePqHealingState} (h : Reachable L r) {state : RatchetState}
      {suite : RatchetRootSuite} (hstate : RatchetIn suite state) (frame merkleRoot : Bytes)
      (resolve : PqMessageKeyContextResolver) (secretKey : RandomBytes 32) :
      Reachable L { r with activeReceiveKeys :=
        (finalState ((decryptMessageChunk L frame merkleRoot (some resolve) secretKey.val).run
          ⟨state, r.activeReceiveKeys⟩)).cache }
  | retire {r : SparsePqHealingState} (h : Reachable L r) (name : String) :
      Reachable L { r with activeReceiveKeys := r.activeReceiveKeys.delete name }
  | clone {r r' : SparsePqHealingState} (h : Reachable L r) (hclone : r.clone = .ok r') :
      Reachable L r'
  | adopt {r next : SparsePqHealingState} (h : Reachable L r) (hnext : Reachable L next) :
      Reachable L (finalState ((adopt next).run r))
  | restore {r r' : SparsePqHealingState} {bytes : Bytes} (h : Reachable L r)
      (hserialize : r.serialize r.activeReceiveKeys = .ok bytes)
      (hrestore : SparsePqHealingState.restore bytes r.options = .ok r') : Reachable L r'

/-- What every reachable runtime satisfies. -/
def Sound (r : SparsePqHealingState) : Prop := r.WellFormed ∧ ActiveKeysOk r.activeReceiveKeys

section Steps

variable {L : LibCrypto}

theorem time_le_safe (now : Instant) : now.val ≤ MAX_SAFE_INTEGER :=
  Nat.le_trans now.property (by decide)

theorem sound_prepareHealingOffer (h : Sound r) (coins : Bytes) (nonce : Nonce)
    (now : Instant) :
    Sound (finalState ((prepareHealingOffer L coins nonce now.val).run r)) := by
  rcases @prepareHealingOfferWith_cases L r false coins nonce now.val with ⟨e, herr⟩ | ⟨pk, sk, hoffered⟩
  · rw [prepareHealingOffer, herr]
    exact h
  · rw [prepareHealingOffer_run h.1 hoffered]
    exact ⟨h.1.offerMade hoffered (time_le_safe now), h.2⟩

theorem sound_acceptControlFrame (h : Sound r) (frame coins : Bytes) (nonce : Nonce) (now : Nat) :
    Sound (finalState ((acceptControlFrame L frame coins nonce now).run r)) := by
  rcases @acceptControlFrame_cases L r h.1 frame coins nonce now with
    ⟨e, r', hrefused, herr⟩ | ⟨result, r', haccepted⟩
  · rw [herr]
    refine ⟨hrefused.wellFormed h.1, ?_⟩
    cases hrefused <;> exact h.2
  · have hrun := acceptControlFrame_run h.1 haccepted
    have hkeys := acceptControlFrame_keys h.1 hrun
    rw [hrun]
    exact ⟨haccepted.wellFormed h.1, hkeys ▸ h.2⟩

theorem sound_markPendingDispatched (h : Sound r) (now : Instant) :
    Sound (finalState ((markPendingDispatched now.val).run r)) := by
  rcases @markPendingDispatched_cases r now.val with ⟨e, herr⟩ | ⟨outbox, hob, hnow, hattempts⟩
  · rw [herr]
    exact h
  · rw [markPendingDispatched_run hob hnow hattempts]
    exact ⟨h.1.dispatched hob hattempts now.property, h.2⟩

theorem sound_noteApplicationMessage (h : Sound r) :
    Sound (finalState (noteApplicationMessage.run r)) := by
  rw [noteApplicationMessage_run]
  split
  case isTrue hlt => exact ⟨h.1.counted hlt, h.2⟩
  case isFalse => exact h

theorem sound_receive (h : Sound r) {state : RatchetState} {suite : RatchetRootSuite}
    (hstate : RatchetIn suite state) (frame merkleRoot : Bytes)
    (resolve : PqMessageKeyContextResolver) (secretKey : RandomBytes 32) :
    Sound { r with activeReceiveKeys :=
      (finalState ((decryptMessageChunk L frame merkleRoot (some resolve) secretKey.val).run
        ⟨state, r.activeReceiveKeys⟩)).cache } := by
  refine ⟨h.1.withKeys _, ?_⟩
  by_cases hroot : merkleRoot.length = HASH_BYTES
  · exact (Session.decryptMessageChunk_keeps hroot ⟨state, r.activeReceiveKeys⟩
      ⟨hstate, h.2⟩).2
  · unfold decryptMessageChunk
    rw [run_ensure_of_not hroot]
    exact h.2

theorem sound_adopt {next : SparsePqHealingState} (h : Sound r) (hnext : Sound next) :
    Sound (finalState ((adopt next).run r)) := by
  by_cases hsame : next.pqMode = r.pqMode ∧ next.rootSuite = r.rootSuite ∧
      next.amInitiator = r.amInitiator ∧ next.binding = r.binding
  · rw [adopt_run hsame.1 hsame.2.1 hsame.2.2.1 hsame.2.2.2]
    exact hnext
  · unfold adopt
    rw [run_get_bind, run_ensure_of_not hsame]
    exact h

end Steps

/-! ## Checkpoints of reachable runtimes -/

theorem perm_sortedKeys (keys : OrdMap String Bytes) :
    (sortedKeys keys).entries.Perm keys.entries := sortedEntries_perm keys

theorem ActiveKeysOk.sorted {keys : OrdMap String Bytes} (h : ActiveKeysOk keys) :
    ActiveKeysOk (sortedKeys keys) :=
  fun entry hentry => h entry ((perm_sortedKeys keys).mem_iff.mp hentry)

theorem pairwise_sortedEntries (keys : OrdMap String Bytes) :
    (sortedEntries keys).Pairwise fun a b => a.1 ≤ b.1 := by
  refine (List.pairwise_mergeSort ?_ ?_ keys.entries).imp of_decide_eq_true
  · intro a b c hab hbc
    exact decide_eq_true (String.le_trans (of_decide_eq_true hab) (of_decide_eq_true hbc))
  · intro a b
    simp only [Bool.or_eq_true, decide_eq_true_eq]
    exact String.le_total a.1 b.1

/-- What is written is in order. -/
theorem keysInOrder_encodeCheckpoint (r : SparsePqHealingState) : KeysInOrder (encodeCheckpoint r r.activeReceiveKeys)
    { r with activeReceiveKeys := sortedKeys r.activeReceiveKeys } := by
  refine ⟨(sortedEntries r.activeReceiveKeys).map fun entry => ⟨textEncode entry.1, entry.1, entry.2⟩, ?_, ?_, ?_, ?_⟩
  · unfold encodeCheckpoint encodeActiveKeys keyTable
    rw [List.length_map, List.flatMap_map]
    rfl
  · rw [List.map_map]
    exact (List.map_id _).symm
  · exact List.pairwise_map.mpr (pairwise_sortedEntries _)
  · intro row hrow
    obtain ⟨entry, -, rfl⟩ := List.mem_map.mp hrow
    rfl

variable {L : LibCrypto}

/-- A run of public calls keeps the runtime sound. -/
theorem Reachable.sound (h : Reachable L r) : Sound r := by
  induction h with
  | new h =>
    refine ⟨new_wellFormed h, ?_⟩
    rw [(Session.new_fields h).2]
    rintro _ ⟨⟩
  | prepareHealingOffer h coins nonce now ih => exact sound_prepareHealingOffer ih coins nonce now
  | acceptControlFrame h frame coins nonce now ih =>
    exact sound_acceptControlFrame ih frame coins nonce now.val
  | markPendingDispatched h now ih => exact sound_markPendingDispatched ih now
  | noteApplicationMessage h ih => exact sound_noteApplicationMessage ih
  | receive h hstate frame merkleRoot resolve secretKey ih =>
    exact sound_receive ih hstate frame merkleRoot resolve secretKey
  | retire h name ih =>
    refine ⟨ih.1.withKeys _, ?_⟩
    exact fun entry hentry => ih.2 entry (OrdMap.mem_delete_entries.mp hentry).1
  | clone h hclone ih =>
    rw [SparsePqHealingState.clone_eq ih.1] at hclone
    cases hclone
    exact ih
  | adopt h hnext ih ihnext => exact sound_adopt ih ihnext
  | @restore r r' bytes h hserialize hrestore ih =>
    by_cases hsize : r.activeReceiveKeys.size ≤ MAX_ACTIVE_RECEIVE_KEYS
    · rw [serialize_eq ih.1 ih.2 hsize] at hserialize
      cases hserialize
      rw [restore_encodeCheckpoint ih.1 ih.2 hsize] at hrestore
      cases hrestore
      exact ⟨ih.1.withKeys _, ActiveKeysOk.sorted ih.2⟩
    · rw [serialize_too_many_keys ih.1 (Nat.not_le.mp hsize)] at hserialize
      cases hserialize

/-- The checkpoint of a reachable runtime with at most 256 active keys: it is written
within its budget, restores to that runtime, is written again byte for byte, names
the edge, and neither a strict initial part nor an extension of it is accepted. Any
accepted bytes whose keys stand in canonical order are written back as they were. -/
theorem checkpoint_codec (h : Reachable L r)
    (hsize : r.activeReceiveKeys.size ≤ MAX_ACTIVE_RECEIVE_KEYS) :
    ∃ bytes, r.serialize r.activeReceiveKeys = .ok bytes ∧ bytes.length ≤ MAX_EDGE_STATE_BYTES ∧
      (∃ r', SparsePqHealingState.restore bytes r.options = .ok r' ∧
        r' = { r with activeReceiveKeys := r'.activeReceiveKeys } ∧
        r'.activeReceiveKeys.entries.Perm r.activeReceiveKeys.entries ∧
        r'.serialize r'.activeReceiveKeys = .ok bytes) ∧
      (∀ accepted options r', SparsePqHealingState.restore accepted options = .ok r' →
        KeysInOrder accepted r' → r'.serialize r'.activeReceiveKeys = .ok accepted) ∧
      (∀ part extra options r', extra ≠ [] → part ++ extra = bytes →
        SparsePqHealingState.restore part options ≠ .ok r') ∧
      (∀ extra options r', extra ≠ [] →
        SparsePqHealingState.restore (bytes ++ extra) options ≠ .ok r') ∧
      Session.readCheckpointBinding bytes = .ok r.binding := by
  obtain ⟨hwf, hkeys⟩ := h.sound
  have hrestore := restore_encodeCheckpoint hwf hkeys hsize
  refine ⟨encodeCheckpoint r r.activeReceiveKeys, serialize_eq hwf hkeys hsize,
    (length_encodeCheckpoint hwf hkeys hsize).2, ?_, ?_, ?_, ?_,
    Session.readCheckpointBinding_encode hwf _⟩
  · exact ⟨_, hrestore, rfl, perm_sortedKeys _, serialize_of_restore hrestore (keysInOrder_encodeCheckpoint r)⟩
  · exact fun accepted options r' haccepted horder => serialize_of_restore haccepted horder
  · exact fun part extra options r' hextra hpart => no_strict_initial hwf hkeys hsize hextra hpart
  · exact fun extra options r' hextra => no_extension hwf hkeys hsize hextra

theorem sampleReceiving_ok : RatchetIn .hybridMlkem768 sampleReceiving := by
  refine ⟨⟨⟨rfl, rfl, rfl, ?_, ?_, ?_, ?_, ?_⟩, Nat.zero_le _⟩, rfl⟩
  · rintro _ ⟨⟩
  · rintro _ ⟨⟩
    rfl
  · rintro _ ⟨⟩
    rfl
  · rintro - ⟨⟩
  · exact fun entry hentry => absurd hentry List.not_mem_nil

/-- A chunk of zeros adds the key of its message to those there are. -/
theorem Reachable.received (h : Reachable .transparent r) {n : Nat} {context : PqMessageKeyContext}
    (hfits : HeaderFits ⟨List.replicate 32 9, n, 0⟩ 0)
    (hgate : gateEpoch (some fun epoch => .ok (r.resolveMessageContext epoch)) 0 .hybridMlkem768 = some (some context))
    (hmiss : r.activeReceiveKeys.get (cacheKey (List.replicate 32 9) n 0) = none)
    (hsome : (deriveMessageKey .transparent sampleReceiving ⟨List.replicate 32 9, n, 0⟩ (some context)
      (List.replicate 32 3)).isSome = true) :
    ∃ key, Reachable .transparent { r with
      activeReceiveKeys := r.activeReceiveKeys.set (cacheKey (List.replicate 32 9) n 0) key } := by
  obtain ⟨⟨key, clone⟩, hderive⟩ := Option.isSome_iff_exists.mp hsome
  have hrun := decryptMessageChunk_blank hfits hgate (messageCacheKey_eq (Nat.zero_le _)) hmiss hderive
    HealingRefinement.sampleNonce
  refine ⟨key, ?_⟩
  have hnext := h.receive sampleReceiving_ok (sealedChunk .transparent key ⟨List.replicate 32 9, n, 0⟩ 0 blankChunk
    blankRoot HealingRefinement.sampleNonce) blankRoot (fun epoch => .ok (r.resolveMessageContext epoch))
    ⟨List.replicate 32 3, List.length_replicate⟩
  rw [hrun] at hnext
  exact hnext

open HealingRefinement in
/-- The checkpoint of a new edge that has made its first offer and then received two messages, the
second of them first. -/
theorem checkpoint_codec_first_offer : ∃ r bytes, Reachable .transparent r ∧
    r.outboxIs .offer = true ∧ r.activeReceiveKeys.size = 2 ∧ r.serialize r.activeReceiveKeys = .ok bytes ∧
    bytes.length ≤ MAX_EDGE_STATE_BYTES ∧
    Session.readCheckpointBinding bytes = .ok sampleEdge.binding := by
  obtain ⟨pk, sk, hoffered⟩ := sample_offered (List.replicate 64 1)
  have hstart : Reachable .transparent (startRuntime sampleEdge sampleRoot 0 .initiator) :=
    @Reachable.new _ _ _ _ _ _ _ ⟨0, Nat.zero_le _⟩ _ (sample_new .initiator)
  have hreachable := hstart.prepareHealingOffer (List.replicate 64 1) sampleNonce
    ⟨PQ_HEAL_AFTER_MS, by decide⟩
  rw [prepareHealingOffer_run hstart.sound.1 hoffered] at hreachable
  have hgate : gateEpoch (some fun epoch => .ok (SparsePqHealingState.resolveMessageContext
      (SparsePqHealingState.offerMade .transparent (startRuntime sampleEdge sampleRoot 0 .initiator) pk sk sampleNonce
        PQ_HEAL_AFTER_MS) epoch)) 0 .hybridMlkem768 =
      some (some (startRuntime sampleEdge sampleRoot 0 .initiator).currentMessageContext) := rfl
  obtain ⟨second, hsecond⟩ := hreachable.received (n := 1) ⟨rfl, by decide, by decide, by decide⟩ hgate rfl
    (by decide +kernel)
  have hother : cacheKey (List.replicate 32 9) 0 0 ≠ cacheKey (List.replicate 32 9) 1 0 := by decide +kernel
  have hmiss : (OrdMap.empty.set (cacheKey (List.replicate 32 9) 1 0) second).get (cacheKey (List.replicate 32 9) 0 0)
      = none := OrdMap.get_set_ne _ _ hother
  obtain ⟨first, hfirst⟩ := hsecond.received (n := 0) ⟨rfl, by decide, by decide, by decide⟩ hgate hmiss
    (by decide +kernel)
  have hsize : 2 ≤ MAX_ACTIVE_RECEIVE_KEYS := by decide
  obtain ⟨bytes, hserialize, hlength, -, -, -, -, hbinding⟩ :=
    checkpoint_codec hfirst hsize
  exact ⟨_, bytes, hfirst, rfl, rfl, hserialize, hlength, hbinding⟩

end PqHealingRuntime

end P2Party
