import P2Party.Session.Snapshot

/-!
# Snapshots have one spelling

`decodeSessionSnapshot` reads field by field what `encodeSessionSnapshot` writes. Here the
checkpoint of the healing runtime is any byte string.

- `SecretsFit`: what the reader has checked of the fields it returns;
- `readHeader_spec`, `readSkippedLoop_spec`, `readTail_spec`: what each part of the reader
  has consumed;
- `decodeSessionSnapshot_canonical`: an accepted snapshot is the encoding of what it decodes to;
- `decodeSessionSnapshot_extended`: nothing may follow an accepted snapshot;
- `decodeSessionSnapshot_total`: every byte string is decoded or refused with an error of the
  decoder, no read is out of range.
-/

namespace P2Party

open Base PqHealing PqHealingRuntime

namespace Session

variable {state : RatchetState} {checkpoint bytes extra : Bytes} {amInitiator : Bool}

/-! ## What the reader has checked -/

/-- A skipped key of the right lengths and range. -/
def SkippedFits (e : SkippedMessageKey) : Prop :=
  e.dhPub.length = 32 ∧ e.n ≤ MAX_SAFE_INTEGER ∧ e.messageKey.length = 32

/-- The fields of a snapshot whose lengths, ranges and dependencies are right. -/
structure SecretsFit (secrets : RatchetSessionSecrets) (skippedCount : Nat) : Prop where
  rootKey : secrets.rootKey.length = 32
  sending : ∀ key ∈ secrets.sendingChainKey, key.length = 32
  receiving : ∀ key ∈ secrets.receivingChainKey, key.length = 32
  dhSelfPub : secrets.dhSelfPub.length = 32
  dhSelfSec : secrets.dhSelfSec.length = 32
  remote : ∀ key ∈ secrets.dhRemotePub, key.length = 32
  Ns : secrets.Ns ≤ MAX_SAFE_INTEGER
  Nr : secrets.Nr ≤ MAX_SAFE_INTEGER
  PN : secrets.PN ≤ MAX_SAFE_INTEGER
  linked : secrets.sendingChainKey.isSome = true ∨ secrets.receivingChainKey.isSome = true ∨
    0 < skippedCount → secrets.dhRemotePub ≠ none
  size : skippedCount ≤ MAX_SKIP_SESSION

/-- The names of the skipped keys. -/
def skippedNames (es : List SkippedMessageKey) : List String :=
  es.map fun e => skippedKey e.dhPub e.n

/-! ### The fields -/

section Reading

variable {s s' : Bytes}

theorem take_spec {n : Nat} {value : Bytes} (h : (take n).run s = .ok value s') :
    s = value ++ s' ∧ value.length = n := getBytes_spec h

theorem takeByte_spec {value : Nat} (h : takeByte.run s = .ok value s') :
    s = beBytes 1 value ++ s' ∧ value < 256 := by
  obtain ⟨hs, hlt⟩ := getUint_spec h
  exact ⟨hs, by simpa using hlt⟩

theorem readU64_spec {value : Nat} (h : readU64.run s = .ok value s') :
    s = beBytes 8 value ++ s' ∧ value ≤ MAX_SAFE_INTEGER := by
  obtain ⟨n, s₁, hn, h⟩ := bind_eq_ok.mp h
  obtain ⟨hsafe, h⟩ := ensure_bind_eq_ok.mp h
  cases h
  exact ⟨(getUint_spec hn).1, hsafe⟩

theorem takeOptional_spec {present : Bool} {value : Option Bytes}
    (h : (takeOptional present).run s = .ok value s') :
    s = value.getD [] ++ s' ∧ value.isSome = present ∧ ∀ key ∈ value, key.length = 32 := by
  cases present with
  | false =>
    cases h
    exact ⟨rfl, rfl, nofun⟩
  | true =>
    obtain ⟨key, s₁, hkey, h⟩ := bind_eq_ok.mp h
    cases h
    obtain ⟨hs, hlen⟩ := take_spec hkey
    refine ⟨hs, rfl, ?_⟩
    rintro _ ⟨⟩
    exact hlen

/-- The four flags are all a flag byte below sixteen holds. -/
theorem snapshotFlags_testBit {flags : Nat} (h : flags < 16) :
    snapshotFlags (flags.testBit 0) (flags.testBit 1) (flags.testBit 2) (flags.testBit 3) = flags := by
  revert flags
  decide

theorem snapshotTagRootSuite_eq_ok {tag : Nat} {suite : RatchetRootSuite}
    (h : snapshotTagRootSuite tag = .ok suite) : snapshotSuiteTag suite = tag := by
  unfold snapshotTagRootSuite at h
  split_ifs at h with h3 h4 h5
  · cases h
    exact h3.symm
  · cases h
    exact h4.symm
  · cases h
    exact h5.symm

/-! ### The three parts of a snapshot -/

/-- The header that was read is the header of its fields, for any list of skipped keys of the
announced length. -/
theorem readHeader_spec {header : SnapshotHeader} (h : readHeader.run s = .ok header s') :
    SecretsFit header.secrets header.skippedCount ∧
      ∀ skipped : List SkippedMessageKey, skipped.length = header.skippedCount →
        s = headerBytes { header.secrets with skippedMessageKeys := skipped } header.amInitiator ++
          s' := by
  obtain ⟨magic, s1, hmagic, h⟩ := bind_eq_ok.mp h
  obtain ⟨hmagicEq, h⟩ := ensure_bind_eq_ok.mp h
  obtain ⟨version, s2, hversion, h⟩ := bind_eq_ok.mp h
  obtain ⟨hversionEq, h⟩ := ensure_bind_eq_ok.mp h
  obtain ⟨protocol, s3, hprotocol, h⟩ := bind_eq_ok.mp h
  obtain ⟨hprotocolEq, h⟩ := ensure_bind_eq_ok.mp h
  obtain ⟨flags, s4, hflags, h⟩ := bind_eq_ok.mp h
  obtain ⟨hknown, h⟩ := ensure_bind_eq_ok.mp h
  obtain ⟨tag, s5, htag, h⟩ := bind_eq_ok.mp h
  obtain ⟨rootSuite, hsuite, h⟩ := attempt_bind_eq_ok.mp h
  obtain ⟨Ns, s6, hNs, h⟩ := bind_eq_ok.mp h
  obtain ⟨Nr, s7, hNr, h⟩ := bind_eq_ok.mp h
  obtain ⟨PN, s8, hPN, h⟩ := bind_eq_ok.mp h
  obtain ⟨rootKey, s9, hrootKey, h⟩ := bind_eq_ok.mp h
  obtain ⟨sending, s10, hsending, h⟩ := bind_eq_ok.mp h
  obtain ⟨receiving, s11, hreceiving, h⟩ := bind_eq_ok.mp h
  obtain ⟨dhSelfPub, s12, hdhSelfPub, h⟩ := bind_eq_ok.mp h
  obtain ⟨dhSelfSec, s13, hdhSelfSec, h⟩ := bind_eq_ok.mp h
  obtain ⟨remote, s14, hremote, h⟩ := bind_eq_ok.mp h
  obtain ⟨hchains, h⟩ := ensure_bind_eq_ok.mp h
  obtain ⟨count, s15, hcount, h⟩ := bind_eq_ok.mp h
  obtain ⟨hmax, h⟩ := ensure_bind_eq_ok.mp h
  obtain ⟨hkeys, h⟩ := ensure_bind_eq_ok.mp h
  cases h
  subst hmagicEq hversionEq hprotocolEq
  obtain ⟨rfl, -⟩ := take_spec hmagic
  obtain ⟨rfl, -⟩ := takeByte_spec hversion
  obtain ⟨rfl, -⟩ := takeByte_spec hprotocol
  obtain ⟨rfl, -⟩ := takeByte_spec hflags
  obtain ⟨rfl, -⟩ := takeByte_spec htag
  obtain ⟨rfl, safeNs⟩ := readU64_spec hNs
  obtain ⟨rfl, safeNr⟩ := readU64_spec hNr
  obtain ⟨rfl, safePN⟩ := readU64_spec hPN
  obtain ⟨rfl, lenRoot⟩ := take_spec hrootKey
  obtain ⟨rfl, hsome0, lenSending⟩ := takeOptional_spec hsending
  obtain ⟨rfl, hsome1, lenReceiving⟩ := takeOptional_spec hreceiving
  obtain ⟨rfl, lenPub⟩ := take_spec hdhSelfPub
  obtain ⟨rfl, lenSec⟩ := take_spec hdhSelfSec
  obtain ⟨rfl, hsome2, lenRemote⟩ := takeOptional_spec hremote
  obtain ⟨rfl, -⟩ := getUint_spec hcount
  constructor
  · refine ⟨lenRoot, lenSending, lenReceiving, lenPub, lenSec, lenRemote, safeNs, safeNr, safePN,
      ?_, Nat.not_lt.mp hmax⟩
    rintro (hchain | hchain | hpos) hnone
    · exact hchains ⟨.inl hchain, hnone⟩
    · exact hchains ⟨.inr hchain, hnone⟩
    · exact hkeys ⟨hnone, hpos⟩
  · intro skipped hlength
    -- the flag byte and the suite tag are the ones these fields are written with
    have hflagByte : snapshotFlags sending.isSome receiving.isSome remote.isSome
        (flags.testBit 3) = flags := by
      rw [hsome0, hsome1, hsome2, snapshotFlags_testBit hknown]
    simp only [headerBytes, hflagByte, snapshotTagRootSuite_eq_ok hsuite, hlength, List.append_assoc]

/-- The loop has read the keys it appends, under names that are all different. -/
theorem readSkippedLoop_spec {count : Nat} {seen es : List SkippedMessageKey}
    (hnodup : (skippedNames seen).Nodup) (h : (readSkippedLoop count seen).run s = .ok es s') :
    ∃ new, es = seen ++ new ∧ new.length = count ∧ s = new.flatMap skippedBytes ++ s' ∧
      (∀ e ∈ new, SkippedFits e) ∧ (skippedNames es).Nodup := by
  induction count generalizing seen s with
  | zero =>
    cases h
    exact ⟨[], (List.append_nil _).symm, rfl, rfl, nofun, hnodup⟩
  | succ count ih =>
    obtain ⟨dhPub, s1, hdhPub, h⟩ := bind_eq_ok.mp h
    obtain ⟨n, s2, hn, h⟩ := bind_eq_ok.mp h
    obtain ⟨messageKey, s3, hmessageKey, h⟩ := bind_eq_ok.mp h
    obtain ⟨hfresh, h⟩ := ensure_bind_eq_ok.mp h
    have hseen : (skippedNames (seen ++ [⟨dhPub, n, messageKey⟩])).Nodup := by
      rw [skippedNames, List.map_append, List.nodup_append]
      refine ⟨hnodup, List.nodup_singleton _, ?_⟩
      intro name hname other hother
      obtain ⟨e, he, rfl⟩ := List.mem_map.mp hname
      rw [List.map_singleton, List.mem_singleton] at hother
      subst hother
      exact hfresh e he
    obtain ⟨new, hes, hlength, hbytes, hfits, hall⟩ := ih hseen h
    obtain ⟨rfl, lenPub⟩ := take_spec hdhPub
    obtain ⟨rfl, safe⟩ := readU64_spec hn
    obtain ⟨rfl, lenKey⟩ := take_spec hmessageKey
    subst hes hlength hbytes
    refine ⟨⟨dhPub, n, messageKey⟩ :: new, ?_, rfl, ?_, ?_, hall⟩
    · rw [List.append_assoc, List.singleton_append]
    · simp only [List.flatMap_cons, skippedBytes, List.append_assoc]
    · intro e he
      rcases List.mem_cons.mp he with rfl | he
      · exact ⟨lenPub, safe, lenKey⟩
      · exact hfits e he

/-- The rest of a snapshot is the skipped keys and a checkpoint that ends it. -/
theorem readTail_spec {header : SnapshotHeader} {decoded : DecodedSessionSnapshot}
    (h : (readTail header).run s = .ok decoded s') :
    ∃ skipped, decoded.state =
        deserializeRatchet { header.secrets with skippedMessageKeys := skipped } ∧
      decoded.amInitiator = header.amInitiator ∧ skipped.length = header.skippedCount ∧
      (∀ e ∈ skipped, SkippedFits e) ∧ (skippedNames skipped).Nodup ∧
      decoded.pqCheckpoint.length ≠ 0 ∧
      decoded.pqCheckpoint.length ≤ SNAPSHOT_MAX_PQ_CHECKPOINT_BYTES ∧
      s = tailBytes skipped decoded.pqCheckpoint := by
  unfold readTail at h
  rw [run_get_bind] at h
  obtain ⟨-, h⟩ := ensure_bind_eq_ok.mp h
  obtain ⟨skipped, s1, hskipped, h⟩ := bind_eq_ok.mp h
  obtain ⟨length, s2, hlength, h⟩ := bind_eq_ok.mp h
  obtain ⟨hvalid, h⟩ := ensure_bind_eq_ok.mp h
  rw [run_get_bind] at h
  obtain ⟨hend, h⟩ := ensure_bind_eq_ok.mp h
  obtain ⟨checkpoint, s3, hcheckpoint, h⟩ := bind_eq_ok.mp h
  cases h
  obtain ⟨new, rfl, hcount, rfl, hfits, hnodup⟩ := readSkippedLoop_spec
    (show (skippedNames []).Nodup from List.nodup_nil) hskipped
  obtain ⟨rfl, -⟩ := getUint_spec hlength
  obtain ⟨rfl, rfl⟩ := take_spec hcheckpoint
  -- nothing is left behind the checkpoint
  have hnil : s' = [] := by
    rw [List.length_append] at hend
    exact List.length_eq_zero_iff.mp (by omega)
  subst hnil
  rw [not_or] at hvalid
  refine ⟨_, rfl, rfl, hcount, hfits, hnodup, hvalid.1, Nat.not_lt.mp hvalid.2, ?_⟩
  rw [tailBytes, List.append_nil]

end Reading

/-! ## The state of the fields -/

section State

variable {secrets : RatchetSessionSecrets}

/-- Differently named skipped keys are stored as they are, in their order. -/
theorem deserializeRatchet_entries (hnodup : (skippedNames secrets.skippedMessageKeys).Nodup) :
    (deserializeRatchet secrets).skipped.entries =
      secrets.skippedMessageKeys.map fun e => (skippedKey e.dhPub e.n, e.messageKey) := by
  have hkeys : ((secrets.skippedMessageKeys.map fun e =>
      (skippedKey e.dhPub e.n, e.messageKey)).map Prod.fst).Nodup := by
    rw [List.map_map]
    exact hnodup
  exact congrArg OrdMap.entries (OrdMap.ofList_entries ⟨_, hkeys⟩)

/-- Reading the stored form back gives the same fields. -/
theorem serializeRatchet_deserializeRatchet
    (hnodup : (skippedNames secrets.skippedMessageKeys).Nodup) :
    serializeRatchet (deserializeRatchet secrets) = secrets := by
  have hskipped : (serializeRatchet (deserializeRatchet secrets)).skippedMessageKeys =
      secrets.skippedMessageKeys := by
    show List.map _ (deserializeRatchet secrets).skipped.entries = _
    rw [deserializeRatchet_entries hnodup, List.map_map]
    conv_rhs => rw [← List.map_id secrets.skippedMessageKeys]
    refine List.map_congr_left fun e _ => ?_
    simp only [Function.comp_apply, splitSkippedKey_skippedKey, id]
  calc serializeRatchet (deserializeRatchet secrets)
      = { secrets with skippedMessageKeys :=
            (serializeRatchet (deserializeRatchet secrets)).skippedMessageKeys } := rfl
    _ = secrets := by rw [hskipped]

/-- The fields that were checked make a well-formed ratchet. -/
theorem ratchetOk_of_secretsFit (h : SecretsFit secrets secrets.skippedMessageKeys.length)
    (hfits : ∀ e ∈ secrets.skippedMessageKeys, SkippedFits e)
    (hnodup : (skippedNames secrets.skippedMessageKeys).Nodup) :
    RatchetOk (deserializeRatchet secrets) := by
  have hentries := deserializeRatchet_entries hnodup
  have hsize : (deserializeRatchet secrets).skipped.size = secrets.skippedMessageKeys.length := by
    rw [OrdMap.size, hentries, List.length_map]
  refine ⟨⟨h.rootKey, h.dhSelfPub, h.dhSelfSec, h.sending, h.receiving, h.remote, ?_, ?_⟩, ?_⟩
  · rw [hsize]
    exact h.linked
  · intro entry hentry
    rw [hentries] at hentry
    obtain ⟨e, he, rfl⟩ := List.mem_map.mp hentry
    obtain ⟨hdhPub, hn, hmessageKey⟩ := hfits e he
    exact ⟨e.dhPub, e.n, rfl, hdhPub, hn, hmessageKey⟩
  · rw [hsize]
    exact h.size

end State

/-! ## Accepted snapshots -/

section Decoding

variable {decoded : DecodedSessionSnapshot}

theorem decodeSessionSnapshot_eq_ok (h : decodeSessionSnapshot bytes = .ok decoded) :
    ∃ header s s', readHeader.run bytes = .ok header s ∧
      (readTail header).run s = .ok decoded s' := by
  unfold decodeSessionSnapshot at h
  split at h
  case h_1 d s' hrun =>
    cases h
    obtain ⟨header, s, hheader, htail⟩ := bind_eq_ok.mp hrun
    exact ⟨header, s, s', hheader, htail⟩
  case h_2 => cases h

/-- An accepted snapshot is what the encoder writes for the state, checkpoint and role it
decodes to. -/
theorem decodeSessionSnapshot_canonical (h : decodeSessionSnapshot bytes = .ok decoded) :
    encodeSnapshotOf decoded.state (.ok decoded.pqCheckpoint) decoded.amInitiator = .ok bytes := by
  obtain ⟨header, s, s', hheader, htail⟩ := decodeSessionSnapshot_eq_ok h
  obtain ⟨hsecrets, hbytes⟩ := readHeader_spec hheader
  obtain ⟨skipped, hstate, hrole, hcount, hfits, hnodup, hpos, hmax, rfl⟩ := readTail_spec htail
  have hok : RatchetOk decoded.state := by
    rw [hstate]
    refine ratchetOk_of_secretsFit ?_ hfits hnodup
    rw [show List.length _ = header.skippedCount from hcount]
    exact ⟨hsecrets.rootKey, hsecrets.sending, hsecrets.receiving, hsecrets.dhSelfPub,
      hsecrets.dhSelfSec, hsecrets.remote, hsecrets.Ns, hsecrets.Nr, hsecrets.PN, hsecrets.linked,
      hsecrets.size⟩
  have hserialized : serializeRatchet decoded.state =
      { header.secrets with skippedMessageKeys := skipped } := by
    rw [hstate]
    exact serializeRatchet_deserializeRatchet hnodup
  have hNs : decoded.state.Ns ≤ MAX_SAFE_INTEGER := by
    rw [hstate]
    exact hsecrets.Ns
  have hNr : decoded.state.Nr ≤ MAX_SAFE_INTEGER := by
    rw [hstate]
    exact hsecrets.Nr
  have hPN : decoded.state.PN ≤ MAX_SAFE_INTEGER := by
    rw [hstate]
    exact hsecrets.PN
  rw [encodeSnapshotOf_eq hok hNs hNr hPN hpos hmax, hserialized, hrole, ← hbytes skipped hcount]

/-! ### Nothing follows a snapshot -/

theorem readHeader_extends : Extends readHeader := by
  have hu64 : Extends readU64 :=
    (Extends.getUint _ 8).bind fun _ => (Extends.ensure _ _).bind fun _ => .pure _
  have hoptional : ∀ present, Extends (takeOptional present) := by
    intro present
    cases present with
    | false => exact .pure _
    | true => exact (Extends.getBytes _ 32).bind fun _ => .pure _
  unfold readHeader
  refine (Extends.getBytes _ _).bind fun _ => (Extends.ensure _ _).bind fun _ => ?_
  refine (Extends.getUint _ 1).bind fun _ => (Extends.ensure _ _).bind fun _ => ?_
  refine (Extends.getUint _ 1).bind fun _ => (Extends.ensure _ _).bind fun _ => ?_
  refine (Extends.getUint _ 1).bind fun _ => (Extends.ensure _ _).bind fun _ => ?_
  refine (Extends.getUint _ 1).bind fun _ => (Extends.attempt _).bind fun _ => ?_
  refine hu64.bind fun _ => hu64.bind fun _ => hu64.bind fun _ => ?_
  refine (Extends.getBytes _ 32).bind fun _ => ?_
  refine (hoptional _).bind fun _ => (hoptional _).bind fun _ => ?_
  refine (Extends.getBytes _ 32).bind fun _ => (Extends.getBytes _ 32).bind fun _ => ?_
  refine (hoptional _).bind fun _ => (Extends.ensure _ _).bind fun _ => ?_
  refine (Extends.getUint _ 2).bind fun _ => ?_
  exact (Extends.ensure _ _).bind fun _ => (Extends.ensure _ _).bind fun _ => .pure _

/-- Two tails with as many skipped keys, one an extension of the other, are the same. -/
theorem tailBytes_extra {skipped skipped' : List SkippedMessageKey} {checkpoint' : Bytes}
    (hcount : skipped.length = skipped'.length) (hfits : ∀ e ∈ skipped, SkippedFits e)
    (hfits' : ∀ e ∈ skipped', SkippedFits e)
    (hmax : checkpoint.length ≤ SNAPSHOT_MAX_PQ_CHECKPOINT_BYTES)
    (hmax' : checkpoint'.length ≤ SNAPSHOT_MAX_PQ_CHECKPOINT_BYTES)
    (h : tailBytes skipped checkpoint ++ extra = tailBytes skipped' checkpoint') : extra = [] := by
  have hkeys : (skipped.flatMap skippedBytes).length = (skipped'.flatMap skippedBytes).length := by
    rw [length_flatMap_skippedBytes hfits, length_flatMap_skippedBytes hfits', hcount]
  simp only [tailBytes, List.append_assoc] at h
  obtain ⟨-, h⟩ := List.append_inj h hkeys
  obtain ⟨hlength, h⟩ := List.append_inj h (by rw [length_beBytes, length_beBytes])
  have hsame : checkpoint.length = checkpoint'.length :=
    beBytes_inj (Nat.lt_of_le_of_lt hmax (by decide)) (Nat.lt_of_le_of_lt hmax' (by decide)) hlength
  have htotal := congrArg List.length h
  rw [List.length_append] at htotal
  exact List.length_eq_zero_iff.mp (by omega)

/-- An accepted snapshot with bytes behind it is not accepted. -/
theorem decodeSessionSnapshot_extended {decoded' : DecodedSessionSnapshot}
    (h : decodeSessionSnapshot bytes = .ok decoded)
    (hextra : decodeSessionSnapshot (bytes ++ extra) = .ok decoded') : extra = [] := by
  obtain ⟨header, s, s', hheader, htail⟩ := decodeSessionSnapshot_eq_ok h
  obtain ⟨header', t, t', hheader', htail'⟩ := decodeSessionSnapshot_eq_ok hextra
  -- the header is read from the same bytes in both
  rw [readHeader_extends _ _ _ extra hheader] at hheader'
  cases hheader'
  obtain ⟨skipped, -, -, hcount, hfits, -, -, hmax, rfl⟩ := readTail_spec htail
  obtain ⟨skipped', -, -, hcount', hfits', -, -, hmax', hbytes⟩ := readTail_spec htail'
  exact tailBytes_extra (hcount.trans hcount'.symm) hfits hfits' hmax hmax' hbytes

/-! ### Nothing is read out of range -/

/-- An error the decoder throws itself, as opposed to one of the buffer it reads from. -/
def Own : JsError → Prop
  | .error _ => True
  | _ => False

theorem readU64_throws : Throws Own readU64 :=
  (Throws.getUint trivial 8).bind fun _ => (Throws.ensure trivial _).bind fun _ => .pure _

theorem readHeader_throws : Throws Own readHeader := by
  have hoptional : ∀ present, Throws Own (takeOptional present) := by
    intro present
    cases present with
    | false => exact .pure _
    | true => exact (Throws.getBytes trivial 32).bind fun _ => .pure _
  have htag : ∀ tag e, snapshotTagRootSuite tag = .error e → Own e := by
    intro tag e h
    unfold snapshotTagRootSuite at h
    split_ifs at h
    cases h
    trivial
  have hu64 := readU64_throws
  unfold readHeader
  refine (Throws.getBytes trivial _).bind fun _ => (Throws.ensure trivial _).bind fun _ => ?_
  refine (Throws.getUint trivial 1).bind fun _ => (Throws.ensure trivial _).bind fun _ => ?_
  refine (Throws.getUint trivial 1).bind fun _ => (Throws.ensure trivial _).bind fun _ => ?_
  refine (Throws.getUint trivial 1).bind fun _ => (Throws.ensure trivial _).bind fun _ => ?_
  refine (Throws.getUint trivial 1).bind fun _ => (Throws.attempt (htag _)).bind fun _ => ?_
  refine hu64.bind fun _ => hu64.bind fun _ => hu64.bind fun _ => ?_
  refine (Throws.getBytes trivial 32).bind fun _ => ?_
  refine (hoptional _).bind fun _ => (hoptional _).bind fun _ => ?_
  refine (Throws.getBytes trivial 32).bind fun _ => (Throws.getBytes trivial 32).bind fun _ => ?_
  refine (hoptional _).bind fun _ => (Throws.ensure trivial _).bind fun _ => ?_
  refine (Throws.getUint trivial 2).bind fun _ => ?_
  exact (Throws.ensure trivial _).bind fun _ => (Throws.ensure trivial _).bind fun _ => .pure _

theorem readSkippedLoop_throws (count : Nat) (seen : List SkippedMessageKey) :
    Throws Own (readSkippedLoop count seen) := by
  induction count generalizing seen with
  | zero => exact .pure _
  | succ count ih =>
    refine (Throws.getBytes trivial 32).bind fun _ => readU64_throws.bind fun _ => ?_
    exact (Throws.getBytes trivial 32).bind fun _ => (Throws.ensure trivial _).bind fun _ => ih _

/-- The length of the checkpoint is read without a check of its own: the room for it was checked
before the skipped keys, which have their fixed length. -/
theorem readTail_throws (header : SnapshotHeader) : Throws Own (readTail header) := by
  intro s e s' h
  unfold readTail at h
  rw [run_get_bind, run_ensure_bind] at h
  by_cases hroom : header.skippedCount * SNAPSHOT_SKIPPED_ENTRY_LEN + 4 ≤ s.length
  · rw [if_pos hroom] at h
    cases hloop : (readSkippedLoop header.skippedCount []).run s with
    | error e₁ s₁ =>
      rw [run_bind_of_error hloop] at h
      cases h
      exact readSkippedLoop_throws _ _ _ _ _ hloop
    | ok skipped s₁ =>
      obtain ⟨new, -, hcount, rfl, hfits, -⟩ := readSkippedLoop_spec
        (show (skippedNames []).Nodup from List.nodup_nil) hloop
      have hleft : 4 ≤ s₁.length := by
        rw [List.length_append, length_flatMap_skippedBytes hfits, hcount] at hroom
        omega
      rw [run_bind_of_ok hloop, run_bind_of_ok (getUint_of_le hleft)] at h
      refine Throws.bind (Throws.ensure trivial _) (fun _ => ?_) _ _ _ h
      intro t e₂ t' ht
      rw [run_get_bind] at ht
      exact ((Throws.ensure trivial _).bind fun _ => (Throws.getBytes trivial _).bind fun _ =>
        Throws.pure _) t e₂ t' ht
  · rw [if_neg hroom] at h
    cases h
    trivial

/-- Every byte string is decoded, or refused by the decoder itself. -/
theorem decodeSessionSnapshot_total (bytes : Bytes) :
    (∃ decoded, decodeSessionSnapshot bytes = .ok decoded) ∨
      ∃ message, decodeSessionSnapshot bytes = .error (.error message) := by
  unfold decodeSessionSnapshot
  cases hrun : (readHeader >>= readTail).run bytes with
  | ok decoded s => exact .inl ⟨decoded, rfl⟩
  | error e s =>
    have hown : Own e := readHeader_throws.bind readTail_throws _ _ _ hrun
    cases e with
    | error message => exact .inr ⟨message, rfl⟩
    | _ => exact absurd hown id

/-- **Snapshots are canonical.** An accepted byte string is the encoding of what it decodes to;
no strict initial part and no extension of it is accepted; and decoding returns or throws an error
of its own for every byte string. -/
theorem snapshot_canonical (bytes : Bytes) :
    (∀ decoded, decodeSessionSnapshot bytes = .ok decoded →
      encodeSnapshotOf decoded.state (.ok decoded.pqCheckpoint) decoded.amInitiator = .ok bytes ∧
      (∀ extra, extra ≠ [] → ∃ e, decodeSessionSnapshot (bytes ++ extra) = .error e) ∧
      (∀ initial extra, bytes = initial ++ extra → extra ≠ [] →
        ∃ e, decodeSessionSnapshot initial = .error e)) ∧
    ((∃ decoded, decodeSessionSnapshot bytes = .ok decoded) ∨
      ∃ message, decodeSessionSnapshot bytes = .error (.error message)) := by
  refine ⟨?_, decodeSessionSnapshot_total bytes⟩
  intro decoded h
  refine ⟨decodeSessionSnapshot_canonical h, ?_, ?_⟩
  · intro extra hne
    cases hextra : decodeSessionSnapshot (bytes ++ extra) with
    | error e => exact ⟨e, rfl⟩
    | ok decoded' => exact absurd (decodeSessionSnapshot_extended h hextra) hne
  · rintro initial extra rfl hne
    cases hinitial : decodeSessionSnapshot initial with
    | error e => exact ⟨e, rfl⟩
    | ok decoded' => exact absurd (decodeSessionSnapshot_extended hinitial h) hne

/-- A snapshot without chains, of an initiator, around a checkpoint of one byte. -/
def sampleSnapshot : Bytes :=
  SESSION_MAGIC ++ ([4, 4, 8, 3] ++ (List.replicate 24 0 ++ (List.replicate 96 1 ++
    ([0, 0] ++ ([0, 0, 0, 1] ++ [7])))))

theorem snapshot_canonical_sample : ∃ decoded,
    decodeSessionSnapshot sampleSnapshot = .ok decoded ∧
      encodeSnapshotOf decoded.state (.ok decoded.pqCheckpoint) decoded.amInitiator =
        .ok sampleSnapshot := by
  have haccepted : (decodeSessionSnapshot sampleSnapshot).isOk = true := by decide +kernel
  cases h : decodeSessionSnapshot sampleSnapshot with
  | ok decoded => exact ⟨decoded, rfl, ((snapshot_canonical sampleSnapshot).1 decoded h).1⟩
  | error e =>
    rw [h] at haccepted
    cases haccepted

end Decoding

end Session

end P2Party
