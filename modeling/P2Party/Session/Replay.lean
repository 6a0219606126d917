import P2Party.Session.HonestTraffic

/-!
# Replayed messages (`session.ts`)

The key of a message that was decrypted stays among the active receive keys. The epoch gate of the
receive path stands before the key cache, so the same message is refused once the session has moved
to another PQ epoch. In the same epoch the cache answers: every frame opens again under the staged
key, the ratchet is not asked, and the plaintext is returned a second time and counted.

- `Stored`, `StoredStep`: one session and the snapshots its caller kept, with calls and restarts;
- `Opens`, `openMessage_opens`, `Opens.openMessage`: what a message that opened says about itself,
  and that it opens again wherever its key is held;
- `decrypt_holds`, `Op.holds`, `holds_of_runs`: a held key stays held, over calls and restarts;
- `replay_rejected`: when a replay is refused.
-/

namespace P2Party

open Base PqHealing PqHealingRuntime

namespace Session

variable {L : LibCrypto}

/-! ## A session and its snapshots -/

/-- A session with the snapshots its caller kept. -/
structure Stored where
  session : Session
  snapshots : List Bytes

/-- The snapshot a call gives its caller. -/
def Outcome.saved : Outcome → List Bytes
  | .snapshot bytes => [bytes]
  | _ => []

/-- A call, or a restart from a snapshot that was kept. -/
inductive StoredStep (L : LibCrypto) : Stored → Stored → Prop
  | call (a : Stored) (op : Op) :
    StoredStep L a ⟨(op.run L a.session).2, (op.run L a.session).1.saved ++ a.snapshots⟩
  | restore {a : Stored} {snapshot : Bytes} {restored : Session} (hkept : snapshot ∈ a.snapshots)
    (hrestore : restoreSession snapshot = .ok restored) : StoredStep L a { a with session := restored }

/-- What every session of a run satisfies: a property of the session, and of every session a
kept snapshot restores. -/
structure StoredInv (P : Session → Prop) (a : Stored) : Prop where
  wellFormed : a.session.WellFormed
  holds : P a.session
  snapshots : ∀ snapshot ∈ a.snapshots, ∃ t : Session, t.WellFormed ∧ t.SnapshotFits ∧ P t ∧
    snapshot = t.snapshotBytes

variable {s : Session}

/-- A session with its active keys in sorted order is well formed. -/
theorem WellFormed.sorted (h : s.WellFormed) : s.sorted.WellFormed := by
  obtain ⟨hm, hb, hs, hrs, hmr, hlh, hmsg, hph, hob, hof, haf, hack, hpair⟩ := h.runtime
  refine ⟨h.live, h.ratchet, ⟨hm, hb, hs, hrs, hmr, hlh, hmsg, hph, hob, hof, haf, hack, hpair⟩, ?_,
    h.suite, h.role⟩
  intro entry hentry
  exact h.keys entry ((sortedEntries_perm s.pq.activeReceiveKeys).mem_iff.mp hentry)

/-- A call that gives a snapshot gives the session's, and the session fits it. -/
theorem Op.saved_eq (h : s.WellFormed) {op : Op} {snapshot : Bytes}
    (hsaved : snapshot ∈ (op.run L s).1.saved) : s.SnapshotFits ∧ snapshot = s.snapshotBytes := by
  have hquiet : ∀ {α : Type} {wrap : α → Outcome} (result : EStateM.Result JsError Session α),
      (∀ a, (wrap a).saved = []) → (outcomeOf wrap result).1.saved = [] := by
    intro α wrap result hwrap
    cases result with
    | ok a s' => exact hwrap a
    | error e s' => rfl
  unfold Op.run at hsaved
  cases op with
  | encrypt plaintext ρ =>
    rw [hquiet _ fun _ => rfl] at hsaved
    cases hsaved
  | decrypt message secretKey =>
    rw [hquiet _ fun _ => rfl] at hsaved
    cases hsaved
  | prepareHealing coins nonce due now dispatched =>
    rw [hquiet _ fun _ => rfl] at hsaved
    cases hsaved
  | acceptControlFrame frame coins nonce now dispatched =>
    rw [hquiet _ fun _ => rfl] at hsaved
    cases hsaved
  | pendingControl =>
    rw [hquiet _ fun _ => rfl] at hsaved
    cases hsaved
  | serialize =>
    dsimp only at hsaved
    by_cases hfits : s.SnapshotFits
    · rw [(serialize_run h).1 hfits] at hsaved
      exact ⟨hfits, List.mem_singleton.mp hsaved⟩
    · obtain ⟨e, herr⟩ := (serialize_run h).2 hfits
      rw [herr] at hsaved
      cases hsaved

/-- What calls and sorting keep holds along every run, restarts included. -/
theorem StoredInv.step {P : Session → Prop}
    (hcall : ∀ (t : Session) (op : Op), t.WellFormed → P t → P (op.run L t).2)
    (hsorted : ∀ t : Session, P t → P t.sorted) {a b : Stored} (h : StoredInv P a)
    (hstep : StoredStep L a b) : StoredInv P b := by
  cases hstep with
  | call op =>
    refine ⟨(op.keeps h.wellFormed).1, hcall _ op h.wellFormed h.holds, fun snapshot hmem => ?_⟩
    rcases List.mem_append.mp hmem with hnew | hold
    · obtain ⟨hfits, rfl⟩ := op.saved_eq h.wellFormed hnew
      exact ⟨a.session, h.wellFormed, hfits, h.holds, rfl⟩
    · exact h.snapshots snapshot hold
  | restore hkept hrestore =>
    obtain ⟨t, hwf, hfits, ht, rfl⟩ := h.snapshots _ hkept
    obtain rfl := Except.ok.inj ((restoreSession_encode hwf hfits).symm.trans hrestore)
    exact ⟨hwf.sorted, hsorted t ht, h.snapshots⟩

/-! ## Held keys -/

/-- The session holds a key under a name. -/
def Holds (s : Session) (name : String) (key : Bytes) : Prop :=
  s.pq.activeReceiveKeys.get name = some key

variable {name : String} {key : Bytes}

theorem Holds.sorted (h : s.Holds name key) : s.sorted.Holds name key :=
  (OrdMap.get_eq_of_perm (sortedEntries_perm s.pq.activeReceiveKeys) name).trans h

/-- Publishing staged keys takes none away. -/
theorem get_adopt_of_live {live staged : OrdMap String Bytes} (h : live.get name = some key) :
    (adoptActiveReceiveKeys live staged).get name = some key := by
  rw [adoptActiveReceiveKeys, OrdMap.get_merge, h]
  rfl

theorem encrypt_keys (plaintext : Bytes) (ρ : EncryptRandomness) :
    (finalState ((encrypt L plaintext ρ).run s)).pq.activeReceiveKeys = s.pq.activeReceiveKeys := by
  rcases @encrypt_cases L s plaintext ρ with ⟨e, herr⟩ | ⟨hlive, hfree, hchain, message, next, hseal⟩
  · rw [herr]
    rfl
  · rw [encrypt_run hlive hfree hchain hseal]
    split
    · rfl
    · rfl

theorem prepareHealing_keys (h : s.WellFormed) (coins : Bytes) (nonce : Nonce) (due now dispatched : Instant) :
    (finalState ((prepareHealing L coins nonce due now dispatched).run s)).pq.activeReceiveKeys =
      s.pq.activeReceiveKeys := by
  rcases @prepareHealing_cases L s h coins nonce due now dispatched with
    ⟨e, herr⟩ | hnone | ⟨pk, sk, -, hrun⟩
  · rw [herr]
    rfl
  · rw [hnone]
    rfl
  · rw [hrun]
    rfl

theorem acceptControlFrame_keys (h : s.WellFormed) (frame coins : Bytes) (nonce : Nonce)
    (now dispatched : Instant) :
    (finalState ((acceptControlFrame L frame coins nonce now dispatched).run s)).pq.activeReceiveKeys =
      s.pq.activeReceiveKeys := by
  rcases @acceptControlFrame_cases L s h frame coins nonce now dispatched with
    ⟨e, r, hrefused, herr⟩ | ⟨result, r, haccepted, hrun⟩
  · rw [herr]
    cases hrefused with
    | unchanged => rfl
    | stuck => rfl
  · rw [hrun]
    cases haccepted with
    | repeatedOffer => rfl
    | repeatedAdvance => rfl
    | acknowledgement => rfl
    | offer => rfl
    | advance => rfl

/-- Only `decrypt` changes the active receive keys. -/
theorem Op.keys (h : s.WellFormed) {op : Op} (hop : ∀ message secretKey, op ≠ .decrypt message secretKey) :
    (op.run L s).2.pq.activeReceiveKeys = s.pq.activeReceiveKeys := by
  unfold Op.run
  cases op with
  | encrypt plaintext ρ =>
    rw [outcomeOf_session]
    exact encrypt_keys plaintext ρ
  | decrypt message secretKey => exact absurd rfl (hop message secretKey)
  | prepareHealing coins nonce due now dispatched =>
    rw [outcomeOf_session]
    exact prepareHealing_keys h coins nonce due now dispatched
  | acceptControlFrame frame coins nonce now dispatched =>
    rw [outcomeOf_session]
    exact acceptControlFrame_keys h frame coins nonce now dispatched
  | pendingControl =>
    rw [outcomeOf_session, pendingControl_run h]
    rfl
  | serialize =>
    rw [outcomeOf_session, serialize_kept h]

theorem decrypt_holds (h : s.Holds name key) (message : EncryptedSessionMessage)
    (secretKey : Nat → RandomBytes 32) :
    (finalState ((decrypt L message secretKey).run s)).Holds name key := by
  rcases @decrypt_cases L s message secretKey with
    ⟨e, herr⟩ | ⟨hcheck, hlive, plaintext, staged, hopen⟩
  · rw [herr]
    exact h
  · rw [decrypt_run hcheck hlive hopen]
    split
    · exact get_adopt_of_live h
    · exact get_adopt_of_live h

/-- A held key stays held. -/
theorem Op.holds (hwf : s.WellFormed) (op : Op) (h : s.Holds name key) :
    (op.run L s).2.Holds name key := by
  by_cases hop : ∃ message secretKey, op = .decrypt message secretKey
  · obtain ⟨message, secretKey, rfl⟩ := hop
    unfold Op.run
    dsimp only
    rw [outcomeOf_session]
    exact decrypt_holds h message secretKey
  · have hkeys : (op.run L s).2.pq.activeReceiveKeys = s.pq.activeReceiveKeys :=
      op.keys hwf fun message secretKey heq => hop ⟨message, secretKey, heq⟩
    rw [Holds, hkeys]
    exact h

/-- Over a whole run, restarts included, a held key stays held. -/
theorem holds_of_runs {a b : Stored} (hwf : a.session.WellFormed) (hheld : a.session.Holds name key)
    (hnone : a.snapshots = []) (hruns : Runs (StoredStep L) a b) :
    b.session.WellFormed ∧ b.session.Holds name key := by
  have hinv : StoredInv (fun t => t.Holds name key) b := by
    refine Runs.invariant (fun _ _ h hstep => h.step (fun t op => op.holds) (fun t => Holds.sorted) hstep) ?_ hruns
    refine ⟨hwf, hheld, fun snapshot hmem => ?_⟩
    rw [hnone] at hmem
    cases hmem
  exact ⟨hinv.wellFormed, hinv.holds⟩

/-! ## Frames that opened -/

/-- A frame opens under a key: its header names the epoch and the key, and what the key opens
starts with the metadata of the record. -/
structure FrameOpens (L : LibCrypto) (root : Bytes) (epoch : Nat) (name : String) (key frame : Bytes)
    (record : DecryptedRecord) : Prop where
  parses : ∃ parsed, parseChunkFrameHeader frame = .ok parsed ∧ parsed.pqEpoch = epoch ∧
    cacheKey parsed.header.dhPub parsed.header.N epoch = name
  opens : ∃ decrypted, receiveWithKey L frame root key = .ok decrypted ∧
    deserializeMetadata (decrypted.take METADATA_LEN) = .ok record.metadata ∧
    record.chunk = decrypted.drop (METADATA_LEN + PROOF_LEN)

section Frames

variable {receiver receiver' : ChunkReceiver} {root frame : Bytes} {resolver : PqMessageKeyContextResolver}
  {parsed : ParsedChunkFrame} {decrypted : Bytes} {records : List DecryptedRecord}

/-- A chunk that opened did so under the key that is cached afterwards, which is the one that was
cached before if there was one. -/
theorem decryptMessageChunk_opened {secretKey : Bytes} {result : DecryptedChunk}
    (hroot : root.length = HASH_BYTES) (hparse : parseChunkFrameHeader frame = .ok parsed)
    (hrun : (decryptMessageChunk L frame root (some resolver) secretKey).run receiver = .ok result receiver')
    (hresult : result.decrypted = some decrypted) :
    (∃ context, resolver parsed.pqEpoch = .ok (some context)) ∧
      ∃ key, receiveWithKey L frame root key = .ok decrypted ∧
        receiver'.cache.get (cacheKey parsed.header.dhPub parsed.header.N parsed.pqEpoch) = some key ∧
        ∀ cached, receiver.cache.get (cacheKey parsed.header.dhPub parsed.header.N parsed.pqEpoch) =
          some cached → cached = key ∧ receiver' = receiver := by
  have hkey := @messageCacheKey_eq parsed.header.dhPub parsed.header.N _ (headerFits_of_parse hparse).epoch
  cases hgate : gateEpoch (some resolver) parsed.pqEpoch receiver.state.rootSuite with
  | none =>
    rw [decryptMessageChunk_unresolved hroot hparse hgate] at hrun
    cases hrun
    cases hresult
  | some pqContext =>
    obtain ⟨context, -, hresolve, -⟩ := gateEpoch_some hgate
    refine ⟨⟨context, hresolve⟩, ?_⟩
    cases hcached : receiver.cache.get (cacheKey parsed.header.dhPub parsed.header.N parsed.pqEpoch) with
    | some cached =>
      rw [decryptMessageChunk_hit hroot hparse hgate hkey hcached] at hrun
      cases hrun
      exact ⟨cached, receivedChunk_decrypted hresult, hcached, fun _ hsame => ⟨(Option.some.inj hsame).symm, rfl⟩⟩
    | none =>
      rw [decryptMessageChunk_miss hroot hparse hgate hkey hcached] at hrun
      cases hderive : deriveMessageKey L receiver.state parsed.header pqContext secretKey with
      | none =>
        rw [hderive] at hrun
        cases hrun
        cases hresult
      | some derived =>
        obtain ⟨messageKey, clone⟩ := derived
        simp only [hderive] at hrun
        split at hrun
        · cases hrun
          cases hresult
        · cases hrun
          refine ⟨messageKey, receivedChunk_decrypted hresult, OrdMap.get_set_self _ _ _, ?_⟩
          rintro _ ⟨⟩

/-- What a frame of a message is expected to say: it parses to the header of the message. -/
def Names (dhPub : Bytes) (N : Nat) (frame : Bytes) : Prop :=
  ∃ parsed, parseChunkFrameHeader frame = .ok parsed ∧ parsed.header.dhPub = dhPub ∧ parsed.header.N = N

variable {epoch N : Nat} {dhPub : Bytes} {secretKey : Nat → RandomBytes 32} {frames : List (Bytes × Nat)}

/-- The first frame of a message that was read opened, and the rest were read from there. -/
theorem decryptFrames_step {k : Nat} (hroot : root.length = HASH_BYTES)
    (hepoch : ∀ e context, resolver e = .ok (some context) → e = epoch) (hnames : Names dhPub N frame)
    (hrun : (decryptFrames L resolver root secretKey ((frame, k) :: frames)).run receiver =
      .ok records receiver') :
    ∃ key record others mid, records = record :: others ∧
      FrameOpens L root epoch (cacheKey dhPub N epoch) key frame record ∧
      mid.cache.get (cacheKey dhPub N epoch) = some key ∧
      (∀ cached, receiver.cache.get (cacheKey dhPub N epoch) = some cached → cached = key ∧ mid = receiver) ∧
      (decryptFrames L resolver root secretKey frames).run mid = .ok others receiver' := by
  obtain ⟨parsed, hparse, rfl, rfl⟩ := hnames
  rw [decryptFrames] at hrun
  obtain ⟨result, mid, hone, hrun⟩ := bind_eq_ok.mp hrun
  split at hrun
  case h_1 decrypted _ hdecrypted =>
    obtain ⟨metadata, hmetadata, hrun⟩ := attempt_bind_eq_ok.mp hrun
    obtain ⟨others, last, hothers, hrun⟩ := bind_eq_ok.mp hrun
    cases hrun
    obtain ⟨⟨context, hresolve⟩, key, hopens, hnow, hbefore⟩ :=
      decryptMessageChunk_opened hroot hparse hone hdecrypted
    obtain rfl := hepoch _ _ hresolve
    exact ⟨key, _, others, mid, rfl, ⟨⟨parsed, hparse, rfl, rfl⟩, decrypted, hopens, hmetadata, rfl⟩, hnow,
      hbefore, hothers⟩
  case h_2 => cases hrun

/-- Frames whose key is staged open under it and leave everything as it was. -/
theorem decryptFrames_staged (hroot : root.length = HASH_BYTES)
    (hepoch : ∀ e context, resolver e = .ok (some context) → e = epoch)
    (hnames : ∀ p ∈ frames, Names dhPub N p.1)
    (hstaged : receiver.cache.get (cacheKey dhPub N epoch) = some key)
    (hrun : (decryptFrames L resolver root secretKey frames).run receiver = .ok records receiver') :
    receiver' = receiver ∧ List.Forall₂
      (fun p record => FrameOpens L root epoch (cacheKey dhPub N epoch) key p.1 record) frames records := by
  induction frames generalizing records with
  | nil =>
    cases hrun
    exact ⟨rfl, List.Forall₂.nil⟩
  | cons p frames ih =>
    obtain ⟨frame, k⟩ := p
    obtain ⟨key', record, others, mid, rfl, hopens, -, hbefore, hrest⟩ :=
      decryptFrames_step hroot hepoch (hnames _ List.mem_cons_self) hrun
    obtain ⟨rfl, rfl⟩ := hbefore key hstaged
    obtain ⟨hsame, hothers⟩ := ih (fun p hp => hnames p (List.mem_cons_of_mem _ hp)) hrest
    exact ⟨hsame, List.Forall₂.cons hopens hothers⟩

/-- The frames of a message that was read open under one key, which is cached afterwards. -/
theorem decryptFrames_opened (hroot : root.length = HASH_BYTES)
    (hepoch : ∀ e context, resolver e = .ok (some context) → e = epoch)
    (hnames : ∀ p ∈ frames, Names dhPub N p.1) (hne : frames ≠ [])
    (hrun : (decryptFrames L resolver root secretKey frames).run receiver = .ok records receiver') :
    ∃ key, receiver'.cache.get (cacheKey dhPub N epoch) = some key ∧
      (∀ cached, receiver.cache.get (cacheKey dhPub N epoch) = some cached → cached = key) ∧
      List.Forall₂ (fun p record => FrameOpens L root epoch (cacheKey dhPub N epoch) key p.1 record)
        frames records := by
  obtain ⟨⟨frame, k⟩, frames, rfl⟩ := List.exists_cons_of_ne_nil hne
  obtain ⟨key, record, others, mid, rfl, hopens, hnow, hbefore, hrest⟩ :=
    decryptFrames_step hroot hepoch (hnames _ List.mem_cons_self) hrun
  obtain ⟨rfl, hothers⟩ :=
    decryptFrames_staged hroot hepoch (fun p hp => hnames p (List.mem_cons_of_mem _ hp)) hnow hrest
  exact ⟨key, hnow, fun cached hcached => (hbefore cached hcached).1, List.Forall₂.cons hopens hothers⟩

/-- Frames that open under a staged key are read again, and nothing changes. -/
theorem decryptFrames_again (hroot : root.length = HASH_BYTES) {pqContext : Option PqMessageKeyContext}
    (hgate : gateEpoch (some resolver) epoch receiver.state.rootSuite = some pqContext)
    (hstaged : receiver.cache.get name = some key)
    (hopens : List.Forall₂ (fun p record => FrameOpens L root epoch name key p.1 record) frames records) :
    (decryptFrames L resolver root secretKey frames).run receiver = .ok records receiver := by
  induction hopens with
  | nil => rfl
  | @cons p record frames records hone _ ih =>
    obtain ⟨frame, k⟩ := p
    obtain ⟨⟨parsed, hparse, rfl, rfl⟩, decrypted, hreceive, hmetadata, hchunk⟩ := hone
    have hkey := @messageCacheKey_eq parsed.header.dhPub parsed.header.N _ (headerFits_of_parse hparse).epoch
    have hhit := @decryptMessageChunk_hit L root key (secretKey k).val _ (some resolver) _ receiver
      pqContext _ hroot hparse hgate hkey hstaged
    rw [hreceive] at hhit
    rw [decryptFrames, run_bind_of_ok hhit]
    dsimp only [receivedChunk]
    rw [run_attempt_of_ok hmetadata, run_bind_of_ok ih, ← hchunk]
    rfl

end Frames

/-! ## Messages that opened -/

/-- A message opens in an epoch under the key of a name. -/
structure Opens (L : LibCrypto) (message : EncryptedSessionMessage) (epoch : Nat) (name : String) (key : Bytes)
    (plaintext : Bytes) : Prop where
  checks : checkMessage message = .ok ()
  headers : ∃ parsed, message.frames.mapM parseChunkFrameHeader = .ok parsed ∧ checkHeaders parsed = .ok ()
  records : ∃ records, List.Forall₂ (fun p record => FrameOpens L message.root epoch name key p.1 record)
    message.frames.zipIdx records ∧ validateAndJoinRecords L records = .ok plaintext

variable {message : EncryptedSessionMessage} {plaintext : Bytes} {secretKey : Nat → RandomBytes 32}

/-- The frames and the root of a message that passed the first checks. -/
theorem checkMessage_ok (h : checkMessage message = .ok ()) :
    message.root.length = HASH_BYTES ∧ message.frames ≠ [] := by
  unfold checkMessage requireBytes at h
  simp only [except_bind_eq_ok, demand_eq_ok, exists_const] at h
  exact ⟨h.2.1, h.2.2.1⟩

/-- The frames of a message with checked headers name one key. -/
theorem names_of_headers {parsed : List ParsedChunkFrame}
    (hparsed : message.frames.mapM parseChunkFrameHeader = .ok parsed)
    (hheaders : checkHeaders parsed = .ok ()) :
    ∃ dhPub N, ∀ frame ∈ message.frames, Names dhPub N frame := by
  unfold checkHeaders at hheaders
  simp only [except_bind_eq_ok, demand_eq_ok, exists_const] at hheaders
  obtain ⟨hsame, -⟩ := hheaders
  cases parsed with
  | nil =>
    refine ⟨[], 0, fun frame hframe => ?_⟩
    obtain ⟨p, hp, -⟩ := mapM_isOk hparsed hframe
    cases hp
  | cons first rest =>
    refine ⟨first.header.dhPub, first.header.N, fun frame hframe => ?_⟩
    obtain ⟨p, hp, hparse⟩ := mapM_isOk hparsed hframe
    have heq : first.header = p.header := eq_of_sameRatchetHeader (hsame p hp first rfl)
    exact ⟨p, hparse, by rw [heq], by rw [heq]⟩

/-- The only epoch a session resolves is its own. -/
theorem resolver_some {e : Nat} {context : PqMessageKeyContext} (h : s.resolver e = .ok (some context)) :
    e = s.pq.epoch := by
  have hsome : s.pq.resolveMessageContext e = some context := Except.ok.inj h
  unfold SparsePqHealingState.resolveMessageContext at hsome
  split at hsome
  · assumption
  · cases hsome

/-- A message that opened on a session opens in its epoch, under the key that is staged. -/
theorem openMessage_opens {staged : ChunkReceiver} (hcheck : checkMessage message = .ok ())
    (hopen : openMessage L s message secretKey = .ok (plaintext, staged)) :
    ∃ name key, Opens L message s.pq.epoch name key plaintext ∧ staged.cache.get name = some key ∧
      ∀ held, s.Holds name held → held = key := by
  obtain ⟨hroot, hne⟩ := checkMessage_ok hcheck
  obtain ⟨parsed, records, hparsed, hheaders, hrun, hjoin⟩ := openMessage_steps hopen
  obtain ⟨dhPub, N, hnames⟩ := names_of_headers hparsed hheaders
  have hindexed : message.frames.zipIdx ≠ [] := fun hnil => hne (List.zipIdx_eq_nil_iff.mp hnil)
  obtain ⟨key, hnow, hbefore, hframes⟩ := decryptFrames_opened hroot (fun e context => resolver_some)
    (fun p hp => hnames p.1 (List.fst_mem_of_mem_zipIdx hp)) hindexed hrun
  exact ⟨_, key, ⟨hcheck, ⟨parsed, hparsed, hheaders⟩, records, hframes, hjoin⟩, hnow, hbefore⟩

/-- A message opens in one epoch only. -/
theorem Opens.epoch_eq {epoch epoch' : Nat} {name name' : String} {key key' plaintext' : Bytes}
    (h : Opens L message epoch name key plaintext) (h' : Opens L message epoch' name' key' plaintext') :
    epoch = epoch' := by
  obtain ⟨-, hne⟩ := checkMessage_ok h.checks
  obtain ⟨records, hframes, -⟩ := h.records
  obtain ⟨records', hframes', -⟩ := h'.records
  obtain ⟨frame, rest, hcons⟩ := List.exists_cons_of_ne_nil hne
  rw [hcons, List.zipIdx_cons] at hframes hframes'
  obtain ⟨_, _, hone, -, -⟩ := List.forall₂_cons_left_iff.mp hframes
  obtain ⟨_, _, hone', -, -⟩ := List.forall₂_cons_left_iff.mp hframes'
  obtain ⟨parsed, hparse, rfl, -⟩ := hone.parses
  obtain ⟨parsed', hparse', rfl, -⟩ := hone'.parses
  rw [Except.ok.inj (hparse.symm.trans hparse')]

/-- Where its key is held, in its epoch, a message opens again, and the staged copies are the
session's. -/
theorem Opens.openMessage (h : Opens L message s.pq.epoch name key plaintext) (hs : s.WellFormed)
    (hheld : s.Holds name key) (secretKey : Nat → RandomBytes 32) :
    openMessage L s message secretKey = .ok (plaintext, ⟨s.state, s.pq.activeReceiveKeys⟩) := by
  obtain ⟨hroot, -⟩ := checkMessage_ok h.checks
  obtain ⟨parsed, hparsed, hheaders⟩ := h.headers
  obtain ⟨records, hframes, hjoin⟩ := h.records
  have hrun := @decryptFrames_again L name key ⟨s.state, s.pq.activeReceiveKeys⟩ message.root s.resolver
    records s.pq.epoch secretKey message.frames.zipIdx hroot _ hs.gate hheld hframes
  unfold Session.openMessage
  rw [hparsed, ok_bind, hheaders, ok_bind, cloneRatchet_eq hs.ratchet.canonical, hrun]
  dsimp only
  rw [hjoin]
  rfl

/-- A message that was decrypted opens in the session's epoch, and its key is held afterwards. -/
theorem decrypt_opens {after : Session} (hrun : (decrypt L message secretKey).run s = .ok plaintext after) :
    ∃ name key, Opens L message s.pq.epoch name key plaintext ∧ after.Holds name key := by
  rcases @decrypt_cases L s message secretKey with
    ⟨e, herr⟩ | ⟨hcheck, hlive, plaintext', staged, hopen⟩
  · rw [herr] at hrun
    cases hrun
  · obtain ⟨name, key, hopens, hstaged, hlast⟩ := openMessage_opens hcheck hopen
    rw [decrypt_run hcheck hlive hopen] at hrun
    split at hrun
    · cases hrun
      refine ⟨name, key, hopens, ?_⟩
      show (adoptActiveReceiveKeys s.pq.activeReceiveKeys staged.cache).get name = some key
      rw [adoptActiveReceiveKeys, OrdMap.get_merge, hstaged]
      cases hget : s.pq.activeReceiveKeys.get name with
      | none => rfl
      | some held =>
        rw [hlast held hget]
        rfl
    · cases hrun

/-- A message that was decrypted leaves the session in its epoch. -/
theorem decrypt_epoch {after : Session} (hrun : (decrypt L message secretKey).run s = .ok plaintext after) :
    after.pq.epoch = s.pq.epoch := by
  rcases @decrypt_cases L s message secretKey with
    ⟨e, herr⟩ | ⟨hcheck, hlive, plaintext', staged, hopen⟩
  · rw [herr] at hrun
    cases hrun
  · rw [decrypt_run hcheck hlive hopen] at hrun
    split at hrun
    · cases hrun
      rfl
    · cases hrun

theorem decrypt_wellFormed {after : Session} (h : s.WellFormed)
    (hrun : (decrypt L message secretKey).run s = .ok plaintext after) : after.WellFormed := by
  have hkept := decrypt_kept (L := L) h message secretKey
  rw [hrun] at hkept
  exact hkept.1

/-! ## Replays -/

/-- A call of `decrypt` that throws and leaves the ratchet, the active receive keys and the
application-message counter as they are. -/
def Rejects (L : LibCrypto) (s : Session) (message : EncryptedSessionMessage) : Prop :=
  ∀ secretKey, ∃ e s', (decrypt L message secretKey).run s = .error e s' ∧ s'.state = s.state ∧
    s'.pq.activeReceiveKeys = s.pq.activeReceiveKeys ∧
    s'.pq.messagesSinceHealing = s.pq.messagesSinceHealing

/-- A session whose counter is at its end and whose ratchet was wiped by an earlier call. -/
structure SpentAndWiped (s : Session) : Prop where
  spent : MAX_SAFE_INTEGER ≤ s.pq.messagesSinceHealing
  wiped : wipeRatchet s.state = s.state

/-- In another epoch than its own a message is refused, whatever else the session is. -/
theorem Opens.rejected {epoch : Nat} (h : Opens L message epoch name key plaintext)
    (hepoch : s.pq.epoch ≠ epoch) : Rejects L s message := by
  intro secretKey
  rcases @decrypt_cases L s message secretKey with
    ⟨e, herr⟩ | ⟨hcheck, -, plaintext', staged, hopen⟩
  · exact ⟨e, s, herr, rfl, rfl, rfl⟩
  · obtain ⟨name', key', hopens, -⟩ := openMessage_opens hcheck hopen
    exact absurd (hopens.epoch_eq h) hepoch

/-- In its epoch, where its key is held, a message is refused only by a session that cannot count
another message and has no ratchet left to wipe. -/
theorem Opens.rejected_iff (h : Opens L message s.pq.epoch name key plaintext) (hs : s.WellFormed)
    (hheld : s.Holds name key) : Rejects L s message ↔ s.SpentAndWiped := by
  have hrun : ∀ secretKey, (decrypt L message secretKey).run s = _ := fun secretKey =>
    decrypt_run h.checks hs.live (h.openMessage hs hheld secretKey)
  constructor
  · intro hrejects
    obtain ⟨e, s', herr, hstate, -⟩ := hrejects fun _ => default
    rw [hrun] at herr
    split at herr
    · cases herr
    · rename_i hcount
      cases herr
      exact ⟨Nat.le_of_not_lt hcount, hstate⟩
  · intro hend secretKey
    have hcount : ¬ s.pq.messagesSinceHealing < MAX_SAFE_INTEGER := Nat.not_lt.mpr hend.spent
    refine ⟨_, _, (hrun secretKey).trans (if_neg hcount), hend.wiped, ?_, rfl⟩
    exact OrdMap.merge_self s.pq.activeReceiveKeys

/-- What a run from a created session reaches is well formed. -/
theorem Created.stored {s₀ : Session} {a : Stored} (h : Created L s₀)
    (hruns : Runs (StoredStep L) ⟨s₀, []⟩ a) : a.session.WellFormed := by
  have hinv : StoredInv (fun _ => True) a := by
    refine Runs.invariant (fun _ _ hinv hstep => hinv.step (fun _ _ _ _ => trivial) (fun _ _ => trivial) hstep)
      ⟨h.wellFormed, trivial, ?_⟩ hruns
    intro snapshot hmem
    cases hmem
  exact hinv.wellFormed

/-- A message that a session decrypted is refused from then on in every other PQ epoch, even after a
restart from a snapshot of before. As long as no such snapshot is restored, it is refused in no other
case: in the epoch of the first decryption the key is still held, and the message decrypts again,
but for a session that has counted its last message and has wiped its ratchet. -/
theorem replay_rejected {s₀ : Session} {before : Stored} {message : EncryptedSessionMessage}
    {secretKey : Nat → RandomBytes 32} {plaintext : Bytes} {after : Session} (hcreated : Created L s₀)
    (hbefore : Runs (StoredStep L) ⟨s₀, []⟩ before)
    (hdecrypt : (decrypt L message secretKey).run before.session = .ok plaintext after) :
    (∀ later : Stored, Runs (StoredStep L) ⟨after, before.snapshots⟩ later →
      later.session.pq.epoch ≠ before.session.pq.epoch → Rejects L later.session message) ∧
    ∀ later : Stored, Runs (StoredStep L) ⟨after, []⟩ later →
      (Rejects L later.session message ↔
        later.session.pq.epoch ≠ before.session.pq.epoch ∨ later.session.SpentAndWiped) := by
  obtain ⟨name, key, hopens, hheld⟩ := decrypt_opens hdecrypt
  refine ⟨fun later _ hepoch => hopens.rejected hepoch, fun later hlater => ?_⟩
  have hafter := decrypt_wellFormed (hcreated.stored hbefore) hdecrypt
  obtain ⟨hwf, hstill⟩ := holds_of_runs hafter hheld rfl hlater
  by_cases hepoch : later.session.pq.epoch = before.session.pq.epoch
  · rw [← hepoch] at hopens
    rw [hopens.rejected_iff hwf hstill]
    exact ⟨Or.inr, fun h => h.resolve_left (not_not_intro hepoch)⟩
  · exact iff_of_true (hopens.rejected hepoch) (Or.inl hepoch)

/-! ## The sample handshake -/

/-- The empty message of the sample handshake, and the reader after it. -/
theorem sample_decrypts : ∃ message sender reader,
    (encrypt LibCrypto.transparent [] sampleRandomness).run (sampleSession LibCrypto.transparent .initiator) =
      .ok message sender ∧
    (decrypt LibCrypto.transparent message fun _ => default).run
      (sampleSession LibCrypto.transparent .responder) = .ok [] reader ∧
    reader.pq.messagesSinceHealing = 1 := by
  obtain ⟨message, _, sender, hencrypt, -, -, hdecrypts⟩ :=
    @Synchronised.roundTrip _ [] _ _ sampleRandomness sample_synchronised LibCrypto.transparent_aeadLaws
      LibCrypto.transparent_dhLaws (Nat.zero_le _) (sample_nonces (by decide)) (sample_canSend _)
      (sample_canSend _).count
  obtain ⟨reader, hdecrypt, hread⟩ := hdecrypts message.frames (List.Perm.refl _) fun _ => default
  exact ⟨message, sender, reader, hencrypt, hdecrypt, hread.counted⟩

/-- The reader of the sample handshake decrypts the empty message twice. -/
theorem replay_decrypts_again : Created LibCrypto.transparent (sampleSession LibCrypto.transparent .responder) ∧
    ∃ message reader again,
      (decrypt LibCrypto.transparent message fun _ => default).run
        (sampleSession LibCrypto.transparent .responder) = .ok [] reader ∧
      (decrypt LibCrypto.transparent message fun _ => default).run reader = .ok [] again ∧
      ¬ Rejects LibCrypto.transparent reader message := by
  have hcreated := sampleSession_created LibCrypto.transparent_dhLaws .responder
  refine ⟨hcreated, ?_⟩
  obtain ⟨message, -, reader, -, hdecrypt, hcount⟩ := sample_decrypts
  obtain ⟨name, key, hopens, hheld⟩ := decrypt_opens hdecrypt
  have hreader := decrypt_wellFormed hcreated.wellFormed hdecrypt
  rw [← decrypt_epoch hdecrypt] at hopens
  have hroom : reader.pq.messagesSinceHealing < MAX_SAFE_INTEGER := by
    rw [hcount]
    decide
  have hagain := decrypt_run hopens.checks hreader.live (hopens.openMessage hreader hheld fun _ => default)
  rw [if_pos hroom] at hagain
  refine ⟨message, reader, _, hdecrypt, hagain, fun hrejects => ?_⟩
  have hspent := ((hopens.rejected_iff hreader hheld).mp hrejects).spent
  exact absurd hroom (Nat.not_lt.mpr hspent)

/-- Right after the first decryption, in the sample handshake. -/
theorem replay_rejected_sample : ∃ message reader,
    (decrypt LibCrypto.transparent message fun _ => default).run
      (sampleSession LibCrypto.transparent .responder) = .ok [] reader ∧
    (Rejects LibCrypto.transparent reader message ↔
      reader.pq.epoch ≠ (sampleSession LibCrypto.transparent .responder).pq.epoch ∨ reader.SpentAndWiped) := by
  obtain ⟨message, -, reader, -, hdecrypt, -⟩ := sample_decrypts
  refine ⟨message, reader, hdecrypt, ?_⟩
  exact (replay_rejected (sampleSession_created LibCrypto.transparent_dhLaws .responder)
    .refl hdecrypt).2 ⟨reader, []⟩ .refl

end Session

end P2Party
