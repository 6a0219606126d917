import P2Party.Messages.CommitOnAuthentication
import P2Party.Session.RoundTrip

/-!
# What honest sessions send, and what a session accepts

Any number of sessions, of any pairs, take any calls with any inputs. Every message they encrypt
is noted. Key pairs are generated fresh, so no two messages have one header; and a frame that
authenticates was sealed by one of the sessions. Then a session decrypts nothing but the messages
of the sessions: all the frames of one of them, each once, under its root. Any other set of frames
is refused, and the session stays as it was.

- `World`, `WorldStep`: the sessions and what they sent;
- `WorldInv`, `worldInv_of_runs`: one header, one message;
- `UnforgedFrames`, `Unforged`: what the AEAD is trusted for, at one call;
- `WorldInv.genuine_of_frame`: a message that decrypts is one that was sent;
- `session_messages`: the round trip and its atomicity.
-/

namespace P2Party

open Base PqHealing PqHealingRuntime

namespace Session

variable {L : LibCrypto}

/-! ## The key pair of a session -/

/-- A state that has kept a key pair and its counter or has one of the new keys. -/
def KeyIn (pub : Bytes) (Ns : Nat) (fresh : Bytes → Prop) (state : RatchetState) : Prop :=
  (state.dhSelfPub = pub ∧ state.Ns = Ns) ∨ fresh state.dhSelfPub

section KeyPair

variable {pub : Bytes} {Ns : Nat} {fresh : Bytes → Prop}

theorem receive_keyIn {state state' : RatchetState} {header : RatchetHeader} {secretKey : Bytes}
    (h : Receive L state header secretKey state') (hkey : KeyIn pub Ns fresh state)
    (hfresh : fresh (L.x25519Base secretKey)) : KeyIn pub Ns fresh state' := by
  cases h with
  | stored => exact hkey
  | current => exact hkey
  | newDh => exact Or.inr hfresh

/-- A chunk leaves the key pair or brings the one generated for it. -/
theorem decryptMessageChunk_keyIn {frame root secretKey : Bytes} {resolver : Option PqMessageKeyContextResolver}
    (hfresh : fresh (L.x25519Base secretKey)) :
    Keeps (fun receiver => KeyIn pub Ns fresh receiver.state)
      (decryptMessageChunk L frame root resolver secretKey) := by
  intro receiver hkey
  show KeyIn pub Ns fresh (afterChunk L receiver frame root resolver secretKey).state
  by_cases hcommits : ∃ parsed cacheK key clone,
      Commits L receiver frame root resolver secretKey parsed cacheK key clone
  · obtain ⟨parsed, cacheK, key, clone, hcommit⟩ := hcommits
    obtain ⟨_, _, -, hrun, -⟩ := hcommit.derives
    rw [afterChunk_commit hcommit]
    exact receive_keyIn (ratchetDecrypt_ok hrun) hkey hfresh
  · rw [afterChunk_keep hcommits]
    exact hkey

theorem decryptFrames_keyIn {resolver : PqMessageKeyContextResolver} {root : Bytes}
    {secretKey : Nat → RandomBytes 32} (hfresh : ∀ k, fresh (L.x25519Base (secretKey k).val))
    (frames : List (Bytes × Nat)) :
    Keeps (fun receiver => KeyIn pub Ns fresh receiver.state)
      (decryptFrames L resolver root secretKey frames) := by
  induction frames with
  | nil => exact fun receiver h => h
  | cons frame frames ih =>
    obtain ⟨frame, k⟩ := frame
    refine Keeps.bind (decryptMessageChunk_keyIn (hfresh k)) fun result => ?_
    split
    · exact Keeps.bind (Keeps.attempt _) fun metadata => Keeps.bind ih fun records => Keeps.pure _
    · exact Keeps.throw _

end KeyPair

/-- A session that still counts on under its key pair, or has a new one. -/
def CountsOn (fresh : Bytes → Prop) (s s' : Session) : Prop :=
  (s'.state.dhSelfPub = s.state.dhSelfPub ∧ s.state.Ns ≤ s'.state.Ns) ∨ fresh s'.state.dhSelfPub

theorem CountsOn.of_state {fresh : Bytes → Prop} {s s' : Session} (h : s'.state = s.state) :
    CountsOn fresh s s' := Or.inl (by rw [h]; exact ⟨rfl, Nat.le_refl _⟩)

variable {s : Session}

theorem encrypt_countsOn {fresh : Bytes → Prop} (h : s.WellFormed) (plaintext : Bytes) (ρ : EncryptRandomness) :
    CountsOn fresh s (finalState ((encrypt L plaintext ρ).run s)) := by
  rcases @encrypt_cases L s plaintext ρ with ⟨e, herr⟩ | ⟨hlive, hfree, hchain, message, next, hseal⟩
  · rw [herr]
    exact CountsOn.of_state rfl
  · have hnext : next.dhSelfPub = s.state.dhSelfPub ∧ s.state.Ns ≤ next.Ns := by
      obtain ⟨_, _, _, -, ⟨chainKey, -, -, rfl⟩, -⟩ := sealMessage_steps h hseal
      exact ⟨rfl, Nat.le_succ _⟩
    rw [encrypt_run hlive hfree hchain hseal]
    split
    · exact Or.inl hnext
    · exact Or.inl hnext

theorem decrypt_countsOn {fresh : Bytes → Prop} (h : s.WellFormed) (message : EncryptedSessionMessage)
    {secretKey : Nat → RandomBytes 32} (hfresh : ∀ k, fresh (L.x25519Base (secretKey k).val)) :
    CountsOn fresh s (finalState ((decrypt L message secretKey).run s)) := by
  rcases @decrypt_cases L s message secretKey with
    ⟨e, herr⟩ | ⟨hcheck, hlive, plaintext, staged, hopen⟩
  · rw [herr]
    exact CountsOn.of_state rfl
  · have hkey : KeyIn s.state.dhSelfPub s.state.Ns fresh staged.state := by
      obtain ⟨parsed, records, -, -, hrun, -⟩ := openMessage_steps hopen
      rw [cloneRatchet_eq h.ratchet.canonical] at hrun
      have hkeeps := @decryptFrames_keyIn L s.state.dhSelfPub s.state.Ns fresh s.resolver message.root secretKey
        hfresh message.frames.zipIdx ⟨s.state, s.pq.activeReceiveKeys⟩ (Or.inl ⟨rfl, rfl⟩)
      rw [hrun] at hkeeps
      exact hkeeps
    have hcounts : CountsOn fresh s { s with state := staged.state } :=
      hkey.imp (fun hsame => ⟨hsame.1, Nat.le_of_eq hsame.2.symm⟩) id
    rw [decrypt_run hcheck hlive hopen]
    split
    · exact hcounts
    · exact hcounts

/-! ## The sessions and what they send -/

/-- A message a session encrypted, with the session as it was. -/
structure Sent where
  session : Session
  plaintext : Bytes
  ρ : EncryptRandomness
  message : EncryptedSessionMessage

/-- Its header. -/
def Sent.header (a : Sent) : RatchetHeader := a.session.state.header

/-- Sessions, what they sent, and every DH public key one of them has had. -/
structure World (ι : Type) where
  session : ι → Session
  sent : List Sent
  held : Bytes → Prop

/-- What a call sends. -/
def Op.sends (L : LibCrypto) (op : Op) (s : Session) : List Sent :=
  match op with
  | .encrypt plaintext ρ =>
    match (Session.encrypt L plaintext ρ).run s with
    | .ok message _ => [⟨s, plaintext, ρ, message⟩]
    | .error _ _ => []
  | _ => []

/-- A call that a program can make: its plaintext is as long as a buffer can be, and a key pair it
generates is new. -/
def Op.Fair (L : LibCrypto) (held : Bytes → Prop) : Op → Prop
  | .encrypt plaintext _ => plaintext.length ≤ MAX_SAFE_INTEGER
  | .decrypt _ secretKey => ∀ k, ¬ held (L.x25519Base (secretKey k).val)
  | _ => True

section World

variable {ι : Type}

/-- Well-formed sessions with key pairs of their own, before any message. -/
structure WorldStart (w : World ι) : Prop where
  wellFormed : ∀ i, (w.session i).WellFormed
  own : ∀ i j, (w.session i).state.dhSelfPub = (w.session j).state.dhSelfPub → i = j
  held : ∀ i, w.held (w.session i).state.dhSelfPub
  silent : w.sent = []

/-- A message in terms of its cells. -/
def Sent.Sealed (L : LibCrypto) (a : Sent) (key : Bytes) (cell : Nat → Bytes) : Prop :=
  SealedAs L a.plaintext a.header a.session.epoch key a.ρ.nonce a.message cell

/-- What holds of the sessions: a key pair belongs to one of them, which has counted past every
message under it, so no two messages have one header. -/
structure WorldInv (L : LibCrypto) (w : World ι) : Prop where
  wellFormed : ∀ i, (w.session i).WellFormed
  own : ∀ i j, (w.session i).state.dhSelfPub = (w.session j).state.dhSelfPub → i = j
  held : ∀ i, w.held (w.session i).state.dhSelfPub
  sealed : ∀ a ∈ w.sent, ∃ key cell, a.Sealed L key cell
  past : ∀ a ∈ w.sent, w.held a.header.dhPub ∧
    ∀ i, (w.session i).state.dhSelfPub = a.header.dhPub → a.header.N < (w.session i).state.Ns
  headers : w.sent.Pairwise fun a b => a.header ≠ b.header

variable {w : World ι}

theorem WorldStart.inv (h : WorldStart w) : WorldInv L w where
  wellFormed := h.wellFormed
  own := h.own
  held := h.held
  sealed a ha := by
    rw [h.silent] at ha
    cases ha
  past a ha := by
    rw [h.silent] at ha
    cases ha
  headers := by
    rw [h.silent]
    exact List.Pairwise.nil

/-- Every call counts on under the session's key pair, or brings a key no session has had. -/
theorem Op.countsOn (h : s.WellFormed) {op : Op} {held : Bytes → Prop} (hfair : op.Fair L held) :
    CountsOn (fun pub => ¬ held pub) s (op.run L s).2 := by
  unfold Op.run
  cases op with
  | encrypt plaintext ρ =>
    rw [outcomeOf_session]
    exact encrypt_countsOn h plaintext ρ
  | decrypt message secretKey =>
    rw [outcomeOf_session]
    exact decrypt_countsOn h message hfair
  | prepareHealing coins nonce due now dispatched =>
    rw [outcomeOf_session]
    rcases @prepareHealing_cases L s h coins nonce due now dispatched with
      ⟨e, herr⟩ | hnone | ⟨pk, sk, -, hrun⟩
    · rw [herr]
      exact CountsOn.of_state rfl
    · rw [hnone]
      exact CountsOn.of_state rfl
    · rw [hrun]
      exact CountsOn.of_state rfl
  | acceptControlFrame frame coins nonce now dispatched =>
    rw [outcomeOf_session]
    rcases @acceptControlFrame_cases L s h frame coins nonce now dispatched with
      ⟨e, r, -, herr⟩ | ⟨result, r, -, hrun⟩
    · rw [herr]
      exact CountsOn.of_state rfl
    · rw [hrun]
      exact CountsOn.of_state rfl
  | pendingControl =>
    rw [outcomeOf_session, pendingControl_run h]
    exact CountsOn.of_state rfl
  | serialize =>
    rw [outcomeOf_session, serialize_kept h]
    exact CountsOn.of_state rfl

/-- What a call sends is one message or none, sealed from the session's next header, and the
session has counted it. -/
theorem Op.sends_cases (h : s.WellFormed) {op : Op} {held : Bytes → Prop} (hfair : op.Fair L held) :
    op.sends L s = [] ∨ ∃ a key cell, op.sends L s = [a] ∧ a.header = s.state.header ∧
      a.Sealed L key cell ∧
      (op.run L s).2.state.dhSelfPub = s.state.dhSelfPub ∧ (op.run L s).2.state.Ns = s.state.Ns + 1 := by
  cases op with
  | encrypt plaintext ρ =>
    rcases @encrypt_cases L s plaintext ρ with ⟨e, herr⟩ | ⟨hlive, hfree, hchain, message, next, hseal⟩
    · refine Or.inl ?_
      simp only [Op.sends, herr]
    · have hrun := encrypt_run hlive hfree hchain hseal
      by_cases hcount : s.pq.messagesSinceHealing < MAX_SAFE_INTEGER
      · rw [if_pos hcount] at hrun
        obtain ⟨messageKey, cell, hsent, hsealed⟩ := sealMessage_sealed h hfair hseal
        obtain ⟨chainKey, -, -, rfl⟩ := hsent.step
        refine Or.inr ⟨⟨s, plaintext, ρ, message⟩, _, cell, ?_, rfl, hsealed, ?_, ?_⟩
        · simp only [Op.sends, hrun]
        · simp only [Op.run, hrun, outcomeOf]
          rfl
        · simp only [Op.run, hrun, outcomeOf]
          rfl
      · rw [if_neg hcount] at hrun
        refine Or.inl ?_
        simp only [Op.sends, hrun]
  | decrypt message secretKey => exact Or.inl rfl
  | prepareHealing coins nonce due now dispatched => exact Or.inl rfl
  | acceptControlFrame frame coins nonce now dispatched => exact Or.inl rfl
  | pendingControl => exact Or.inl rfl
  | serialize => exact Or.inl rfl

variable {i : ι} {op : Op}

/-- A key that another session has is not the one a session has after a call. -/
theorem WorldInv.own_call (h : WorldInv L w) (hfair : op.Fair L w.held) {j : ι} (hj : j ≠ i) :
    (op.run L (w.session i)).2.state.dhSelfPub ≠ (w.session j).state.dhSelfPub := by
  intro hsame
  rcases op.countsOn (h.wellFormed i) hfair with ⟨hpub, -⟩ | hnew
  · exact hj (h.own i j (hpub.symm.trans hsame)).symm
  · exact hnew (by rw [hsame]; exact h.held j)

/-- A session stays past the messages under its key. -/
theorem WorldInv.past_call (h : WorldInv L w) (hfair : op.Fair L w.held) {a : Sent} (ha : a ∈ w.sent)
    (hkey : (op.run L (w.session i)).2.state.dhSelfPub = a.header.dhPub) :
    a.header.N < (op.run L (w.session i)).2.state.Ns := by
  obtain ⟨hheld, hpast⟩ := h.past a ha
  rcases op.countsOn (h.wellFormed i) hfair with ⟨hpub, hNs⟩ | hnew
  · exact Nat.lt_of_lt_of_le (hpast i (hpub.symm.trans hkey)) hNs
  · exact absurd (by rw [hkey]; exact hheld) hnew

variable [DecidableEq ι]

/-- Session `i` makes a call. -/
def World.call (L : LibCrypto) (w : World ι) (i : ι) (op : Op) : World ι where
  session := Function.update w.session i (op.run L (w.session i)).2
  sent := op.sends L (w.session i) ++ w.sent
  held := fun pub => w.held pub ∨ pub = (op.run L (w.session i)).2.state.dhSelfPub

/-- One fair call of any session. -/
inductive WorldStep (L : LibCrypto) : World ι → World ι → Prop
  | call (w : World ι) (i : ι) {op : Op} (hfair : op.Fair L w.held) : WorldStep L w (w.call L i op)

theorem session_call_self : (w.call L i op).session i = (op.run L (w.session i)).2 :=
  Function.update_self ..

theorem session_call_other {j : ι} (h : j ≠ i) : (w.call L i op).session j = w.session j :=
  Function.update_of_ne h ..

theorem WorldInv.call (h : WorldInv L w) (hfair : op.Fair L w.held) : WorldInv L (w.call L i op) := by
  have hkeys : ∀ j, j ≠ i → ((w.call L i op).session i).state.dhSelfPub ≠
      ((w.call L i op).session j).state.dhSelfPub := by
    intro j hj
    rw [session_call_self, session_call_other hj]
    exact h.own_call hfair hj
  constructor
  case wellFormed =>
    intro j
    by_cases hj : j = i
    · subst hj
      rw [session_call_self]
      exact (op.keeps (h.wellFormed j)).1
    · rw [session_call_other hj]
      exact h.wellFormed j
  case own =>
    intro j k hjk
    by_cases hj : j = i
    · by_cases hk : k = i
      · rw [hj, hk]
      · exact absurd (hj ▸ hjk) (hkeys k hk)
    · by_cases hk : k = i
      · exact absurd (hk ▸ hjk).symm (hkeys j hj)
      · rw [session_call_other hj, session_call_other hk] at hjk
        exact h.own j k hjk
  case held =>
    intro j
    by_cases hj : j = i
    · subst hj
      rw [session_call_self]
      exact Or.inr rfl
    · rw [session_call_other hj]
      exact Or.inl (h.held j)
  case sealed =>
    intro a ha
    rcases List.mem_append.mp ha with hnew | hold
    · rcases op.sends_cases (h.wellFormed i) hfair with hnone | ⟨b, key, cell, hone, -, hsealed, -⟩
      · rw [hnone] at hnew
        cases hnew
      · rw [hone, List.mem_singleton] at hnew
        subst hnew
        exact ⟨key, cell, hsealed⟩
    · exact h.sealed a hold
  case past =>
    intro a ha
    rcases List.mem_append.mp ha with hnew | hold
    · rcases op.sends_cases (h.wellFormed i) hfair with hnone | ⟨b, _, _, hone, hheader, -, hpub, hNs⟩
      · rw [hnone] at hnew
        cases hnew
      · rw [hone, List.mem_singleton] at hnew
        subst hnew
        have hdhPub : a.header.dhPub = (w.session i).state.dhSelfPub := by rw [hheader]; rfl
        refine ⟨Or.inl (by rw [hdhPub]; exact h.held i), fun j hj => ?_⟩
        by_cases hji : j = i
        · subst hji
          rw [session_call_self, hNs, hheader]
          exact Nat.lt_succ_self _
        · rw [session_call_other hji, hdhPub] at hj
          exact absurd (h.own j i hj) hji
    · refine ⟨Or.inl (h.past a hold).1, fun j hj => ?_⟩
      by_cases hji : j = i
      · subst hji
        rw [session_call_self] at hj ⊢
        exact h.past_call hfair hold hj
      · rw [session_call_other hji] at hj ⊢
        exact (h.past a hold).2 j hj
  case headers =>
    show (op.sends L (w.session i) ++ w.sent).Pairwise _
    rcases op.sends_cases (h.wellFormed i) hfair with hnone | ⟨a, _, _, hone, hheader, -⟩
    · rw [hnone]
      exact h.headers
    · rw [hone, List.singleton_append, List.pairwise_cons]
      refine ⟨fun b hb hsame => ?_, h.headers⟩
      have hbehind := (h.past b hb).2 i (by rw [← hsame, hheader]; rfl)
      rw [← hsame, hheader] at hbehind
      exact absurd hbehind (Nat.lt_irrefl _)

/-- Every state the sessions reach is as the invariant says. -/
theorem worldInv_of_runs {w' : World ι} (h : WorldStart w) (hruns : Runs (WorldStep L) w w') : WorldInv L w' :=
  Runs.invariant (fun _ _ hinv hstep => by
    cases hstep with
    | call i hfair => exact hinv.call hfair) h.inv hruns

end World

/-! ## What authenticates was sealed -/

/-- The key a receiver tries on a frame (messageChunkCrypto.ts:349-407): the one it has cached for
the frame's header and epoch, or the one it derives. -/
def triedKey (L : LibCrypto) (receiver : ChunkReceiver) (frame : Bytes)
    (resolver : Option PqMessageKeyContextResolver) (secretKey : Bytes) : Option Bytes :=
  match parseChunkFrameHeader frame with
  | .error _ => none
  | .ok parsed =>
    match gateEpoch resolver parsed.pqEpoch receiver.state.rootSuite with
    | none => none
    | some pqContext =>
      match messageCacheKey parsed.header.dhPub parsed.header.N
          (if resolver.isSome then some parsed.pqEpoch else none) with
      | .error _ => none
      | .ok cacheK => (receiver.cache.get cacheK).or
          ((deriveMessageKey L receiver.state parsed.header pqContext secretKey).map Prod.fst)

/-- A frame has the nonce, the associated data and the ciphertext of chunk `i` of a sent message,
sealed under the key. -/
structure IsChunk (L : LibCrypto) (a : Sent) (i : Nat) (root frame key : Bytes) (cell : Nat → Bytes) : Prop where
  sealed : a.Sealed L key cell
  lt : i < chunkCount a.plaintext.length
  nonce : frameNonce frame = (a.ρ.nonce i).val
  aad : frameAad root frame = chunkAad a.message.root a.header a.session.epoch
  ciphertext : frameCiphertext frame =
    L.aeadSeal key (a.ρ.nonce i).val (chunkAad a.message.root a.header a.session.epoch) (cell i)

/-- What the AEAD is trusted for while a receiver goes through frames: a frame that authenticates
under the key the receiver tries on it was sealed under that key. -/
def UnforgedFrames (L : LibCrypto) (sent : List Sent) (resolver : PqMessageKeyContextResolver) (root : Bytes)
    (secretKey : Nat → RandomBytes 32) : List (Bytes × Nat) → ChunkReceiver → Prop
  | [], _ => True
  | (frame, k) :: rest, receiver =>
    (∀ key ∈ triedKey L receiver frame (some resolver) (secretKey k).val,
      L.aeadOpen key (frameNonce frame) (frameAad root frame) (frameCiphertext frame) ≠ none →
        ∃ a ∈ sent, ∃ i cell, IsChunk L a i root frame key cell) ∧
    UnforgedFrames L sent resolver root secretKey rest
      (afterChunk L receiver frame root (some resolver) (secretKey k).val)

/-- The same for one call of `decrypt`. -/
def Unforged (L : LibCrypto) (sent : List Sent) (r : Session) (message : EncryptedSessionMessage)
    (secretKey : Nat → RandomBytes 32) : Prop :=
  UnforgedFrames L sent r.resolver message.root secretKey message.frames.zipIdx
    ⟨cloneRatchet r.state, r.pq.activeReceiveKeys⟩

section Opened

variable {receiver receiver' : ChunkReceiver} {root frame key : Bytes} {sent : List Sent}

/-- What the C function returns is an opened cell with the receiver's note in it. -/
theorem receiveWithKey_ok {decrypted : Bytes} (h : receiveWithKey L frame root key = .ok decrypted) :
    ∃ cell, L.aeadOpen key (frameNonce frame) (frameAad root frame) (frameCiphertext frame) = some cell ∧
      decrypted = withReceipt L cell := by
  unfold receiveWithKey receiveMessageWithKey at h
  dsimp only at h
  split at h
  case h_1 => cases h
  case h_2 cell hopen =>
    split at h
    · cases h
    · split at h
      · cases h
      · cases h
        exact ⟨cell, hopen, rfl⟩

/-- A chunk that was received authenticated under the key that was tried on it. -/
theorem decryptMessageChunk_tried {resolver : Option PqMessageKeyContextResolver} {secretKey : Bytes}
    {result : DecryptedChunk} {decrypted : Bytes}
    (h : (decryptMessageChunk L frame root resolver secretKey).run receiver = .ok result receiver')
    (hresult : result.decrypted = some decrypted) :
    ∃ key, triedKey L receiver frame resolver secretKey = some key ∧
      receiveWithKey L frame root key = .ok decrypted := by
  unfold decryptMessageChunk at h
  obtain ⟨-, h⟩ := ensure_bind_eq_ok.mp h
  obtain ⟨parsed, hparse, h⟩ := attempt_bind_eq_ok.mp h
  rw [run_get_bind] at h
  unfold triedKey
  rw [hparse]
  dsimp only
  cases hgate : gateEpoch resolver parsed.pqEpoch receiver.state.rootSuite with
  | none =>
    rw [hgate] at h
    cases h
    cases hresult
  | some pqContext =>
    simp only [hgate] at h
    obtain ⟨cacheK, hkey, h⟩ := attempt_bind_eq_ok.mp h
    rw [hkey]
    dsimp only
    cases hcached : receiver.cache.get cacheK with
    | some cached =>
      rw [hcached] at h
      cases h
      exact ⟨cached, rfl, receivedChunk_decrypted hresult⟩
    | none =>
      simp only [hcached] at h
      cases hderive : deriveMessageKey L receiver.state parsed.header pqContext secretKey with
      | none =>
        rw [hderive] at h
        cases h
        cases hresult
      | some derived =>
        obtain ⟨messageKey, clone⟩ := derived
        simp only [hderive] at h
        rw [run_ite] at h
        split at h
        · cases h
          cases hresult
        · cases h
          exact ⟨messageKey, rfl, receivedChunk_decrypted hresult⟩

/-- The metadata an opened chunk of a sent message gives back. -/
theorem IsChunk.metadata (haead : L.AeadLaws) {a : Sent} {i : Nat} {cell : Nat → Bytes}
    (h : IsChunk L a i root frame key cell) {decrypted : Bytes}
    (hreceived : receiveWithKey L frame root key = .ok decrypted) :
    deserializeMetadata (decrypted.take METADATA_LEN) =
      .ok (sessionMetadata (L.sha512 a.plaintext) a.plaintext.length i) := by
  obtain ⟨opened, hopen, rfl⟩ := receiveWithKey_ok hreceived
  rw [h.nonce, h.aad, h.ciphertext, haead.open_seal] at hopen
  obtain rfl := Option.some.inj hopen
  exact h.sealed.metadata i h.lt

/-- Every frame of a message that was read is a chunk of a sent message, with that message's
metadata. -/
theorem decryptFrames_chunks (haead : L.AeadLaws) {resolver : PqMessageKeyContextResolver}
    {secretKey : Nat → RandomBytes 32} {frames : List (Bytes × Nat)} {records : List DecryptedRecord}
    (hunforged : UnforgedFrames L sent resolver root secretKey frames receiver)
    (h : (decryptFrames L resolver root secretKey frames).run receiver = .ok records receiver') :
    List.Forall₂ (fun p record => ∃ a ∈ sent, ∃ i key cell, IsChunk L a i root p.1 key cell ∧
      record.metadata = sessionMetadata (L.sha512 a.plaintext) a.plaintext.length i) frames records := by
  induction frames generalizing receiver records with
  | nil =>
    cases h
    exact List.Forall₂.nil
  | cons p frames ih =>
    obtain ⟨frame, k⟩ := p
    obtain ⟨hone, hrest⟩ := hunforged
    rw [decryptFrames] at h
    obtain ⟨result, mid, hrun, h⟩ := bind_eq_ok.mp h
    have hmid : mid = afterChunk L receiver frame root (some resolver) (secretKey k).val := by
      rw [afterChunk, hrun]
      rfl
    split at h
    case h_1 decrypted _ hdecrypted =>
      obtain ⟨metadata, hmetadata, h⟩ := attempt_bind_eq_ok.mp h
      obtain ⟨others, last, hothers, h⟩ := bind_eq_ok.mp h
      cases h
      obtain ⟨key, htried, hreceived⟩ := decryptMessageChunk_tried hrun hdecrypted
      obtain ⟨opened, hopen, -⟩ := receiveWithKey_ok hreceived
      obtain ⟨a, ha, i, cell, hchunk⟩ := hone key htried (by rw [hopen]; exact Option.some_ne_none _)
      refine List.Forall₂.cons ⟨a, ha, i, key, cell, hchunk, ?_⟩ (ih (hmid ▸ hrest) hothers)
      exact Except.ok.inj (hmetadata.symm.trans (hchunk.metadata haead hreceived))
    case h_2 => cases h

end Opened

/-! ## A message that decrypts was sent -/

/-- A frame is its header without the nonce, its nonce and its ciphertext. -/
theorem frame_parts {frame root : Bytes} (h : frame.length = WIRE_CHUNK_FRAME_LEN) :
    frameAad root frame ++ (frameNonce frame ++ frameCiphertext frame) = root ++ frame := by
  have hlong : frame.length ≤ MESSAGE_LEN := by
    rw [h]
    decide
  have hpad : LibCrypto.pad MESSAGE_LEN frame = frame ++ List.replicate (MESSAGE_LEN - frame.length) 0 := by
    rw [LibCrypto.pad, List.take_append, List.take_of_length_le hlong, List.take_replicate,
      Nat.min_eq_left (Nat.sub_le _ _)]
  have hheader : CHUNK_AAD_HEADER_LEN ≤ frame.length := by
    rw [h]
    decide
  have hnonce : RATCHET_NONCE_LEN ≤ (frame.drop CHUNK_AAD_HEADER_LEN).length := by
    rw [List.length_drop, h]
    decide
  have hciphertext : ((frame.drop CHUNK_AAD_HEADER_LEN).drop RATCHET_NONCE_LEN).length = DECRYPTED_LEN + 16 := by
    rw [List.length_drop, List.length_drop, h]
    rfl
  have hrest : frameNonce frame ++ frameCiphertext frame = frame.drop CHUNK_AAD_HEADER_LEN := by
    unfold frameNonce frameCiphertext slice
    rw [hpad, List.drop_append_of_le_length hheader, List.take_append_of_le_length hnonce,
      show CHUNK_FRAME_HEADER_LEN = CHUNK_AAD_HEADER_LEN + RATCHET_NONCE_LEN from rfl, ← List.drop_drop,
      List.drop_append_of_le_length hheader, List.drop_append_of_le_length hnonce,
      List.take_left' hciphertext, List.take_append_drop]
  unfold frameAad
  rw [hrest, hpad, List.take_append_of_le_length hheader, List.append_assoc, List.take_append_drop]

/-- A frame of a sent message's chunk is that message's frame, under its root. -/
theorem IsChunk.frame_eq {a : Sent} {i : Nat} {root frame key : Bytes} {cell : Nat → Bytes}
    (h : IsChunk L a i root frame key cell) (hroot : root.length = HASH_BYTES)
    (hframe : frame.length = WIRE_CHUNK_FRAME_LEN) :
    root = a.message.root ∧ a.message.frames[i]? = some frame := by
  have hsealed := h.sealed
  have hparts : frameAad root frame ++ (frameNonce frame ++ frameCiphertext frame) = root ++ frame :=
    frame_parts hframe
  have hseals : chunkAad a.message.root a.header a.session.epoch ++ ((a.ρ.nonce i).val ++
      L.aeadSeal key (a.ρ.nonce i).val (chunkAad a.message.root a.header a.session.epoch) (cell i)) =
      a.message.root ++ sealedChunk L key a.header a.session.epoch (cell i) a.message.root (a.ρ.nonce i) := by
    simp [chunkAad, sealedChunk, chunkHeader]
  rw [h.aad, h.nonce, h.ciphertext, hseals] at hparts
  obtain ⟨hsame, hbytes⟩ := List.append_inj hparts (hsealed.rootLength.trans hroot.symm)
  refine ⟨hsame.symm, ?_⟩
  rw [hsealed.frames, List.getElem?_map, List.getElem?_range h.lt, ← hbytes]
  rfl

/-- A message with the frames of a sent one, in some order, under its root. -/
def Genuine (sent : List Sent) (message : EncryptedSessionMessage) : Prop :=
  ∃ a ∈ sent, message.root = a.message.root ∧ message.frames.Perm a.message.frames

variable {ι : Type} {w : World ι}

/-- One header, one message. -/
theorem WorldInv.eq_of_header (h : WorldInv L w) {a b : Sent} (ha : a ∈ w.sent) (hb : b ∈ w.sent)
    (hheader : a.header = b.header) : a = b := by
  have hnodup : (w.sent.map Sent.header).Nodup := List.pairwise_map.mpr h.headers
  exact List.inj_on_of_nodup_map hnodup ha hb hheader

/-- A frame of a sent message parses to that message's header. -/
theorem Sent.Sealed.parses {a : Sent} {key frame : Bytes} {cell : Nat → Bytes} (h : a.Sealed L key cell)
    (hframe : frame ∈ a.message.frames) : ∃ nonce ciphertext,
      parseChunkFrameHeader frame = .ok ⟨a.header, a.session.epoch, nonce, ciphertext⟩ := by
  rw [h.frames] at hframe
  obtain ⟨i, -, rfl⟩ := List.mem_map.mp hframe
  exact ⟨_, _, parse_sealedChunk h.fits⟩

/-- Headers that the check finds the same are the same. -/
theorem eq_of_sameRatchetHeader {left right : RatchetHeader} (h : sameRatchetHeader left right = true) :
    left = right := by
  unfold sameRatchetHeader at h
  simp only [Bool.and_eq_true, beq_iff_eq] at h
  obtain ⟨⟨hN, hPN⟩, hpub⟩ := h
  cases left
  cases right
  simp_all

/-- Records that were joined are as many as the first of them says. -/
theorem length_of_joined {record : DecryptedRecord} {records : List DecryptedRecord} {plaintext : Bytes}
    (h : validateAndJoinRecords L (record :: records) = .ok plaintext) :
    (record :: records).length = chunkCount record.metadata.totalSize := by
  unfold validateAndJoinRecords at h
  dsimp only at h
  obtain ⟨_, -, h⟩ := except_bind_eq_ok.mp h
  obtain ⟨_, hlength, -⟩ := except_bind_eq_ok.mp h
  exact demand_eq_ok.mp hlength

/-- A message that opens is a sent one. -/
theorem openMessage_genuine (hinv : WorldInv L w) (haead : L.AeadLaws) {r : Session}
    {message : EncryptedSessionMessage} {secretKey : Nat → RandomBytes 32} {plaintext : Bytes}
    {staged : ChunkReceiver} (hunforged : Unforged L w.sent r message secretKey)
    (hcheck : checkMessage message = .ok ())
    (hopen : openMessage L r message secretKey = .ok (plaintext, staged)) : Genuine w.sent message := by
  unfold checkMessage requireBytes at hcheck
  simp only [except_bind_eq_ok, demand_eq_ok, exists_const] at hcheck
  obtain ⟨-, hroot, hne, hlengths⟩ := hcheck
  obtain ⟨parsed, records, hparsed, hheaders, hrun, hjoin⟩ := openMessage_steps hopen
  unfold checkHeaders at hheaders
  simp only [except_bind_eq_ok, demand_eq_ok, exists_const] at hheaders
  obtain ⟨hsame, hnonces⟩ := hheaders
  have hchunks := decryptFrames_chunks haead hunforged hrun
  have hcount := hchunks.length_eq
  rw [List.length_zipIdx] at hcount
  -- every frame is a frame of a sent message, under its root
  have hfrom : ∀ frame ∈ message.frames, ∃ b ∈ w.sent, message.root = b.message.root ∧
      frame ∈ b.message.frames := by
    have hsealed : ∀ p ∈ message.frames.zipIdx, ∃ b ∈ w.sent, ∃ i key cell,
        IsChunk L b i message.root p.1 key cell := by
      refine (List.forall₂_and_left (R := fun _ _ => True) _ _ |>.mp (hchunks.imp fun p record h => ?_)).1
      obtain ⟨b, hb, i, key, cell, hchunk, -⟩ := h
      exact ⟨⟨b, hb, i, key, cell, hchunk⟩, trivial⟩
    intro frame hframe
    obtain ⟨k, hk⟩ := List.mem_iff_getElem?.mp hframe
    obtain ⟨b, hb, i, key, cell, hchunk⟩ := hsealed (frame, k) (List.mem_zipIdx_iff_getElem?.mpr hk)
    obtain ⟨hbroot, hget⟩ := hchunk.frame_eq hroot (hlengths frame hframe)
    exact ⟨b, hb, hbroot, List.mem_of_getElem? hget⟩
  have hparse := mapM_eq_ok hparsed
  -- the first frame names the message
  obtain ⟨frame₀, rest, hframes⟩ := List.exists_cons_of_ne_nil hne
  rw [hframes] at hchunks hcount hparse
  rw [List.zipIdx_cons] at hchunks
  obtain ⟨record, others, ⟨a, ha, i, key, cell, hchunk, hmetadata⟩, -, rfl⟩ :=
    List.forall₂_cons_left_iff.mp hchunks
  obtain ⟨haroot, hget⟩ := hchunk.frame_eq hroot (hlengths frame₀ (hframes ▸ List.mem_cons_self))
  have hsize := length_of_joined hjoin
  rw [hmetadata, ← hcount] at hsize
  obtain ⟨p₀, ps, rfl, hp₀, -⟩ := List.map_eq_cons_iff.mp hparse.symm
  have hsub : ∀ frame ∈ message.frames, frame ∈ a.message.frames := by
    intro frame hframe
    obtain ⟨b, hb, -, hmem⟩ := hfrom frame hframe
    obtain ⟨p, hp, hparses⟩ := mapM_isOk hparsed hframe
    obtain ⟨key', cell', hbsealed⟩ := hinv.sealed b hb
    obtain ⟨nonce, ciphertext, hbparses⟩ := hbsealed.parses hmem
    obtain ⟨nonce₀, ciphertext₀, haparses⟩ := hchunk.sealed.parses (List.mem_of_getElem? hget)
    have hheader : p₀.header = p.header := eq_of_sameRatchetHeader (hsame p hp p₀ rfl)
    obtain rfl := Except.ok.inj (hparses.symm.trans hbparses)
    obtain rfl := Except.ok.inj (hp₀.trans haparses)
    rw [hinv.eq_of_header ha hb hheader]
    exact hmem
  have hnodup : message.frames.Nodup := by
    have hparsedNodup : ((p₀ :: ps).map (Except.ok (ε := JsError))).Nodup :=
      hnonces.of_map.map fun p q hpq => Except.ok.inj hpq
    rw [← hparse] at hparsedNodup
    rw [hframes]
    exact hparsedNodup.of_map
  have hlength : a.message.frames.length ≤ message.frames.length := by
    rw [hchunk.sealed.frames, List.length_map, List.length_range, hframes]
    exact Nat.le_of_eq hsize.symm
  exact ⟨a, ha, haroot, (List.subperm_of_subset hnodup hsub).perm_of_length_le hlength⟩

/-- A message that shares a frame with a sent one is that one, or is not one of the sessions'. -/
theorem WorldInv.genuine_of_frame (h : WorldInv L w) {a : Sent} (ha : a ∈ w.sent)
    {message : EncryptedSessionMessage} {frame : Bytes} (hframe : frame ∈ message.frames)
    (hof : frame ∈ a.message.frames) (hgenuine : Genuine w.sent message) :
    message.root = a.message.root ∧ message.frames.Perm a.message.frames := by
  obtain ⟨b, hb, hroot, hperm⟩ := hgenuine
  obtain ⟨key, cell, hsealed⟩ := h.sealed a ha
  obtain ⟨key', cell', hsealed'⟩ := h.sealed b hb
  obtain ⟨nonce, ciphertext, hparse⟩ := hsealed.parses hof
  obtain ⟨nonce', ciphertext', hparse'⟩ := hsealed'.parses (hperm.mem_iff.mp hframe)
  have hheader : a.header = b.header :=
    congrArg ParsedChunkFrame.header (Except.ok.inj (hparse.symm.trans hparse'))
  rw [h.eq_of_header ha hb hheader]
  exact ⟨hroot, hperm⟩

/-- Synchronised sessions agree on every message, with its frames in any order. Whatever any
sessions have sent, a session decrypts nothing but a message of theirs with all its frames under its
root, and is left as it was by everything else; and frames of one message are no other message. -/
theorem session_messages (haead : L.AeadLaws) (hdh : L.DhLaws) :
    (∀ (s r : Session) (plaintext : Bytes) (ρ : EncryptRandomness), Synchronised L s r →
      plaintext.length ≤ MAX_SAFE_INTEGER → NoncesDistinct plaintext ρ.nonce → s.CanSend → r.CanCount →
      ∃ message messageKey s', (encrypt L plaintext ρ).run s = .ok message s' ∧
        RatchetSent L s.state s'.state messageKey ∧
        s'.pq.messagesSinceHealing = s.pq.messagesSinceHealing + 1 ∧
        ∀ frames, frames.Perm message.frames → ∀ secretKey, ∃ r',
          (decrypt L { message with frames } secretKey).run r = .ok plaintext r' ∧
          ReadBack L s s' r r' (secretKey 0).val) ∧
    (∀ (ι : Type) [DecidableEq ι] (w₀ w : World ι), WorldStart w₀ → Runs (WorldStep L) w₀ w →
      (∀ (r : Session) (message : EncryptedSessionMessage) (secretKey : Nat → RandomBytes 32),
        Unforged L w.sent r message secretKey → ¬ Genuine w.sent message →
        ∃ e, (decrypt L message secretKey).run r = .error e r) ∧
      ∀ a ∈ w.sent, ∀ (message : EncryptedSessionMessage) (frame : Bytes), frame ∈ message.frames →
        frame ∈ a.message.frames → Genuine w.sent message →
        message.root = a.message.root ∧ message.frames.Perm a.message.frames) := by
  constructor
  · intro s r plaintext ρ hsync hsize hnonces hsend hcount
    exact hsync.roundTrip haead hdh hsize hnonces hsend hcount
  · intro ι _ w₀ w hstart hruns
    have hinv := worldInv_of_runs hstart hruns
    refine ⟨fun r message secretKey hunforged hother => ?_, fun a ha message frame hframe hof hgenuine =>
      hinv.genuine_of_frame ha hframe hof hgenuine⟩
    rcases @decrypt_cases L r message secretKey with herr | ⟨hcheck, -, plaintext, staged, hopen⟩
    · exact herr
    · exact absurd (openMessage_genuine hinv haead hunforged hcheck hopen) hother

/-! ## The sample handshake -/

/-- The sessions of the sample handshake are synchronised. -/
theorem sample_synchronised :
    Synchronised .transparent (sampleSession .transparent .initiator) (sampleSession .transparent .responder) :=
  have hdh := LibCrypto.transparent_dhLaws
  have hnew : LibCrypto.transparent.x25519Base (sampleSecret 2) ≠
      LibCrypto.transparent.x25519Base (sampleSecret 3) := by decide
  { left := (sampleSession_created hdh .initiator).wellFormed
    right := (sampleSession_created hdh .responder).wellFormed
    inStep := Or.inr {
      behindPub := rfl
      aheadPub := rfl
      known := rfl
      unknown := fun h => hnew (Option.some.inj h)
      rung := ⟨sampleShared _ 3 1, (hdh.commutes _ _).trans (sampleShared_eq hdh 3 1), rfl, rfl⟩
      silent := rfl
      chain := ⟨_, rfl, rfl⟩
      count := rfl
      previous := rfl
      unread := fun _ _ => rfl
      unseen := fun _ => rfl }
    context := rfl
    leftFree := rfl
    rightFree := rfl
    leftUnread := fun _ _ _ => rfl
    rightUnread := fun _ _ _ => rfl }

/-- Random bytes that are all zero, but for the number of the chunk in its nonce. -/
def sampleRandomness : EncryptRandomness where
  chunk := fun _ => default
  proof := fun _ => default
  nonce := fun i => ⟨UInt8.ofNat i :: List.replicate 11 0, rfl⟩

theorem sample_nonces {plaintext : Bytes} (h : chunkCount plaintext.length ≤ 256) :
    NoncesDistinct plaintext sampleRandomness.nonce := by
  intro i hi j hj hij
  have hfirst : UInt8.ofNat i = UInt8.ofNat j := (List.cons.inj (congrArg Subtype.val hij)).1
  have hnumbers := congrArg UInt8.toNat hfirst
  rwa [UInt8.toNat_ofNat_of_lt' (Nat.lt_of_lt_of_le hi h),
    UInt8.toNat_ofNat_of_lt' (Nat.lt_of_lt_of_le hj h)] at hnumbers

/-- No counter of the sample handshake is near its end. -/
theorem sample_canSend (r : Role) : (sampleSession .transparent r).CanSend := by
  have hroom : 0 < MAX_SAFE_INTEGER := by decide
  cases r <;> exact ⟨Nat.zero_le _, Nat.zero_le _, hroom⟩

/-- The initiator has sent two messages. -/
theorem sample_sent : ∃ s, Runs (Step .transparent) (sampleSession .transparent .initiator) s ∧
    s.pq.messagesSinceHealing = 2 ∧ s.SnapshotFits := by
  have hwf := (sampleSession_created LibCrypto.transparent_dhLaws .initiator).wellFormed
  obtain ⟨_, _, hfirst, -⟩ := @WellFormed.encrypts _ [] _ hwf rfl (sample_canSend _) (Nat.zero_le _) _ _
    ⟨_, rfl, rfl, rfl⟩ sampleRandomness
  have hstep : ∀ {s s' : Session} {message : EncryptedSessionMessage},
      (encrypt .transparent [] sampleRandomness).run s = .ok message s' → Step .transparent s s' :=
    fun hrun => ⟨.encrypt [] sampleRandomness, by rw [Op.run, hrun]; rfl⟩
  have hone := hstep hfirst
  have hroom : 1 < MAX_SAFE_INTEGER := by decide
  obtain ⟨_, _, hsecond, -⟩ := @WellFormed.encrypts _ [] _ (wellFormed_of_runs hwf (.single hone)) rfl
    ⟨Nat.le_of_lt hroom, Nat.zero_le _, hroom⟩ (Nat.zero_le _) _ _ ⟨_, rfl, rfl, rfl⟩ sampleRandomness
  exact ⟨_, (Relation.ReflTransGen.single hone).tail (hstep hsecond), rfl, hroom, Nat.zero_le _, Nat.zero_le _, Nat.zero_le _⟩

/-- Nobody forges a frame of a message that was sealed with the transparent AEAD. -/
theorem Sent.Sealed.unforged {a : Sent} {key : Bytes} {cell : Nat → Bytes} (h : a.Sealed .transparent key cell)
    {sent : List Sent} (ha : a ∈ sent) (resolver : PqMessageKeyContextResolver)
    (secretKey : Nat → RandomBytes 32) {frames : List (Bytes × Nat)}
    (hframes : ∀ p ∈ frames, p.1 ∈ a.message.frames) (receiver : ChunkReceiver) :
    UnforgedFrames .transparent sent resolver a.message.root secretKey frames receiver := by
  induction frames generalizing receiver with
  | nil => trivial
  | cons p frames ih =>
    obtain ⟨frame, k⟩ := p
    refine ⟨fun key' _ hopen => ?_, ih (fun p hp => hframes p (List.mem_cons_of_mem _ hp)) _⟩
    have hmem : frame ∈ a.message.frames := hframes _ List.mem_cons_self
    rw [h.frames] at hmem
    obtain ⟨i, hi, rfl⟩ := List.mem_map.mp hmem
    have hlt := List.mem_range.mp hi
    obtain ⟨hnonce, haad, hciphertext⟩ := @sealedChunk_parts .transparent a.header a.session.epoch
      (a.ρ.nonce i) a.message.root (cell i) key h.fits.dhPub (h.proves i hlt).length
    rw [hnonce, haad, hciphertext] at hopen
    have hsame := LibCrypto.transparent_seal_eq hopen
    -- a key that opens it seals the whole message alike
    have hsealed : a.Sealed .transparent key' cell := by
      refine { h with frames := h.frames.trans (List.map_congr_left fun j _ => ?_) }
      unfold sealedChunk
      rw [hsame]
    exact ⟨a, ha, i, cell, hsealed, hlt, hnonce, haad, by rw [hciphertext, hsame]⟩

/-- Both sessions, before any message. -/
def sampleWorld : World Role where
  session := sampleSession .transparent
  sent := []
  held := fun _ => True

/-- A plaintext of two chunks. -/
def samplePlaintext : Bytes := List.replicate 70000 7

/-- The initiator sends it. The responder reads its frames in reverse, and refuses them when the first
is missing. -/
theorem session_messages_sample :
    ∃ message s', (encrypt .transparent samplePlaintext sampleRandomness).run
        (sampleSession .transparent .initiator) = .ok message s' ∧ message.frames.length = 2 ∧
      (∃ r', (decrypt .transparent { message with frames := message.frames.reverse } fun _ => default).run
        (sampleSession .transparent .responder) = .ok samplePlaintext r') ∧
      ∃ e, (decrypt .transparent { message with frames := message.frames.tail } fun _ => default).run
        (sampleSession .transparent .responder) = .error e (sampleSession .transparent .responder) := by
  have hdh := LibCrypto.transparent_dhLaws
  obtain ⟨hround, hworld⟩ := session_messages LibCrypto.transparent_aeadLaws hdh
  have hlength : samplePlaintext.length = 70000 := List.length_replicate
  have hsize : samplePlaintext.length ≤ MAX_SAFE_INTEGER := by
    rw [hlength]
    decide
  have hchunks : chunkCount samplePlaintext.length = 2 := by
    rw [hlength]
    rfl
  obtain ⟨message, _, s', hencrypt, -, -, hdecrypts⟩ := hround _ _ samplePlaintext sampleRandomness
    sample_synchronised hsize (sample_nonces (by rw [hchunks]; decide)) (sample_canSend _) (sample_canSend _).count
  obtain ⟨r', hdecrypt, -⟩ := hdecrypts _ (List.reverse_perm _) fun _ => default
  -- the sessions when it was sent
  have hstart : WorldStart sampleWorld := by
    refine ⟨fun i => (sampleSession_created hdh i).wellFormed, ?_, fun _ => trivial, rfl⟩
    intro i j hij
    cases i <;> cases j <;> first | rfl | exact absurd hij (by decide)
  have hruns : Runs (WorldStep .transparent) sampleWorld _ :=
    .single (@WorldStep.call _ _ _ _ .initiator (.encrypt samplePlaintext sampleRandomness) hsize)
  have hsent : (sampleWorld.call .transparent .initiator (.encrypt samplePlaintext sampleRandomness)).sent =
      [⟨sampleSession .transparent .initiator, samplePlaintext, sampleRandomness, message⟩] := by
    show Op.sends .transparent _ (sampleSession .transparent .initiator) ++ [] = _
    simp only [Op.sends, hencrypt, List.append_nil]
  obtain ⟨key, cell, hsealed⟩ := (worldInv_of_runs hstart hruns).sealed _ (hsent ▸ List.mem_cons_self)
  have hframes : message.frames.length = 2 := by
    have hmap := congrArg List.length hsealed.frames
    rwa [List.length_map, List.length_range, hchunks] at hmap
  refine ⟨message, s', hencrypt, hframes, ⟨r', hdecrypt⟩, (hworld Role _ _ hstart hruns).1 _ _ _ ?_ ?_⟩
  · -- the frame that is left is genuine
    rw [hsent]
    exact hsealed.unforged List.mem_cons_self _ _
      (fun p hp => List.mem_of_mem_tail (List.fst_mem_of_mem_zipIdx hp)) _
  · -- but it is one, and the message has two
    rw [hsent]
    rintro ⟨a, ha, -, hperm⟩
    obtain rfl := List.mem_singleton.mp ha
    have hone := hperm.length_eq
    rw [List.length_tail, hframes] at hone
    cases hone

end Session

end P2Party
