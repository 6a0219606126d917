import P2Party.Edge.Transactions

/-!
# No message key is used twice

Every key a caller gets was written ahead: its successor is in the row before the key is
returned, so neither a failed write nor a crash brings the ratchet back to it. The sending
chain is followed by its tip, the pair of its DH public key and its counter.

- `tip`, `ratchetEncrypt_tip`, `ratchetDecrypt_tip`: what the ratchet does to it;
- `Unspent`: every returned header is behind the tips of the live ratchet, of the row and
  of what is staged;
- `Unpublished`, `run_unpublished`: a call that could not persist has changed nothing;
- `no_key_reuse`: whole runs.
-/

namespace P2Party

open Base PqHealing PqHealingRuntime PqHealingOrchestrator

/-! ## The tip of the sending chain -/

/-- The header the next message would carry. -/
def RatchetState.tip (r : RatchetState) : Bytes × Nat := (r.dhSelfPub, r.Ns)

variable {L : LibCrypto}

theorem tip_cloneRatchet (r : RatchetState) : (cloneRatchet r).tip = r.tip := rfl

theorem ratchetEncrypt_tip {r r' : RatchetState} {messageKey : Bytes} {header : RatchetHeader}
    (h : (ratchetEncrypt L).run r = .ok (messageKey, header) r') :
    r'.rootSuite = r.rootSuite ∧ (header.dhPub, header.N) = r.tip ∧
      r'.tip = (r.dhSelfPub, r.Ns + 1) := by
  unfold ratchetEncrypt at h
  rw [run_get_bind] at h
  cases hchain : r.sendingChainKey with
  | none =>
    rw [hchain] at h
    cases h
  | some chainKey =>
    rw [hchain] at h
    cases h
    exact ⟨rfl, rfl, rfl⟩

section Tip

variable {suite : RatchetRootSuite} {t : Bytes × Nat}

theorem skipLoop_tip (n : Nat) (r : RatchetState) :
    (skipLoop L n r).rootSuite = r.rootSuite ∧ (skipLoop L n r).tip = r.tip := by
  induction n generalizing r with
  | zero => exact ⟨rfl, rfl⟩
  | succ n ih => exact ih (skipOne L r)

theorem trySkipped_tip (header : RatchetHeader) :
    Keeps (fun r => r.rootSuite = suite ∧ r.tip = t) (trySkipped header) := by
  refine Keeps.read fun r hr => ?_
  simp only
  split
  · exact hr
  · exact hr

theorem skipMessageKeys_tip (upTo : Nat) :
    Keeps (fun r => r.rootSuite = suite ∧ r.tip = t) (skipMessageKeys L upTo) := by
  refine Keeps.read fun r hr => ?_
  rw [run_ensure_bind]
  split
  case isTrue =>
    cases r.receivingChainKey with
    | none => exact hr
    | some _ =>
      obtain ⟨hsuite, htip⟩ := skipLoop_tip (L := L) (upTo - r.Nr) r
      exact ⟨hsuite.trans hr.1, htip.trans hr.2⟩
  case isFalse => exact hr

theorem receiveFromChain_tip (header : RatchetHeader) :
    Keeps (fun r => r.rootSuite = suite ∧ r.tip = t) (receiveFromChain L header) := by
  refine Keeps.bind (fun r hr => hr) fun r => Keeps.bind (Keeps.ensure _ _) fun _ => ?_
  refine Keeps.bind (skipMessageKeys_tip _) fun _ => Keeps.read fun r hr => ?_
  cases r.receivingChainKey with
  | none => exact hr
  | some _ => exact hr

/-- A DH step takes a new key pair. -/
theorem dhRatchet_dhSelfPub {header : RatchetHeader} {secretKey : Bytes} {r r' : RatchetState} {u : Unit}
    (h : (dhRatchet L header secretKey).run r = .ok u r') :
    r'.rootSuite = r.rootSuite ∧ r'.dhSelfPub = L.x25519Base secretKey := by
  unfold dhRatchet at h
  rw [run_modify_bind, run_get_bind] at h
  obtain ⟨dhOut, -, h⟩ := attempt_bind_eq_ok.mp h
  rw [run_modify_bind, run_modify_bind] at h
  obtain ⟨dhOut', -, h⟩ := attempt_bind_eq_ok.mp h
  cases h
  exact ⟨rfl, rfl⟩

/-- A receive leaves the suite; it leaves the tip as well, or takes a new key pair. -/
theorem ratchetDecrypt_tip {header : RatchetHeader} {secretKey messageKey : Bytes}
    {r r' : RatchetState} (h : (ratchetDecrypt L header secretKey).run r = .ok messageKey r') :
    r'.rootSuite = r.rootSuite ∧ (r'.tip = r.tip ∨ r'.dhSelfPub = L.x25519Base secretKey) := by
  unfold ratchetDecrypt at h
  obtain ⟨found, r₁, htry, h⟩ := bind_eq_ok.mp h
  obtain ⟨hsuite, htip⟩ := (trySkipped_tip header).of_ok ⟨rfl, rfl⟩ htry
  cases found with
  | some mk =>
    cases h
    exact ⟨hsuite, .inl htip⟩
  | none =>
    simp only [run_get_bind] at h
    by_cases hnew : r₁.isNewDh header = true
    · simp only [hnew, if_true] at h
      obtain ⟨_, r₂, hskip, h⟩ := bind_eq_ok.mp h
      obtain ⟨_, r₃, hdh, h⟩ := bind_eq_ok.mp h
      obtain ⟨hskipped, -⟩ := (skipMessageKeys_tip _).of_ok ⟨rfl, rfl⟩ hskip
      obtain ⟨hstepped, hpub⟩ := dhRatchet_dhSelfPub hdh
      obtain ⟨hreceived, hlast⟩ := (receiveFromChain_tip header).of_ok ⟨rfl, rfl⟩ h
      refine ⟨?_, .inr ((congrArg Prod.fst hlast).trans hpub)⟩
      rw [hreceived, hstepped, hskipped, hsuite]
    · simp only [hnew] at h
      obtain ⟨hreceived, hlast⟩ := (receiveFromChain_tip header).of_ok ⟨rfl, rfl⟩ h
      exact ⟨hreceived.trans hsuite, .inl (hlast.trans htip)⟩

end Tip

/-- A derived message key leaves the suite; it leaves the tip as well, or takes a new key pair. -/
theorem deriveMessageKey_tip {r clone : RatchetState} {header : RatchetHeader}
    {pqContext : Option PqMessageKeyContext} {secretKey messageKey : Bytes}
    (h : deriveMessageKey L r header pqContext secretKey = some (messageKey, clone)) :
    clone.rootSuite = r.rootSuite ∧
      (clone.tip = r.tip ∨ clone.dhSelfPub = L.x25519Base secretKey) := by
  unfold deriveMessageKey at h
  split at h
  · cases h
  case h_2 key clone' hrun =>
    have hclone : clone' = clone := by
      split at h
      · cases h
        rfl
      · split at h
        · cases h
          rfl
        · cases h
    subst hclone
    have htip := ratchetDecrypt_tip hrun
    rw [tip_cloneRatchet] at htip
    exact htip

namespace EdgeCrypto

/-! ## What a stage leaves -/

theorem stageEncrypt_cases {s : Live} {staged : Staged} (h : stageEncrypt L s = .ok staged) :
    ∃ candidate messageKey header pqContext,
      staged = .encrypt candidate messageKey header pqContext ∧
        candidate.rootSuite = s.ratchet.rootSuite ∧ (header.dhPub, header.N) = s.ratchet.tip ∧
        candidate.tip = (s.ratchet.dhSelfPub, s.ratchet.Ns + 1) := by
  unfold stageEncrypt at h
  split at h
  · cases h
  case h_2 messageKey header candidate hrun =>
    cases h
    obtain ⟨hsuite, hheader, htip⟩ := ratchetEncrypt_tip hrun
    exact ⟨candidate, messageKey, header, _, rfl, hsuite, hheader, htip⟩

/-- A staged receive: its key is new to the map it was given, which its staged copy
extends by it. -/
theorem stageDecrypt_cases {s : Live} {cache : Nat} {frame merkleRoot secretKey : Bytes}
    {staged : Staged} (h : stageDecrypt L s cache frame merkleRoot secretKey = .ok (.inl staged)) :
    ∃ candidate cacheKey messageKey chunk,
      staged = .decrypt candidate cache ((s.map cache).set cacheKey messageKey) cacheKey messageKey
        chunk ∧ chunk.stateAdvanced = true ∧ (s.map cache).get cacheKey = none ∧
        candidate.rootSuite = s.ratchet.rootSuite ∧
        (candidate.tip = s.ratchet.tip ∨ candidate.dhSelfPub = L.x25519Base secretKey) := by
  unfold stageDecrypt at h
  obtain ⟨parsed, hparse, h⟩ := except_bind_eq_ok.mp h
  obtain ⟨cacheKey, hkey, h⟩ := except_bind_eq_ok.mp h
  split at h
  · cases h
  case h_2 chunk receiver hrun =>
    rcases decryptMessageChunk_cases hrun with ⟨hsame, -⟩ | ⟨parsed', pqContext, cacheK, messageKey,
      clone, hparse', hkey', hmiss, hderive, hadvanced, hreceiver⟩
    · rw [if_pos hsame] at h
      cases h
    · have hresolver : s.resolver.isSome = s.pq.isSome := by
        unfold Live.resolver
        cases s.pq <;> rfl
      cases hparse.symm.trans hparse'
      rw [hresolver] at hkey'
      cases hkey.symm.trans hkey'
      rw [if_neg (by rw [hadvanced]; decide)] at h
      subst hreceiver
      simp only [OrdMap.get_set_self] at h
      obtain ⟨_, -, h⟩ := except_bind_eq_ok.mp h
      cases h
      refine ⟨_, cacheKey, messageKey, chunk, rfl, hadvanced, hmiss, ?_⟩
      obtain ⟨hsuite, htip⟩ := deriveMessageKey_tip hderive
      rw [tip_cloneRatchet] at htip
      split
      · exact ⟨hsuite, htip⟩
      · exact ⟨hsuite, htip⟩

theorem stageForget_cases {s : Live} {cache : Nat} {cacheKey : String} {staged : Staged}
    (h : stageForget s cache cacheKey = some staged) :
    ∃ candidate, staged = .forget candidate cache ((s.map cache).delete cacheKey) cacheKey ∧
      candidate.rootSuite = s.ratchet.rootSuite ∧ candidate.tip = s.ratchet.tip := by
  unfold stageForget at h
  simp only at h
  split_ifs at h
  · cases h
    exact ⟨_, rfl, rfl, rfl⟩
  · cases h
    exact ⟨_, rfl, rfl, rfl⟩

theorem stageDecrypt_unadvanced {s : Live} {cache : Nat} {frame merkleRoot secretKey : Bytes}
    {chunk : DecryptedChunk}
    (h : stageDecrypt L s cache frame merkleRoot secretKey = .ok (.inr chunk)) :
    chunk.stateAdvanced = false := by
  unfold stageDecrypt at h
  obtain ⟨parsed, -, h⟩ := except_bind_eq_ok.mp h
  obtain ⟨cacheKey, -, h⟩ := except_bind_eq_ok.mp h
  split at h
  · cases h
  case h_2 chunk' receiver hrun =>
    by_cases hsame : chunk'.stateAdvanced = false
    · rw [if_pos hsame] at h
      cases h
      exact hsame
    · rw [if_neg hsame] at h
      split at h
      · cases h
      · obtain ⟨_, -, h⟩ := except_bind_eq_ok.mp h
        cases h

/-! ## Headers and tips -/

/-- The header of a key that was returned. -/
def Entry.header? : Entry → Option (Bytes × Nat)
  | .settled _ (.key _ header _) _ _ => some (header.dhPub, header.N)
  | _ => none

/-- The headers of all keys that were returned. -/
def headers (s : EdgeCrypto) : List (Bytes × Nat) := s.history.filterMap Entry.header?

/-- The ratchet a staged mutation leaves. -/
def Staged.successor (live : RatchetState) : Staged → RatchetState
  | .encrypt candidate _ _ _ => candidate
  | .decrypt candidate _ _ _ _ _ => candidate
  | .forget candidate _ _ _ => candidate
  | .transition _ _ => live

/-- The tip a phase may make durable. -/
def Phase.tips (live : RatchetState) : Phase → List (Bytes × Nat)
  | .staged work => [(work.successor live).tip]
  | .writing work _ => [(work.successor live).tip]
  | _ => []

/-- The header the next message carries after a reload. -/
def Row.tip (row : Row) : Bytes × Nat := (row.ratchet.dhSelfPub, row.ratchet.Ns)

/-- Every tip the edge may come back to. -/
def tips (s : EdgeCrypto) : List (Bytes × Nat) :=
  s.ratchet.tip :: s.row.tip :: s.queue.head?.toList.flatMap fun call => call.phase.tips s.ratchet

/-- The public key of a secret that has not been used yet. -/
def Call.fresh? (L : LibCrypto) (call : Call) : Option Bytes :=
  match call.request, call.phase with
  | .decrypt _ _ _ secretKey, .queued => some (L.x25519Base secretKey)
  | _, _ => none

/-- The key pairs the waiting calls brought along. -/
def waiting (L : LibCrypto) (s : EdgeCrypto) : List Bytes := s.queue.filterMap (Call.fresh? L)

/-- Every returned header is behind every tip, and the key pairs to come are new. -/
structure Unspent (L : LibCrypto) (s : EdgeCrypto) (future : List Bytes) : Prop where
  distinct : s.headers.Nodup
  behind : ∀ tip ∈ s.tips, ∀ header ∈ s.headers, header.1 = tip.1 → header.2 < tip.2
  fresh : (s.waiting L ++ future).Nodup
  unused : ∀ pub ∈ s.waiting L ++ future, (∀ tip ∈ s.tips, tip.1 ≠ pub) ∧
    ∀ header ∈ s.headers, header.1 ≠ pub

/-- A staged encryption is the next one of the live ratchet, and a staged receive has
advanced it. -/
def Staged.Next (live : RatchetState) : Staged → Prop
  | .encrypt candidate _ header _ =>
    (header.dhPub, header.N) = live.tip ∧ candidate.tip = (live.dhSelfPub, live.Ns + 1)
  | .decrypt _ _ _ _ _ chunk => chunk.stateAdvanced = true
  | _ => True

/-- What a phase says of its mutation; a posted row holds the successor. -/
def Phase.Fits (live : RatchetState) : Phase → Prop
  | .staged work => work.Next live
  | .writing work row => work.Next live ∧ row.ratchet = serializeRatchet (work.successor live)
  | _ => True

/-- Only the head of the queue is past the lock, and its phase fits the live ratchet. -/
structure InTurn (s : EdgeCrypto) : Prop where
  head : ∀ call ∈ s.queue.head?, call.phase.Fits s.ratchet
  rest : ∀ call ∈ s.queue.tail, call.phase = .queued

/-- A key or the plaintext of a receive step was returned with its successor in the row. -/
def Entry.Durable : Entry → Prop
  | .settled _ (.key _ header _) ratchet row =>
    row.ratchet = serializeRatchet ratchet ∧ ratchet.tip = (header.dhPub, header.N + 1)
  | .settled _ (.chunk chunk) ratchet row =>
    chunk.stateAdvanced = true → row.ratchet = serializeRatchet ratchet
  | _ => True

section Steps

variable {s s' : EdgeCrypto} {future : List Bytes} {call : Call} {rest : List Call}

/-- Where no key was returned, no tip is new and no key pair came, nothing is spent. -/
theorem Unspent.mono (h : Unspent L s future) (hheaders : s'.headers = s.headers)
    (htips : ∀ tip ∈ s'.tips, tip ∈ s.tips) (hwaiting : (s'.waiting L).Sublist (s.waiting L)) :
    Unspent L s' future where
  distinct := hheaders ▸ h.distinct
  behind tip htip header hheader := h.behind tip (htips tip htip) header (hheaders ▸ hheader)
  fresh := h.fresh.sublist (hwaiting.append (List.Sublist.refl _))
  unused pub hpub := by
    obtain ⟨htip, hheader⟩ := h.unused pub ((hwaiting.append (List.Sublist.refl _)).subset hpub)
    exact ⟨fun tip hmem => htip tip (htips tip hmem), fun header hmem => hheader header (hheaders ▸ hmem)⟩

/-- Entries that carry no key. -/
def Quiet (s s' : EdgeCrypto) : Prop :=
  ∃ added, s'.history = s.history ++ added ∧ ∀ entry ∈ added, entry.Durable ∧ entry.header? = none

theorem Quiet.refl (s : EdgeCrypto) : Quiet s s := ⟨[], (List.append_nil _).symm, by simp⟩

/-- One entry is noted. -/
theorem quiet_note {entry : Entry} (h : s'.history = s.history) (hdurable : entry.Durable)
    (hkeyless : entry.header? = none) : Quiet s (s'.note entry) := by
  refine ⟨[entry], by rw [note, h], fun other hother => ?_⟩
  rw [List.mem_singleton.mp hother]
  exact ⟨hdurable, hkeyless⟩

theorem Quiet.headers (h : Quiet s s') : s'.headers = s.headers := by
  obtain ⟨added, hadded, hquiet⟩ := h
  have hnone : added.filterMap Entry.header? = [] :=
    List.filterMap_eq_nil_iff.mpr fun entry hentry => (hquiet entry hentry).2
  rw [EdgeCrypto.headers, hadded, List.filterMap_append, hnone, List.append_nil]
  rfl

/-- The invariant: the returned headers, the queue and the past. -/
structure Safe (L : LibCrypto) (s : EdgeCrypto) (future : List Bytes) : Prop where
  unspent : Unspent L s future
  inTurn : InTurn s
  durable : ∀ entry ∈ s.history, entry.Durable

/-- The calls behind the head are queued. -/
theorem InTurn.queued (h : InTurn s) (hqueue : s.queue = call :: rest) :
    ∀ other ∈ rest, other.phase = .queued := by
  have hrest := h.rest
  rw [hqueue] at hrest
  exact hrest

/-- Once the head leaves, no tip is staged. -/
theorem tips_settle (hrest : ∀ other ∈ rest, other.phase = .queued) (s' : EdgeCrypto)
    (outcome : Outcome) : (s'.settle call rest outcome).tips = [s'.ratchet.tip, s'.row.tip] := by
  cases rest with
  | nil => rfl
  | cons next rest =>
    have hqueued : next.phase = .queued := hrest next List.mem_cons_self
    simp only [tips, settle, List.head?_cons, Option.toList_some, List.flatMap_cons, List.flatMap_nil,
      hqueued, Phase.tips, List.append_nil]

theorem waiting_settle (hqueue : s.queue = call :: rest) (s' : EdgeCrypto) (outcome : Outcome) :
    ((s'.settle call rest outcome).waiting L).Sublist (s.waiting L) := by
  unfold waiting
  rw [hqueue]
  exact (List.sublist_cons_self _ _).filterMap _

theorem inTurn_settle (hrest : ∀ other ∈ rest, other.phase = .queued) (s' : EdgeCrypto)
    (outcome : Outcome) : InTurn (s'.settle call rest outcome) where
  head other hother := by
    rw [hrest other (List.mem_of_mem_head? hother)]
    trivial
  rest other hother := hrest other (List.mem_of_mem_tail hother)

theorem live_mem_tips (s : EdgeCrypto) : s.ratchet.tip ∈ s.tips := List.mem_cons_self

theorem row_mem_tips (s : EdgeCrypto) : s.row.tip ∈ s.tips :=
  List.mem_cons_of_mem _ List.mem_cons_self

theorem staged_mem_tips (hqueue : s.queue = call :: rest) {tip : Bytes × Nat}
    (h : tip ∈ call.phase.tips s.ratchet) : tip ∈ s.tips := by
  unfold tips
  rw [hqueue]
  exact List.mem_cons_of_mem _ (List.mem_cons_of_mem _ (by simpa using h))

/-- The head leaves without a key, with live objects and a row the edge could come back
to. -/
theorem Safe.settle (h : Safe L s future) (hqueue : s.queue = call :: rest) (hquiet : Quiet s s')
    (hlive : s'.ratchet.tip ∈ s.tips) (hrow : s'.row.tip ∈ s.tips) {outcome : Outcome}
    (hkeyless : Entry.header? (.settled call.id outcome s'.ratchet s'.row) = none)
    (hdurable : Entry.Durable (.settled call.id outcome s'.ratchet s'.row)) :
    Safe L (s'.settle call rest outcome) future := by
  have hrest := h.inTurn.queued hqueue
  obtain ⟨added, hadded, hall⟩ := hquiet
  have hquiet' : Quiet s (s'.settle call rest outcome) := by
    refine ⟨added ++ [.settled call.id outcome s'.ratchet s'.row], ?_, fun entry hentry => ?_⟩
    · rw [← List.append_assoc, ← hadded]
      rfl
    · rcases List.mem_append.mp hentry with hentry | hentry
      · exact hall entry hentry
      · rw [List.mem_singleton.mp hentry]
        exact ⟨hdurable, hkeyless⟩
  refine ⟨h.unspent.mono hquiet'.headers ?_ (waiting_settle hqueue s' outcome),
    inTurn_settle hrest s' outcome, ?_⟩
  · rw [tips_settle hrest]
    intro tip htip
    rcases List.mem_cons.mp htip with rfl | htip
    · exact hlive
    · rw [List.mem_singleton.mp htip]
      exact hrow
  · obtain ⟨added', hadded', hall'⟩ := hquiet'
    intro entry hentry
    rw [hadded'] at hentry
    rcases List.mem_append.mp hentry with hentry | hentry
    · exact h.durable entry hentry
    · exact (hall' entry hentry).1

/-- The head leaves and nothing else changes. -/
theorem Safe.refuse (h : Safe L s future) (hqueue : s.queue = call :: rest) {outcome : Outcome}
    (hkeyless : Entry.header? (.settled call.id outcome s.ratchet s.row) = none)
    (hdurable : Entry.Durable (.settled call.id outcome s.ratchet s.row)) :
    Safe L (s.settle call rest outcome) future :=
  h.settle hqueue (Quiet.refl s) (live_mem_tips s) (row_mem_tips s) hkeyless hdurable

/-- The head goes on to a phase past the lock whose tips no returned header reaches. -/
theorem Safe.advance (h : Safe L s future) (hqueue : s.queue = call :: rest) {phase : Phase}
    (hpast : phase ≠ .queued) (hfits : phase.Fits s.ratchet)
    (htips : ∀ tip ∈ phase.tips s.ratchet,
      (∀ header ∈ s.headers, header.1 = tip.1 → header.2 < tip.2) ∧
        ∀ pub ∈ rest.filterMap (Call.fresh? L) ++ future, tip.1 ≠ pub) :
    Safe L (s.advance call rest phase) future := by
  have hrest := h.inTurn.queued hqueue
  have hwaiting : (s.advance call rest phase).waiting L = rest.filterMap (Call.fresh? L) := by
    unfold waiting EdgeCrypto.advance
    have hnone : Call.fresh? L { call with phase } = none := by
      unfold Call.fresh?
      split
      case h_1 hphase => exact absurd hphase hpast
      case h_2 => rfl
    rw [List.filterMap_cons, hnone]
  have hsub : (rest.filterMap (Call.fresh? L)).Sublist (s.waiting L) := by
    unfold waiting
    rw [hqueue]
    exact (List.sublist_cons_self _ _).filterMap _
  have hcases : ∀ tip ∈ (s.advance call rest phase).tips, tip ∈ s.tips ∨ tip ∈ phase.tips s.ratchet := by
    intro tip htip
    rcases List.mem_cons.mp htip with rfl | htip
    · exact .inl (live_mem_tips s)
    rcases List.mem_cons.mp htip with rfl | htip
    · exact .inl (row_mem_tips s)
    · exact .inr (by simpa [EdgeCrypto.advance] using htip)
  refine ⟨⟨h.unspent.distinct, fun tip htip => ?_, ?_, fun pub hpub => ?_⟩, ⟨?_, hrest⟩, h.durable⟩
  · rcases hcases tip htip with hold | hnew
    · exact h.unspent.behind tip hold
    · exact (htips tip hnew).1
  · rw [hwaiting]
    exact h.unspent.fresh.sublist (hsub.append (List.Sublist.refl _))
  · rw [hwaiting] at hpub
    obtain ⟨hold, hheaders⟩ := h.unspent.unused pub ((hsub.append (List.Sublist.refl _)).subset hpub)
    refine ⟨fun tip htip => ?_, hheaders⟩
    rcases hcases tip htip with htip | hnew
    · exact hold tip htip
    · exact (htips tip hnew).2 pub hpub
  · rintro other ⟨⟩
    exact hfits

/-- A tip the edge has already. -/
theorem Safe.known (h : Safe L s future) (hqueue : s.queue = call :: rest) {tip : Bytes × Nat}
    (htip : tip ∈ s.tips) :
    (∀ header ∈ s.headers, header.1 = tip.1 → header.2 < tip.2) ∧
      ∀ pub ∈ rest.filterMap (Call.fresh? L) ++ future, tip.1 ≠ pub := by
  refine ⟨h.unspent.behind tip htip, fun pub hpub => ?_⟩
  have hsub : (rest.filterMap (Call.fresh? L)).Sublist (s.waiting L) := by
    unfold waiting
    rw [hqueue]
    exact (List.sublist_cons_self _ _).filterMap _
  exact (h.unspent.unused pub ((hsub.append (List.Sublist.refl _)).subset hpub)).1 tip htip

theorem Safe.begin (h : Safe L s future) (hqueue : s.queue = call :: rest)
    (hphase : call.phase = .queued) : Safe L (s.begin L call rest) future := by
  unfold EdgeCrypto.begin
  split
  case h_1 =>
    split
    · exact h.refuse hqueue rfl trivial
    case h_2 staged hstage =>
      obtain ⟨candidate, messageKey, header, pqContext, rfl, -, hheader, htip⟩ := stageEncrypt_cases hstage
      refine h.advance hqueue nofun ⟨hheader, htip⟩ fun tip hmem => ?_
      obtain ⟨hbehind, hunused⟩ := h.known hqueue (live_mem_tips s)
      rw [List.mem_singleton.mp hmem]
      show (∀ header ∈ s.headers, header.1 = candidate.tip.1 → header.2 < candidate.tip.2) ∧
        ∀ pub ∈ rest.filterMap (Call.fresh? L) ++ future, candidate.tip.1 ≠ pub
      rw [htip]
      exact ⟨fun header hmem hsame => Nat.lt_succ_of_lt (hbehind header hmem hsame), hunused⟩
  case h_2 cache frame merkleRoot secretKey hrequest =>
    split
    · exact h.refuse hqueue rfl trivial
    case h_2 chunk hstage =>
      refine h.refuse hqueue rfl fun hadvanced => ?_
      cases (stageDecrypt_unadvanced hstage).symm.trans hadvanced
    case h_3 staged hstage =>
      obtain ⟨candidate, cacheKey, messageKey, chunk, rfl, hadvanced, -, -, htip⟩ := stageDecrypt_cases hstage
      refine h.advance hqueue nofun hadvanced fun tip hmem => ?_
      rw [List.mem_singleton.mp hmem]
      rcases htip with hold | hnew
      · show (∀ header ∈ s.headers, header.1 = candidate.tip.1 → header.2 < candidate.tip.2) ∧
          ∀ pub ∈ rest.filterMap (Call.fresh? L) ++ future, candidate.tip.1 ≠ pub
        rw [hold]
        exact h.known hqueue (live_mem_tips s)
      · -- the key pair of the DH step is the one the call brought along
        have hfresh : Call.fresh? L call = some (L.x25519Base secretKey) := by
          unfold Call.fresh?
          rw [hrequest, hphase]
        have hwaiting : s.waiting L = L.x25519Base secretKey :: rest.filterMap (Call.fresh? L) := by
          unfold waiting
          rw [hqueue, List.filterMap_cons, hfresh]
        have hunused := h.unspent.unused (L.x25519Base secretKey)
          (List.mem_append_left _ (by rw [hwaiting]; exact List.mem_cons_self))
        have hnodup := h.unspent.fresh
        rw [hwaiting, List.cons_append, List.nodup_cons] at hnodup
        show (∀ header ∈ s.headers, header.1 = candidate.dhSelfPub → header.2 < candidate.Ns) ∧
          ∀ pub ∈ rest.filterMap (Call.fresh? L) ++ future, candidate.dhSelfPub ≠ pub
        rw [hnew]
        refine ⟨fun header hmem hsame => absurd hsame (hunused.2 header hmem), ?_⟩
        rintro pub hpub rfl
        exact hnodup.1 hpub
  case h_3 cache cacheKey hrequest =>
    split
    case h_1 staged hstage =>
      obtain ⟨candidate, rfl, -, htip⟩ := stageForget_cases hstage
      refine h.advance hqueue nofun trivial fun tip hmem => ?_
      rw [List.mem_singleton.mp hmem]
      show (∀ header ∈ s.headers, header.1 = candidate.tip.1 → header.2 < candidate.tip.2) ∧
        ∀ pub ∈ rest.filterMap (Call.fresh? L) ++ future, candidate.tip.1 ≠ pub
      rw [htip]
      exact h.known hqueue (live_mem_tips s)
    case h_2 =>
      split
      · exact h.refuse hqueue rfl trivial
      · apply h.settle hqueue
        exacts [quiet_note rfl trivial rfl, live_mem_tips s, row_mem_tips s, rfl, trivial]
  case h_4 =>
    split
    · exact h.refuse hqueue rfl trivial
    · split
      · exact h.refuse hqueue rfl trivial
      · exact h.advance hqueue nofun trivial (by simp [Phase.tips])

theorem Safe.mutated (h : Safe L s future) (hqueue : s.queue = call :: rest)
    (candidate : SparsePqHealingState) : Safe L (s.mutated L call rest candidate) future := by
  unfold EdgeCrypto.mutated
  split
  case h_2 => exact h
  split
  · exact h.refuse hqueue rfl trivial
  split
  · refine h.advance hqueue nofun trivial fun tip hmem => ?_
    rw [List.mem_singleton.mp hmem]
    exact h.known hqueue (live_mem_tips s)
  · exact h.refuse hqueue rfl trivial

theorem toRow_ratchet (live : Live) (staged : Staged) :
    (staged.toRow live).ratchet = serializeRatchet (staged.successor live.ratchet) := by
  cases staged <;> rfl

theorem Safe.post (h : Safe L s future) (hqueue : s.queue = call :: rest) {staged : Staged}
    (hphase : call.phase = .staged staged) (owner : Bool) :
    Safe L (s.post call rest staged owner) future := by
  have hfits := h.inTurn.head call (by rw [hqueue]; rfl)
  rw [hphase] at hfits
  unfold EdgeCrypto.post
  split
  · refine h.advance hqueue nofun ⟨hfits, toRow_ratchet _ _⟩ fun tip hmem => ?_
    refine h.known hqueue (staged_mem_tips hqueue ?_)
    rw [hphase]
    exact hmem
  · exact h.refuse hqueue rfl trivial

/-- The edge as a successful encryption leaves it. -/
theorem Safe.key (h : Safe L s future) (hqueue : s.queue = call :: rest) {header : RatchetHeader}
    (hheader : (header.dhPub, header.N) = s.ratchet.tip)
    (hlive : s'.ratchet.tip = (s.ratchet.dhSelfPub, s.ratchet.Ns + 1))
    (hrow : s'.row.ratchet = serializeRatchet s'.ratchet) (hhistory : s'.history = s.history)
    (messageKey : Bytes) (pqContext : Option PqMessageKeyContext) :
    Safe L (s'.settle call rest (.key messageKey header pqContext)) future := by
  have hrest := h.inTurn.queued hqueue
  have hheaders : (s'.settle call rest (.key messageKey header pqContext)).headers =
      s.headers ++ [s.ratchet.tip] := by
    unfold EdgeCrypto.headers EdgeCrypto.settle
    rw [List.filterMap_append, hhistory, ← hheader]
    rfl
  have htips : ∀ tip ∈ (s'.settle call rest (.key messageKey header pqContext)).tips,
      tip = (s.ratchet.dhSelfPub, s.ratchet.Ns + 1) := by
    have hrowTip : s'.row.tip = s'.ratchet.tip := by
      unfold Row.tip
      rw [hrow]
      rfl
    rw [tips_settle hrest, hrowTip, hlive]
    simp
  obtain ⟨hbehind, -⟩ := h.known hqueue (live_mem_tips s)
  have hlivePub := fun pub hpub => (h.unspent.unused pub hpub).1 _ (live_mem_tips s)
  have hsub := @waiting_settle L s call rest hqueue s' (.key messageKey header pqContext)
  refine ⟨⟨?_, ?_, ?_, ?_⟩, inTurn_settle hrest s' _, ?_⟩
  · rw [hheaders, List.nodup_append]
    refine ⟨h.unspent.distinct, List.nodup_cons.mpr ⟨List.not_mem_nil, List.nodup_nil⟩, ?_⟩
    intro old hold new hnew hsame
    rw [List.mem_singleton.mp hnew] at hsame
    have hlt := hbehind old hold (congrArg Prod.fst hsame)
    rw [hsame] at hlt
    exact Nat.lt_irrefl _ hlt
  · intro tip htip old hold hsame
    rw [htips tip htip] at hsame ⊢
    rw [hheaders] at hold
    rcases List.mem_append.mp hold with hold | hold
    · exact Nat.lt_succ_of_lt (hbehind old hold hsame)
    · rw [List.mem_singleton.mp hold]
      exact Nat.lt_succ_self _
  · exact h.unspent.fresh.sublist (hsub.append (List.Sublist.refl _))
  · intro pub hpub
    have hmem := (hsub.append (List.Sublist.refl _)).subset hpub
    refine ⟨fun tip htip => ?_, fun old hold => ?_⟩
    · rw [htips tip htip]
      exact hlivePub pub hmem
    · rw [hheaders] at hold
      rcases List.mem_append.mp hold with hold | hold
      · exact (h.unspent.unused pub hmem).2 old hold
      · rw [List.mem_singleton.mp hold]
        exact hlivePub pub hmem
  · intro entry hentry
    rcases List.mem_append.mp hentry with hentry | hentry
    · exact h.durable entry (hhistory ▸ hentry)
    · rw [List.mem_singleton.mp hentry]
      refine ⟨hrow, hlive.trans ?_⟩
      rw [Prod.mk.injEq]
      exact ⟨(congrArg Prod.fst hheader).symm, congrArg (· + 1) (congrArg Prod.snd hheader).symm⟩

theorem noteApplicationMessage_ratchet {live live' : Live} (h : live.noteApplicationMessage = .ok live') :
    live'.ratchet = live.ratchet := by
  unfold Live.noteApplicationMessage at h
  split at h
  · cases h
    rfl
  · split at h
    · cases h
      rfl
    · cases h

theorem Safe.answer (h : Safe L s future) (hqueue : s.queue = call :: rest) {staged : Staged}
    {row : Row} (hphase : call.phase = .writing staged row) (write : Write) :
    Safe L (s.answer call rest staged row write) future := by
  have hfits := h.inTurn.head call (by rw [hqueue]; rfl)
  rw [hphase] at hfits
  obtain ⟨hnext, hrow⟩ := hfits
  have hsuccessor : (staged.successor s.ratchet).tip ∈ s.tips := by
    refine staged_mem_tips hqueue ?_
    rw [hphase]
    exact List.mem_singleton_self _
  have hrowTip : row.tip ∈ s.tips := by
    have hsame : row.tip = (staged.successor s.ratchet).tip := by
      unfold Row.tip
      rw [hrow]
      rfl
    rw [hsame]
    exact hsuccessor
  unfold EdgeCrypto.answer
  cases write with
  | lost => exact h.refuse hqueue rfl trivial
  | late =>
    apply h.settle hqueue
    exacts [Quiet.refl s, live_mem_tips s, hrowTip, rfl, trivial]
  | done =>
    simp only
    cases staged with
    | encrypt candidate messageKey header pqContext =>
      obtain ⟨hheader, htip⟩ := hnext
      unfold EdgeCrypto.commit EdgeCrypto.counted
      simp only
      split
      case h_1 live hnote =>
        have hratchet : live.ratchet = candidate := noteApplicationMessage_ratchet hnote
        refine h.key hqueue hheader ?_ ?_ ?_ messageKey pqContext
        · show live.ratchet.tip = _
          rw [hratchet, htip]
        · show row.ratchet = serializeRatchet live.ratchet
          rw [hratchet]
          exact hrow
        · rfl
      case h_2 =>
        apply h.settle hqueue
        exacts [Quiet.refl s, hsuccessor, hrowTip, rfl, trivial]
    | decrypt candidate cache stagedCache cacheKey messageKey chunk =>
      unfold EdgeCrypto.commit EdgeCrypto.counted
      simp only
      split
      · split
        case h_1 live hnote =>
          have hratchet : live.ratchet = candidate := noteApplicationMessage_ratchet hnote
          apply h.settle hqueue
          · exact quiet_note rfl trivial rfl
          · show live.ratchet.tip ∈ _
            rw [hratchet]
            exact hsuccessor
          · exact hrowTip
          · rfl
          · intro _
            show row.ratchet = serializeRatchet live.ratchet
            rw [hratchet]
            exact hrow
        case h_2 =>
          apply h.settle hqueue
          exacts [quiet_note rfl trivial rfl, hsuccessor, hrowTip, rfl, trivial]
      · apply h.settle hqueue
        exacts [quiet_note rfl trivial rfl, hsuccessor, hrowTip, rfl, fun _ => hrow]
    | forget candidate cache stagedCache cacheKey =>
      apply h.settle hqueue
      exacts [quiet_note rfl trivial rfl, hsuccessor, hrowTip, rfl, trivial]
    | transition candidate dispatch =>
      unfold EdgeCrypto.commit
      simp only
      split
      · apply h.settle hqueue
        exacts [Quiet.refl s, live_mem_tips s, hrowTip, rfl, trivial]
      · split
        · apply h.settle hqueue
          exacts [Quiet.refl s, live_mem_tips s, hrowTip, rfl, trivial]
        · apply h.settle hqueue
          exacts [Quiet.refl s, live_mem_tips s, hrowTip, rfl, trivial]

/-- Key pairs that never come are no loss. -/
theorem Safe.drop {pubs : List Bytes} (h : Safe L s (pubs ++ future)) : Safe L s future := by
  have hsub : (s.waiting L ++ future).Sublist (s.waiting L ++ (pubs ++ future)) :=
    (List.Sublist.refl _).append (List.sublist_append_right _ _)
  exact ⟨⟨h.unspent.distinct, h.unspent.behind, h.unspent.fresh.sublist hsub, fun pub hpub =>
    h.unspent.unused pub (hsub.subset hpub)⟩, h.inTurn, h.durable⟩

/-- The key pair of a request. -/
def Request.fresh? (L : LibCrypto) : Request → Option Bytes
  | .decrypt _ _ _ secretKey => some (L.x25519Base secretKey)
  | _ => none

theorem fresh?_queued (id : Nat) (request : Request) :
    Call.fresh? L ⟨id, request, .queued⟩ = request.fresh? L := by
  cases request <;> rfl

theorem Safe.enqueue {request : Request} (h : Safe L s ((request.fresh? L).toList ++ future)) :
    Safe L (s.enqueue request) future := by
  have hwaiting : (s.enqueue request).waiting L = s.waiting L ++ (request.fresh? L).toList := by
    unfold waiting EdgeCrypto.enqueue
    rw [List.filterMap_append, List.filterMap_cons, fresh?_queued]
    cases request.fresh? L <;> rfl
  have htips : (s.enqueue request).tips = s.tips := by
    unfold tips EdgeCrypto.enqueue
    cases s.queue with
    | nil => rfl
    | cons call rest => rfl
  refine ⟨⟨h.unspent.distinct, ?_, ?_, ?_⟩, ⟨?_, ?_⟩, h.durable⟩
  · rw [htips]
    exact h.unspent.behind
  · rw [hwaiting, List.append_assoc]
    exact h.unspent.fresh
  · rw [hwaiting, List.append_assoc, htips]
    exact h.unspent.unused
  · intro other hother
    unfold EdgeCrypto.enqueue at hother
    cases hqueue : s.queue with
    | nil =>
      rw [hqueue] at hother
      cases hother
      trivial
    | cons call rest =>
      rw [hqueue] at hother
      refine h.inTurn.head other ?_
      rw [hqueue]
      exact hother
  · intro other hother
    unfold EdgeCrypto.enqueue at hother
    cases hqueue : s.queue with
    | nil =>
      rw [hqueue] at hother
      cases hother
    | cons call rest =>
      rw [hqueue] at hother
      rcases List.mem_append.mp hother with hother | hother
      · exact h.inTurn.queued hqueue other hother
      · rw [List.mem_singleton.mp hother]

/-- What an eviction does to a phase. -/
theorem wipe_cases (phase : Phase) (cache : Nat) (evicted : List String) (live : RatchetState) :
    (phase.wipe cache evicted).tips live = phase.tips live ∧
      ((phase.wipe cache evicted).Fits live ↔ phase.Fits live) ∧
      (phase.wipe cache evicted = .queued ↔ phase = .queued) := by
  cases phase with
  | staged work => cases work <;> exact ⟨rfl, Iff.rfl, by simp [Phase.wipe]⟩
  | _ => exact ⟨rfl, Iff.rfl, Iff.rfl⟩

/-- What waits stays queued. -/
theorem evict_rest (h : ∀ call ∈ s.queue.tail, call.phase = .queued) :
    ∀ call ∈ s.evict.queue.tail, call.phase = .queued := by
  intro other hother
  have htail : s.evict.queue.tail = s.queue.tail.map fun call =>
      { call with phase := call.phase.wipe s.cache (evictions (s.map s.cache)) } :=
    List.map_tail.symm
  rw [htail] at hother
  obtain ⟨call, hcall, rfl⟩ := List.mem_map.mp hother
  exact (wipe_cases call.phase _ _ s.ratchet).2.2.mpr (h call hcall)

theorem Safe.evict (h : Safe L s future) : Safe L s.evict future := by
  have hhead : s.evict.queue.head? = s.queue.head?.map fun call =>
      { call with phase := call.phase.wipe s.cache (evictions (s.map s.cache)) } :=
    List.head?_map
  have htips : s.evict.tips = s.tips := by
    unfold tips
    rw [hhead]
    cases s.queue.head? with
    | none => rfl
    | some call =>
      obtain ⟨hsame, -⟩ := wipe_cases call.phase s.cache (evictions (s.map s.cache)) s.ratchet
      show _ :: _ :: (Phase.tips _ _ ++ []) = _ :: _ :: (Phase.tips _ _ ++ [])
      rw [← hsame]
      rfl
  have hwaiting : s.evict.waiting L = s.waiting L := by
    show (s.queue.map _).filterMap _ = s.queue.filterMap _
    rw [List.filterMap_map]
    refine List.filterMap_congr fun call _ => ?_
    obtain ⟨id, request, phase⟩ := call
    obtain ⟨-, -, hqueued⟩ := wipe_cases phase s.cache (evictions (s.map s.cache)) s.ratchet
    cases request with
    | decrypt cache frame merkleRoot secretKey =>
      by_cases hphase : phase = .queued
      · subst hphase
        rfl
      · have hwiped := fun hw => hphase (hqueued.mp hw)
        show Call.fresh? L ⟨id, _, _⟩ = Call.fresh? L ⟨id, _, _⟩
        unfold Call.fresh?
        split
        case h_1 hw => exact absurd hw hwiped
        case h_2 =>
          split
          case h_1 hp => exact absurd hp hphase
          case h_2 => rfl
    | _ => rfl
  have hquiet : Quiet s s.evict := by
    refine ⟨(evictions (s.map s.cache)).map .evicted, rfl, fun entry hentry => ?_⟩
    obtain ⟨key, -, rfl⟩ := List.mem_map.mp hentry
    exact ⟨trivial, rfl⟩
  refine ⟨h.unspent.mono hquiet.headers (fun tip htip => htips ▸ htip) (by rw [hwaiting]),
    ⟨?_, evict_rest h.inTurn.rest⟩, ?_⟩
  · intro other hother
    rw [hhead] at hother
    obtain ⟨call, hcall, rfl⟩ := Option.map_eq_some_iff.mp hother
    exact (wipe_cases call.phase _ _ s.ratchet).2.1.mpr (h.inTurn.head call hcall)
  · obtain ⟨added, hadded, hall⟩ := hquiet
    intro entry hentry
    rw [hadded] at hentry
    rcases List.mem_append.mp hentry with hentry | hentry
    · exact h.durable entry hentry
    · exact (hall entry hentry).1

/-- The key pair an event brings along. -/
def Event.fresh? (L : LibCrypto) : Event → Option Bytes
  | .call request => request.fresh? L
  | .receive _ _ secretKey => some (L.x25519Base secretKey)
  | _ => none

theorem step_safe {event : Event} (h : Safe L s ((event.fresh? L).toList ++ future)) :
    Safe L (step L event s) future := by
  cases event with
  | call request => exact Safe.enqueue h
  | receive frame merkleRoot secretKey =>
    show Safe L (s.receive frame merkleRoot secretKey) future
    unfold EdgeCrypto.receive
    split
    · exact h.drop
    · exact @Safe.enqueue L s.evict future (.decrypt s.cache frame merkleRoot secretKey) h.evict
  | retire cacheKey => exact @Safe.enqueue L s future (.forget s.cache cacheKey) h
  | resume owner =>
    have h : Safe L s future := h
    unfold step
    simp only
    split
    · exact h
    case h_2 call rest hqueue =>
      split
      case h_1 hphase => exact h.begin hqueue hphase
      case h_2 => exact h.mutated hqueue _
      case h_3 hphase => exact h.post hqueue hphase owner
      case h_4 => exact h
  | written write =>
    have h : Safe L s future := h
    unfold step
    simp only
    split
    · exact h
    case h_2 call rest hqueue =>
      split
      case h_1 hphase => exact h.answer hqueue hphase write
      case h_2 => exact h
  | crash =>
    have h : Safe L s future := h
    have hturn : InTurn { s with toLive := .ofRow s.row, queue := [] } :=
      ⟨fun _ hcall => (by cases hcall), fun _ hcall => (by cases hcall)⟩
    refine ⟨h.unspent.mono rfl ?_ (List.nil_sublist _), hturn, h.durable⟩
    intro tip htip
    rcases List.mem_cons.mp htip with rfl | htip
    · exact row_mem_tips s
    · rcases List.mem_cons.mp htip with rfl | htip
      · exact row_mem_tips s
      · cases htip

/-- The key pairs a run brings along. -/
def freshKeys (L : LibCrypto) (events : List Event) : List Bytes := events.filterMap (Event.fresh? L)

theorem run_safe (events : List Event) (h : Safe L s (freshKeys L events ++ future)) :
    Safe L (runAll L events s) future := by
  induction events generalizing s with
  | nil => exact h
  | cons event events ih =>
    refine ih (step_safe ?_)
    have hkeys : freshKeys L (event :: events) = (event.fresh? L).toList ++ freshKeys L events := by
      unfold freshKeys
      rw [List.filterMap_cons]
      cases event.fresh? L <;> rfl
    rw [hkeys, List.append_assoc] at h
    exact h

end Steps

/-! ## Calls that could not persist -/

/-- The call could not persist its successor. -/
def Entry.NotPersisted : Entry → Prop
  | .settled _ .notPersisted _ _ => True
  | _ => False

/-- Every event but a crash and a received frame, which may evict keys before it waits
for the lock. -/
def Event.Plain : Event → Prop
  | .receive _ _ _ => False
  | .crash => False
  | _ => True

/-- `s'` has added entries, and is live as `s` is if they are only of calls that could
not persist. -/
def Unpublished (s s' : EdgeCrypto) : Prop :=
  ∃ added, s'.history = s.history ++ added ∧
    ((∀ entry ∈ added, entry.NotPersisted) → s'.toLive = s.toLive)

section Unpublished

variable {s s' : EdgeCrypto} {call : Call} {rest : List Call}

theorem Unpublished.same (hhistory : s'.history = s.history) (hlive : s'.toLive = s.toLive) :
    Unpublished s s' := ⟨[], by rw [hhistory, List.append_nil], fun _ => hlive⟩

/-- A call settled with the live objects as they were. -/
theorem unpublished_settle (hhistory : s'.history = s.history) (hlive : s'.toLive = s.toLive)
    (outcome : Outcome) : Unpublished s (s'.settle call rest outcome) :=
  ⟨[_], by rw [EdgeCrypto.settle, hhistory], fun _ => hlive⟩

/-- A call settled with something else than a failed write. -/
theorem published_settle (hhistory : ∃ added, s'.history = s.history ++ added) {outcome : Outcome}
    (houtcome : outcome ≠ .notPersisted) : Unpublished s (s'.settle call rest outcome) := by
  obtain ⟨added, hadded⟩ := hhistory
  refine ⟨added ++ [.settled call.id outcome s'.ratchet s'.row], ?_, fun hall => ?_⟩
  · rw [EdgeCrypto.settle, hadded, List.append_assoc]
  · have hlast := hall _ (List.mem_append_right _ (List.mem_singleton_self _))
    cases outcome with
    | notPersisted => exact absurd rfl houtcome
    | _ => exact hlast.elim

theorem begin_unpublished (call : Call) (rest : List Call) : Unpublished s (s.begin L call rest) := by
  unfold EdgeCrypto.begin
  split
  · split
    · exact unpublished_settle rfl rfl _
    · exact .same rfl rfl
  · split
    · exact unpublished_settle rfl rfl _
    · exact unpublished_settle rfl rfl _
    · exact .same rfl rfl
  · split
    · exact .same rfl rfl
    · split
      · exact unpublished_settle rfl rfl _
      · exact published_settle ⟨[_], rfl⟩ nofun
  · split
    · exact unpublished_settle rfl rfl _
    · split
      · exact unpublished_settle rfl rfl _
      · exact .same rfl rfl

theorem mutated_unpublished (call : Call) (rest : List Call) (candidate : SparsePqHealingState) :
    Unpublished s (s.mutated L call rest candidate) := by
  unfold EdgeCrypto.mutated
  split
  · split
    · exact unpublished_settle rfl rfl _
    · split
      · exact .same rfl rfl
      · exact unpublished_settle rfl rfl _
  · exact .same rfl rfl

theorem counted_unpublished (hhistory : ∃ added, s'.history = s.history ++ added)
    {outcome : Outcome} (houtcome : outcome ≠ .notPersisted) (failed : Live → Live) :
    Unpublished s (s'.counted call rest outcome failed) := by
  unfold EdgeCrypto.counted
  split
  · apply published_settle
    exacts [hhistory, houtcome]
  · apply published_settle
    exacts [hhistory, nofun]

theorem commit_unpublished (hhistory : s'.history = s.history) (hlive : s'.toLive = s.toLive)
    (staged : Staged) : Unpublished s (s'.commit call rest staged) := by
  have hsame : ∃ added, s'.history = s.history ++ added := ⟨[], by rw [hhistory, List.append_nil]⟩
  have hnoted : ∀ entry, ∃ added, s'.history ++ [entry] = s.history ++ added :=
    fun entry => ⟨[entry], by rw [hhistory]⟩
  unfold EdgeCrypto.commit
  split
  · apply counted_unpublished
    exacts [hsame, nofun]
  · simp only
    split
    · apply counted_unpublished
      exacts [hnoted _, nofun]
    · apply published_settle
      exacts [hnoted _, nofun]
  · apply published_settle
    exacts [hnoted _, nofun]
  · split
    · exact unpublished_settle hhistory hlive _
    · split
      · exact unpublished_settle hhistory hlive _
      · apply published_settle
        exacts [hsame, nofun]

/-- A step publishes something, or leaves the live objects alone. -/
theorem step_unpublished {event : Event} (hplain : event.Plain) : Unpublished s (step L event s) := by
  cases event with
  | call request => exact .same rfl rfl
  | receive frame merkleRoot secretKey => exact hplain.elim
  | retire cacheKey => exact .same rfl rfl
  | resume owner =>
    unfold step
    simp only
    split
    · exact .same rfl rfl
    split
    · exact begin_unpublished _ _
    · exact mutated_unpublished _ _ _
    · unfold EdgeCrypto.post
      split
      · exact .same rfl rfl
      · exact unpublished_settle rfl rfl _
    · exact .same rfl rfl
  | written write =>
    unfold step
    simp only
    split
    · exact .same rfl rfl
    split
    · unfold EdgeCrypto.answer
      split
      · exact unpublished_settle rfl rfl _
      · exact unpublished_settle rfl rfl _
      · exact commit_unpublished rfl rfl _
    · exact .same rfl rfl
  | crash => exact hplain.elim

/-- A stretch of a run in which every call that settled could not persist leaves the live
objects as they were. -/
theorem run_unpublished (events : List Event) (hplain : ∀ event ∈ events, event.Plain) :
    Unpublished s (runAll L events s) := by
  induction events generalizing s with
  | nil => exact .same rfl rfl
  | cons event events ih =>
    obtain ⟨added, hadded, hlive⟩ := @step_unpublished L s event (hplain event List.mem_cons_self)
    obtain ⟨added', hadded', hlive'⟩ :=
      @ih (step L event s) fun other hother => hplain other (List.mem_cons_of_mem _ hother)
    refine ⟨added ++ added', hadded'.trans (by rw [hadded, List.append_assoc]), fun hall => ?_⟩
    have hrest := hlive' fun entry hentry => hall entry (List.mem_append_right _ hentry)
    exact hrest.trans (hlive fun entry hentry => hall entry (List.mem_append_left _ hentry))

end Unpublished

/-! ## Whole runs -/

/-- An activated edge has returned nothing yet. -/
theorem ofLive_safe {live : Live} {future : List Bytes}
    (hfresh : (live.ratchet.dhSelfPub :: future).Nodup) : Safe L (ofLive live) future where
  unspent := by
    rw [List.nodup_cons] at hfresh
    refine ⟨List.nodup_nil, fun _ _ header hheader => (by cases hheader), hfresh.2, fun pub hpub => ?_⟩
    refine ⟨fun tip htip => ?_, fun header hheader => (by cases hheader)⟩
    have htip : tip = live.ratchet.tip := by
      rcases List.mem_cons.mp htip with rfl | htip
      · rfl
      · exact List.mem_singleton.mp htip
    rw [htip]
    rintro rfl
    exact hfresh.1 hpub
  inTurn := ⟨fun _ hcall => (by cases hcall), fun _ hcall => (by cases hcall)⟩
  durable _ hentry := by cases hentry

/-- In every run from an activated edge with new key pairs: no header is returned twice;
a key or plaintext is returned with its successor in the row; and a stretch in which no
call persisted leaves the live objects as they were. -/
theorem no_key_reuse {live : Live} (events : List Event)
    (hfresh : (live.ratchet.dhSelfPub :: freshKeys L events).Nodup) :
    (runAll L events (ofLive live)).headers.Nodup ∧
      (∀ entry ∈ (runAll L events (ofLive live)).history, entry.Durable) ∧
      ∀ later, (∀ event ∈ later, event.Plain) → ∀ added,
        (runAll L later (runAll L events (ofLive live))).history =
          (runAll L events (ofLive live)).history ++ added →
        (∀ entry ∈ added, entry.NotPersisted) →
        (runAll L later (runAll L events (ofLive live))).toLive =
          (runAll L events (ofLive live)).toLive := by
  have hsafe : Safe L (runAll L events (ofLive live)) [] :=
    run_safe events (ofLive_safe (by rw [List.append_nil]; exact hfresh))
  refine ⟨hsafe.unspent.distinct, hsafe.durable, fun later hplain added hadded hall => ?_⟩
  obtain ⟨added', hadded', hlive⟩ := @run_unpublished L (runAll L events (ofLive live)) later hplain
  have hsame : added' = added := List.append_cancel_left (hadded'.symm.trans hadded)
  exact hlive (hsame ▸ hall)

/-- A connection that can send, without a runtime. -/
def sender : Live where
  ratchet :=
    { rootSuite := .hybridMlkem768
      rootKey := List.replicate 32 0
      sendingChainKey := some (List.replicate 32 0)
      receivingChainKey := none
      dhSelfPub := List.replicate 32 9
      dhSelfSec := List.replicate 32 9
      dhRemotePub := none
      Ns := 0
      Nr := 0
      PN := 0
      skipped := .empty }
  pq := none
  maps := [.empty]
  active := 0
  cache := 0

/-- Two sends wait for the lock; the row of the first is written but its answer is lost,
the second succeeds, the process dies, and a third send succeeds on the reloaded row. -/
def interruptedSends : List Event :=
  [.call .encrypt, .call .encrypt, .call (.decrypt 0 [] [] (List.replicate 32 5)), .resume true,
    .resume true, .written .late, .resume true, .resume true, .written .done, .crash, .call .encrypt,
    .resume true, .resume true, .written .done]

theorem no_key_reuse_interruptedSends :
    (runAll .transparent interruptedSends (ofLive sender)).headers =
        [(List.replicate 32 9, 0), (List.replicate 32 9, 1)] ∧
      (runAll .transparent interruptedSends (ofLive sender)).headers.Nodup :=
  ⟨by decide +kernel, (no_key_reuse interruptedSends (by decide +kernel)).1⟩

end EdgeCrypto

end P2Party
