import P2Party.Transfer.Staged

/-!
# What a sender may conclude from receipts

Whatever is lost, repeated or delayed between them, and whatever the peers forget, a sender notes a
chunk for a peer only if the peer had stored that chunk of that message, and completion only if it
had stored all of it. So a retransmission that skips the noted chunks skips none that never arrived,
and what is reported to the application is no more than what was stored.

- `Sound`: what a receipt on a channel is evidence of;
- `Inv`: the invariant of the sender, the channels and the peers, over what was once the case;
- `sendRound_cases`, `handleReceiveMessage_cases`, `mem_replayTokens`: what the two ends can put on
  a channel;
- `Inv.stage`, `Inv.send`, `Inv.receive`, `Inv.receipt` and the others: what an event keeps;
- `inv_reached`: along every run.
-/

namespace P2Party

open Base Storage

namespace Delivery

variable (L : LibCrypto) (getMimeType : Nat → String) (me : String)

/-! ## The invariant -/

/-- The peer has the record of a chunk. -/
def Holds (t : Transfer) (peerId : String) (c : StagedChunk) (s : System) : Prop :=
  HasChunk getMimeType me t c (s.stores peerId)

/-- The peer has all of a message. -/
def HoldsAll (t : Transfer) (peerId : String) (s : System) : Prop := HasAll getMimeType me t (s.stores peerId)

/-- What a receipt is evidence of. -/
structure Sound (once : (System → Prop) → Prop) (t : Transfer) (peerId : String) (token : Bytes) : Prop where
  chunk : ∀ c ∈ t.result.chunks, token = t.tokenOf L c → once (Holds getMimeType me t peerId c)
  all : token = t.result.hash → once (HoldsAll getMimeType me t peerId)

/-- The row of a staged chunk, before its first frame or after. -/
def RowOf (t : Transfer) (row : NewChunk) : Prop :=
  ∃ c ∈ t.result.chunks, row.chunkIndex = c.chunkIndex ∧ row.leafHash = uint8ArrayToHex c.leafHash ∧
    row.data = c.data ∧ row.metadata = c.metadata ∧
    (row.merkleProof.length = 0 ∨ Proving L t c row.merkleProof) ∧
    (row.receiptToken = "" ∨ row.receiptToken = uint8ArrayToHex (t.tokenOf L c))

/-- The cell of a chunk. -/
structure CellOf (t : Transfer) (c : StagedChunk) (cell : Cell) : Prop where
  metadata : cell.metadata = c.metadata
  data : cell.data = c.data
  proof : Proving L t c cell.merkleProof
  length : DECRYPTED_LEN = cell.metadata.length + cell.merkleProof.length + cell.data.length

/-- What is noted of a peer. -/
structure Noted (once : (System → Prop) → Prop) (t : Transfer) (peerId : String) (e : Edge) : Prop where
  acked : ∀ i ∈ e.acked, ∃ c ∈ t.result.chunks, c.chunkIndex = i ∧ once (Holds getMimeType me t peerId c)
  complete : e.complete = true → once (HoldsAll getMimeType me t peerId)

/-- What holds in every state of a run; `once` tells what was the case at some point of it. -/
structure Inv (once : (System → Prop) → Prop) (s : System) : Prop where
  split : ∀ t ∈ s.transfers, Split L t
  apart : ∀ t ∈ s.transfers, ∀ t' ∈ s.transfers, t.transferId = t'.transferId ∨
    t.result.merkleRoot = t'.result.merkleRoot → t = t'
  rows : ∀ t ∈ s.transfers, ∀ row ∈ s.newChunks.rows, row.transferId = t.transferId → RowOf L t row
  rooms : ∀ t ∈ s.transfers, ∀ r ∈ s.rooms, ∀ m ∈ r.messages, m.transferId = some t.transferId → m = t.roomMessage
  ids : ∀ r ∈ s.rooms, ∀ m ∈ r.messages, ∀ id, m.transferId = some id → Plain id
  frames : ∀ c, ∀ cell ∈ s.frames c, ∃ t ∈ s.transfers, c = t.channel c.peerId ∧
    ∃ x ∈ t.result.chunks, CellOf L t x cell
  records : ∀ t ∈ s.transfers, ∀ p, OnlyChunks getMimeType me t (s.stores p)
  messages : ∀ t ∈ s.transfers, ∀ p, RowAgrees getMimeType me t (s.stores p)
  saved : ∀ t ∈ s.transfers, ∀ p m, (s.stores p).messageData.lookup t.rootHex = some m →
    m.savedSize = m.totalSize → once (HoldsAll getMimeType me t p)
  receipts : ∀ t ∈ s.transfers, ∀ c, c.merkleRoot = t.result.merkleRoot → ∀ frame ∈ s.receipts c, ∀ token,
    decodeReceiptFrame frame = some token → Sound L getMimeType me once t c.peerId token
  edges : ∀ t ∈ s.transfers, ∀ p, Plain p →
    Noted getMimeType me once t p (s.edges.edge t.roomId p t.transferId)
  keys : ∀ k ∈ s.edges.keys, ∃ room peer id, k = key room peer id ∧ Plain room ∧ Plain peer ∧ Plain id

variable {L getMimeType me} {once once' : (System → Prop) → Prop} {s s' : System}

theorem Sound.mono (hmono : ∀ φ, once φ → once' φ) {t : Transfer} {p : String} {token : Bytes}
    (h : Sound L getMimeType me once t p token) : Sound L getMimeType me once' t p token :=
  ⟨fun c hc htoken => hmono _ (h.chunk c hc htoken), fun htoken => hmono _ (h.all htoken)⟩

theorem Noted.mono (hmono : ∀ φ, once φ → once' φ) {t : Transfer} {p : String} {e : Edge}
    (h : Noted getMimeType me once t p e) : Noted getMimeType me once' t p e := by
  refine ⟨fun i hi => ?_, fun hc => hmono _ (h.complete hc)⟩
  obtain ⟨c, hc, hindex, hholds⟩ := h.acked i hi
  exact ⟨c, hc, hindex, hmono _ hholds⟩

/-- What was the case stays so. -/
theorem Inv.mono (hmono : ∀ φ, once φ → once' φ) (h : Inv L getMimeType me once s) :
    Inv L getMimeType me once' s :=
  { h with
    saved := fun t ht p m hm hfull => hmono _ (h.saved t ht p m hm hfull)
    receipts := fun t ht c hc frame hframe token htoken => (h.receipts t ht c hc frame hframe token htoken).mono hmono
    edges := fun t ht p hp => (h.edges t ht p hp).mono hmono }

theorem rootHex_inj {a b : Bytes} (h : uint8ArrayToHex a = uint8ArrayToHex b) : a = b :=
  hexChars_injective (String.ofList_injective h)

theorem Inv.sliced (h : Inv L getMimeType me once s) {t : Transfer} (ht : t ∈ s.transfers) :
    ∃ maxBytes, Sliced L getMimeType me t maxBytes :=
  sliced_of_split (h.split t ht)

/-! ## Receipts on a channel -/

theorem mem_sendReceiptFrame {receipts : List Bytes} {token frame : Bytes} :
    frame ∈ sendReceiptFrame receipts token ↔ frame ∈ receipts ∨ encodeReceiptFrame token = .ok frame := by
  unfold sendReceiptFrame
  rw [List.mem_append, Option.mem_toList]
  refine or_congr_right ?_
  cases encodeReceiptFrame token with
  | ok f =>
    constructor
    · intro h
      rw [Option.some.inj h]
    · intro h
      exact congrArg some (Except.ok.inj h)
  | error e =>
    constructor
    · intro h
      cases h
    · intro h
      cases h

theorem mem_foldl_sendReceiptFrame {tokens receipts : List Bytes} {frame : Bytes}
    (h : frame ∈ tokens.foldl sendReceiptFrame receipts) :
    frame ∈ receipts ∨ ∃ token ∈ tokens, encodeReceiptFrame token = .ok frame := by
  induction tokens generalizing receipts with
  | nil => exact Or.inl h
  | cons token tokens ih =>
    rcases ih h with hsent | ⟨token', htoken', hframe⟩
    · rcases mem_sendReceiptFrame.mp hsent with hold | hframe
      · exact Or.inl hold
      · exact Or.inr ⟨token, List.mem_cons_self, hframe⟩
    · exact Or.inr ⟨token', List.mem_cons_of_mem _ htoken', hframe⟩

/-- Receipts that are sound for every send on their channel may be sent. -/
theorem Inv.answered (h : Inv L getMimeType me once s) {c : Channel} {tokens : List Bytes}
    (htokens : ∀ t ∈ s.transfers, c.merkleRoot = t.result.merkleRoot → ∀ token ∈ tokens,
      Sound L getMimeType me once t c.peerId token) : Inv L getMimeType me once (s.answered c tokens) := by
  refine { h with receipts := ?_ }
  intro t ht c' hc' frame hframe token hdecode
  by_cases hchannel : c' = c
  · subst hchannel
    rw [answered_receipts] at hframe
    rcases mem_foldl_sendReceiptFrame hframe with hold | ⟨token', htoken', hencode⟩
    · exact h.receipts t ht c' hc' frame hold token hdecode
    · rw [decodeReceiptFrame_eq_some_iff.mpr hencode] at hdecode
      cases hdecode
      exact htokens t ht hc' _ htoken'
  · rw [answered_receipts_ne s tokens hchannel] at hframe
    exact h.receipts t ht c' hc' frame hframe token hdecode

/-- A random receipt is evidence of nothing. -/
theorem sound_decoy {t : Transfer} {maxBytes : Nat} (ht : Sliced L getMimeType me t maxBytes) {token : Bytes}
    (hdecoy : token ∉ t.tokens L) (p : String) : Sound L getMimeType me once t p token := by
  constructor
  · rintro c hc rfl
    exact absurd (tokenOf_mem hc) hdecoy
  · rintro rfl
    rw [ht.hash] at hdecoy
    exact absurd List.mem_cons_self hdecoy

theorem sound_token {t : Transfer} {maxBytes : Nat} (hsplit : Split L t)
    (ht : Sliced L getMimeType me t maxBytes) {c : StagedChunk} (hc : c ∈ t.result.chunks) {p : String}
    (h : once (Holds getMimeType me t p c)) : Sound L getMimeType me once t p (t.tokenOf L c) := by
  obtain ⟨hne, hinj⟩ := token_apart hsplit ht hc
  constructor
  · intro c' hc' heq
    rwa [← hinj c' hc' heq]
  · exact fun heq => absurd heq hne

theorem sound_hash {t : Transfer} {maxBytes : Nat} (hsplit : Split L t)
    (ht : Sliced L getMimeType me t maxBytes) {p : String} (h : once (HoldsAll getMimeType me t p)) :
    Sound L getMimeType me once t p t.result.hash :=
  ⟨fun _ hc heq => absurd heq.symm (token_apart hsplit ht hc).1, fun _ => h⟩

/-! ## A peer that changes its database -/

/-- A database may change so that the transfers stay what they are in it. -/
theorem Inv.stored (h : Inv L getMimeType me once s) {p : String} {db : Database}
    (hrecords : ∀ t ∈ s.transfers, OnlyChunks getMimeType me t db)
    (hmessages : ∀ t ∈ s.transfers, RowAgrees getMimeType me t db)
    (hsaved : ∀ t ∈ s.transfers, ∀ m, db.messageData.lookup t.rootHex = some m → m.savedSize = m.totalSize →
      once (HoldsAll getMimeType me t p)) : Inv L getMimeType me once (s.stored p db) := by
  have hat : ∀ p', (s.stored p db).stores p' = if p' = p then db else s.stores p' := by
    intro p'
    exact Function.update_apply s.stores p db p'
  refine { h with records := ?_, messages := ?_, saved := ?_ }
  · intro t ht p'
    rw [hat]
    split
    · exact hrecords t ht
    · exact h.records t ht p'
  · intro t ht p'
    rw [hat]
    split
    · exact hmessages t ht
    · exact h.messages t ht p'
  · intro t ht p' m hm hfull
    rw [hat] at hm
    split at hm
    case isTrue hp =>
      rw [hp]
      exact hsaved t ht m hm hfull
    case isFalse => exact h.saved t ht p' m hm hfull

theorem OnlyChunks.nothingNew {t : Transfer} {db db' : Database} (h : OnlyChunks getMimeType me t db)
    (hnew : NothingNew t.rootHex db db') : OnlyChunks getMimeType me t db' :=
  fun r hr hroot => h r (hnew.chunks r hr hroot) hroot

theorem RowAgrees.nothingNew {t : Transfer} {db db' : Database} (h : RowAgrees getMimeType me t db)
    (hnew : NothingNew t.rootHex db db') : RowAgrees getMimeType me t db' :=
  fun m hm => h m (hnew.message m hm)

/-- A peer may lose what it has. -/
theorem Inv.lost (h : Inv L getMimeType me once s) {p : String} {db : Database}
    (hnew : ∀ t ∈ s.transfers, NothingNew t.rootHex (s.stores p) db) :
    Inv L getMimeType me once (s.stored p db) :=
  h.stored (fun t ht => (h.records t ht p).nothingNew (hnew t ht))
    (fun t ht => (h.messages t ht p).nothingNew (hnew t ht))
    (fun t ht m hm hfull => h.saved t ht p m ((hnew t ht).message m hm) hfull)

/-! ## A frame that arrives -/

section Receive

variable {t : Transfer} {maxBytes : Nat} {c : StagedChunk} {p : String} {cell : Cell} {r : Reception} {db : Database}

/-- What a peer makes of a frame of a chunk: it leaves its database and confirms nothing, or it calls
the store, and confirms what the store has answered. -/
theorem handleReceiveMessage_cases (ht : Sliced L getMimeType me t maxBytes) (hc : c ∈ t.result.chunks)
    (hmetadata : cell.metadata = c.metadata) (hdata : cell.data = c.data) :
    ((handleReceiveMessage L getMimeType me (t.channel p) cell r db).2 = db ∧
      (handleReceiveMessage L getMimeType me (t.channel p) cell r db).1.chunkIndex = none ∧
      (handleReceiveMessage L getMimeType me (t.channel p) cell r db).1.receivedFullSize = false) ∨
    ∃ call, t.call getMimeType me c = some call ∧
      (handleReceiveMessage L getMimeType me (t.channel p) cell r db).2 =
        ((⟨call, r.wroteToOPFS, r.committed⟩ : StoreCall).store db).2 ∧
      (((handleReceiveMessage L getMimeType me (t.channel p) cell r db).1.chunkIndex = none ∧
          (handleReceiveMessage L getMimeType me (t.channel p) cell r db).1.receivedFullSize = false) ∨
        ∃ progress, ((⟨call, r.wroteToOPFS, r.committed⟩ : StoreCall).store db).1 = .ok progress ∧
          (handleReceiveMessage L getMimeType me (t.channel p) cell r db).1.chunkHash = t.tokenOf L c ∧
          (handleReceiveMessage L getMimeType me (t.channel p) cell r db).1.receivedFullSize = progress.complete ∧
          (handleReceiveMessage L getMimeType me (t.channel p) cell r db).1.messageHash = t.result.hash) := by
  obtain ⟨m, hread, hindex, hhash⟩ := ht.metadata c hc
  unfold handleReceiveMessage
  by_cases hstop : r.opened = false ∨ r.aborted = true
  · rw [if_pos hstop]
    exact Or.inl ⟨rfl, rfl, rfl⟩
  · rw [if_neg hstop, hmetadata, hdata, ← ht.leaf c hc]
    cases hchecked : checkedMetadata c.metadata with
    | error e => exact Or.inl ⟨rfl, rfl, rfl⟩
    | ok m' =>
      have hm : m' = m := by
        unfold checkedMetadata at hchecked
        rw [hread, ok_bind] at hchecked
        obtain ⟨_, -, hchecked⟩ := except_bind_eq_ok.mp hchecked
        exact (except_pure_eq_ok.mp hchecked).symm
      subst hm
      have hcell : (⟨m'.chunkIndex, c.leafHash, c.data, c.metadata⟩ : StagedChunk) = c := by
        rw [hindex]
      dsimp only
      rw [hcell]
      cases hcall : receiveChunkOf getMimeType ⟨(t.channel p).roomId, me, (t.channel p).label⟩
          (t.channel p).merkleRoot c with
      | none => exact Or.inl ⟨rfl, rfl, rfl⟩
      | some call =>
        dsimp only
        cases htoken : createChunkReceiptToken L (t.channel p).merkleRoot m'.chunkIndex c.leafHash with
        | error e => exact Or.inl ⟨rfl, rfl, rfl⟩
        | ok token =>
          refine Or.inr ⟨call, hcall, ?_⟩
          dsimp only
          have htokenOf : token = t.tokenOf L c := by
            rw [(createChunkReceiptToken_eq_ok.mp htoken).2.2.2, hindex]
            rfl
          unfold StoreCall.store
          dsimp only
          rcases hstore : storeReceiveChunkLocked call r.wroteToOPFS r.committed db with ⟨e | progress, db'⟩
          · exact ⟨rfl, Or.inl ⟨rfl, rfl⟩⟩
          · dsimp only
            by_cases habort : r.abortedAfterStore = true
            · rw [if_pos habort]
              exact ⟨rfl, Or.inl ⟨rfl, rfl⟩⟩
            · rw [if_neg habort]
              exact ⟨rfl, Or.inr ⟨progress, rfl, htokenOf, rfl, hhash⟩⟩

/-- What a peer sends for a frame: a random receipt, or one of what the call has answered. -/
theorem mem_processMessage {token : Bytes} {channel : Channel}
    (h : token ∈ (processMessage L getMimeType me channel cell r db).1) :
    token = r.decoy ∨
      ((handleReceiveMessage L getMimeType me channel cell r db).1.chunkIndex ≠ none ∧
        token = (handleReceiveMessage L getMimeType me channel cell r db).1.chunkHash) ∨
      ((handleReceiveMessage L getMimeType me channel cell r db).1.receivedFullSize = true ∧
        token = (handleReceiveMessage L getMimeType me channel cell r db).1.messageHash) := by
  unfold processMessage at h
  dsimp only at h
  split at h
  · cases h
  · rcases List.mem_cons.mp h with hfirst | hlast
    · unfold sendReceiveFrameReceipt at hfirst
      split at hfirst
      case isTrue hreal => exact Or.inr (Or.inl ⟨Option.isSome_iff_ne_none.mp hreal.2.2.1, hfirst⟩)
      case isFalse => exact Or.inl hfirst
    · split at hlast
      case isTrue hfull => exact Or.inr (Or.inr ⟨hfull.1, List.mem_singleton.mp hlast⟩)
      case isFalse => cases hlast

theorem processMessage_snd (channel : Channel) :
    (processMessage L getMimeType me channel cell r db).2 =
      (handleReceiveMessage L getMimeType me channel cell r db).2 := by
  unfold processMessage
  dsimp only
  split <;> rfl

end Receive

/-- A frame that arrives: what the peer confirms it has stored. -/
theorem Inv.receive (h : Inv L getMimeType me once s) {channel : Channel} {k : Nat} {r : Reception}
    (hdecoy : IsDecoy L channel r.decoy s)
    (hnow : ∀ φ, φ (System.step L getMimeType me (.receive channel k r) s) → once φ) :
    Inv L getMimeType me once (System.step L getMimeType me (.receive channel k r) s) := by
  dsimp only [System.step] at hnow ⊢
  cases hcell : (s.frames channel)[k]? with
  | none => exact h
  | some cell =>
    rw [hcell] at hnow
    dsimp only at hnow ⊢
    obtain ⟨t, ht, hchannel, c, hc, hparts⟩ := h.frames channel cell (List.mem_of_getElem? hcell)
    obtain ⟨maxBytes, hsliced⟩ := h.sliced ht
    have hsplit := h.split t ht
    generalize hp : channel.peerId = p at hchannel hnow ⊢
    subst hchannel
    have hown : ∀ t' ∈ s.transfers, (t.channel p).merkleRoot = t'.result.merkleRoot → t' = t :=
      fun t' ht' hroot => h.apart t' ht' t ht (Or.inr hroot.symm)
    have hother : ∀ t' ∈ s.transfers, t' ≠ t → ∀ call, t.call getMimeType me c = some call →
        call.merkleRoot ≠ t'.rootHex := by
      intro t' ht' hne call hcall hroot
      rw [(hsliced.called c hc call hcall).2.1] at hroot
      exact hne (hown t' ht' (rootHex_inj hroot))
    set out := processMessage L getMimeType me (t.channel p) cell r (s.stores p) with hout
    have hdb : out.2 = (handleReceiveMessage L getMimeType me (t.channel p) cell r (s.stores p)).2 :=
      processMessage_snd _
    have hstores : ((s.stored p out.2).answered (t.channel p) out.1).stores p = out.2 := stored_stores s p out.2
    rcases @handleReceiveMessage_cases L getMimeType me t maxBytes c p cell r (s.stores p) hsliced hc hparts.metadata
      hparts.data with ⟨hsame, hnone, hpart⟩ | ⟨call, hcall, hafter, hanswer⟩
    · -- the database is what it was, and the receipt is random
      have hlost : Inv L getMimeType me once (s.stored p out.2) := by
        refine h.lost fun t' ht' => ?_
        rw [hdb, hsame]
        exact ⟨fun _ hx _ => hx, fun _ hm => hm⟩
      refine hlost.answered ?_
      intro t' ht' hroot token htoken
      obtain rfl := hown t' ht' hroot
      rcases mem_processMessage htoken with rfl | ⟨hsome, -⟩ | ⟨hfull, -⟩
      · exact sound_decoy hsliced (hdecoy t' ht hroot) _
      · exact absurd hnone hsome
      · rw [hpart] at hfull
        cases hfull
    · -- the store is called: its own transfer as `store_staged` says, the others as they were
      obtain ⟨honly, hrow, hsaved, hanswered⟩ := store_staged hsliced hc hcall r.wroteToOPFS r.committed
        (h.records t ht p) (h.messages t ht p)
      rw [← hafter, ← hdb] at honly hrow hsaved hanswered
      have hnew : ∀ t' ∈ s.transfers, t' ≠ t → NothingNew t'.rootHex (s.stores p) out.2 := by
        intro t' ht' hne
        rw [hdb, hafter]
        exact store_nothingNew (hother t' ht' hne call hcall) _
      have hstored : Inv L getMimeType me once (s.stored p out.2) := by
        refine h.stored ?_ ?_ ?_
        · intro t' ht'
          by_cases hne : t' = t
          · exact hne ▸ honly
          · exact (h.records t' ht' p).nothingNew (hnew t' ht' hne)
        · intro t' ht'
          by_cases hne : t' = t
          · exact hne ▸ hrow
          · exact (h.messages t' ht' p).nothingNew (hnew t' ht' hne)
        · intro t' ht' m hm hfull
          by_cases hne : t' = t
          · subst hne
            rcases hsaved m hm with hold | hall
            · exact h.saved t' ht p m hold hfull
            · refine hnow _ ?_
              show HasAll getMimeType me t' _
              rw [hstores]
              exact hall hfull
          · exact h.saved t' ht' p m ((hnew t' ht' hne).message m hm) hfull
      refine hstored.answered ?_
      intro t' ht' hroot token htoken
      obtain rfl := hown t' ht' hroot
      have hchunk : ∀ progress, ((⟨call, r.wroteToOPFS, r.committed⟩ : StoreCall).store (s.stores p)).1
          = .ok progress → once (Holds getMimeType me t' p c) ∧
            (progress.complete = true → once (HoldsAll getMimeType me t' p)) := by
        intro progress hok
        obtain ⟨hhas, hall⟩ := hanswered progress hok
        constructor
        · refine hnow _ ?_
          show HasChunk getMimeType me t' c _
          rw [hstores]
          exact hhas
        · intro hcomplete
          refine hnow _ ?_
          show HasAll getMimeType me t' _
          rw [hstores]
          exact hall hcomplete
      rcases mem_processMessage htoken with rfl | ⟨hsome, rfl⟩ | ⟨hfull, rfl⟩
      · exact sound_decoy hsliced (hdecoy t' ht hroot) _
      · rcases hanswer with ⟨hnone, -⟩ | ⟨progress, hok, htokenOf, -, -⟩
        · exact absurd hnone hsome
        · rw [htokenOf]
          exact sound_token hsplit hsliced hc (hchunk progress hok).1
      · rcases hanswer with ⟨-, hpart⟩ | ⟨progress, hok, -, hcomplete, hhash⟩
        · rw [hpart] at hfull
          cases hfull
        · rw [hhash]
          exact sound_hash hsplit hsliced ((hchunk progress hok).2 (hcomplete ▸ hfull))

/-! ## Receipts that are repeated -/

theorem hexDecode_uint8ArrayToHex (bytes : Bytes) : hexDecode (uint8ArrayToHex bytes).toList = bytes := by
  rw [uint8ArrayToHex, String.toList_ofList, hexDecode_hexChars]

theorem mem_storedTokens {root : Bytes} {stored : List (Nat × Option String)} {tokens : List Bytes}
    (h : storedTokens L root stored = .ok tokens) {token : Bytes} (htoken : token ∈ tokens) :
    ∃ i leafHash, (i, some leafHash) ∈ stored ∧
      createChunkReceiptToken L root i (hexDecode leafHash.toList) = .ok token := by
  induction stored generalizing tokens with
  | nil =>
    cases h
    cases htoken
  | cons entry rest ih =>
    have hrest : ∀ {tokens}, storedTokens L root rest = .ok tokens → token ∈ tokens →
        ∃ i leafHash, (i, some leafHash) ∈ entry :: rest ∧
          createChunkReceiptToken L root i (hexDecode leafHash.toList) = .ok token := by
      intro tokens hok hmem
      obtain ⟨i, leafHash, hentry, hcreated⟩ := ih hok hmem
      exact ⟨i, leafHash, List.mem_cons_of_mem _ hentry, hcreated⟩
    obtain ⟨i, leafHash⟩ := entry
    unfold storedTokens at h
    cases leafHash with
    | none => exact hrest h htoken
    | some leafHash =>
      dsimp only at h
      split at h
      · exact hrest h htoken
      · obtain ⟨first, hfirst, h⟩ := except_bind_eq_ok.mp h
        obtain ⟨others, hothers, h⟩ := except_bind_eq_ok.mp h
        cases except_pure_eq_ok.mp h
        rcases List.mem_cons.mp htoken with rfl | hmem
        · exact ⟨i, leafHash, List.mem_cons_self, hfirst⟩
        · exact hrest hothers hmem

/-- The receipts a peer repeats are those of chunks it has. -/
theorem mem_replayTokens {t : Transfer} {maxBytes : Nat} (ht : Sliced L getMimeType me t maxBytes) {c : Channel}
    (hroot : c.merkleRoot = t.result.merkleRoot) {db : Database} (hdb : OnlyChunks getMimeType me t db)
    {token : Bytes} (h : token ∈ replayTokens L c db) :
    ∃ x ∈ t.result.chunks, HasChunk getMimeType me t x db ∧ token = t.tokenOf L x := by
  unfold replayTokens at h
  cases hstored : storedTokens L c.merkleRoot (fnGetDBAllChunkLeafHashes (uint8ArrayToHex c.merkleRoot) db) with
  | error e =>
    rw [hstored] at h
    cases h
  | ok tokens =>
    rw [hstored] at h
    obtain ⟨i, leafHash, hentry, hcreated⟩ := mem_storedTokens hstored h
    unfold fnGetDBAllChunkLeafHashes at hentry
    split at hentry
    case isTrue => cases hentry
    case isFalse =>
      obtain ⟨r, hr, heq⟩ := List.mem_map.mp hentry
      obtain ⟨hmem, hrroot⟩ := List.mem_filter.mp hr
      have hrecord := (of_decide_eq_true hrroot).trans (congrArg uint8ArrayToHex hroot)
      obtain ⟨x, hx, call, w, hcall, rfl⟩ := hdb r hmem hrecord
      obtain ⟨hindex, hleaf⟩ := Prod.mk.inj heq
      refine ⟨x, hx, ⟨call, w, hcall, hmem⟩, ?_⟩
      have hleaf' : leafHash = uint8ArrayToHex x.leafHash :=
        (Option.some.inj hleaf).symm.trans (receiveChunkOf_leafHash hcall)
      have hindex' : i = x.chunkIndex := hindex.symm.trans (ht.called x hx call hcall).1
      rw [(createChunkReceiptToken_eq_ok.mp hcreated).2.2.2, hleaf', hexDecode_uint8ArrayToHex, hindex', hroot]
      rfl

theorem Inv.replayChunks (h : Inv L getMimeType me once s) (c : Channel)
    (hnow : ∀ φ, φ (s.answered c (replayTokens L c (s.stores c.peerId))) → once φ) :
    Inv L getMimeType me once (s.answered c (replayTokens L c (s.stores c.peerId))) := by
  refine h.answered ?_
  intro t ht hroot token htoken
  obtain ⟨maxBytes, hsliced⟩ := h.sliced ht
  obtain ⟨x, hx, hhas, rfl⟩ := mem_replayTokens hsliced hroot (h.records t ht c.peerId) htoken
  exact sound_token (h.split t ht) hsliced hx (hnow _ hhas)

theorem Inv.replayTerminal (h : Inv L getMimeType me once s) (c : Channel) :
    Inv L getMimeType me once (s.answered c (Delivery.replayTerminal c (s.stores c.peerId))) := by
  refine h.answered ?_
  intro t ht hroot token htoken
  obtain ⟨maxBytes, hsliced⟩ := h.sliced ht
  unfold Delivery.replayTerminal at htoken
  rw [hroot] at htoken
  cases hrow : (s.stores c.peerId).messageData.lookup (uint8ArrayToHex t.result.merkleRoot) with
  | none =>
    rw [hrow] at htoken
    cases htoken
  | some md =>
    rw [hrow] at htoken
    dsimp only at htoken
    split at htoken
    case isTrue hfull =>
      rw [List.mem_singleton.mp htoken, (h.messages t ht c.peerId md hrow).1, hexDecode_uint8ArrayToHex]
      exact sound_hash (h.split t ht) hsliced (h.saved t ht c.peerId md hrow hfull.2.1)
    case isFalse => cases htoken

/-! ## The sender's events -/

/-- A row with its proof and its token. -/
theorem prepareChunk_some {t : Transfer} {maxBytes : Nat} (ht : Sliced L getMimeType me t maxBytes) {i : Nat}
    {reconcileAcked : Option (Finset Nat)} {padding : RandomBytes PROOF_LEN} {rows : NewChunks}
    (hrows : ∀ row ∈ rows.rows, row.transferId = t.transferId → RowOf L t row) {old row : NewChunk}
    (h : prepareChunk L t i reconcileAcked padding rows = .ok (some (old, row))) :
    row.transferId = t.transferId ∧ row.chunkIndex = i ∧ row.merkleProof.length ≠ 0 ∧ RowOf L t row := by
  unfold prepareChunk at h
  cases hget : fnGetDBNewChunk t.transferId i rows with
  | none =>
    rw [hget] at h
    cases h
  | some stored =>
    rw [hget] at h
    obtain ⟨hmem, hid, hi⟩ := fnGetDBNewChunk_eq_some.mp hget
    obtain ⟨c, hc, hindex, hleaf, hdata, hmetadata, hproof, htoken⟩ := hrows stored hmem hid
    obtain ⟨m, hread, hmindex, -⟩ := ht.metadata c hc
    obtain ⟨m', hm', h⟩ := except_bind_eq_ok.mp h
    rw [hmetadata, hread] at hm'
    cases hm'
    obtain ⟨_, -, h⟩ := except_bind_eq_ok.mp h
    split at h
    case isTrue => cases h
    case isFalse =>
      obtain ⟨proof, hmade, h⟩ := except_bind_eq_ok.mp h
      obtain ⟨receiptToken, hreceipt, h⟩ := except_bind_eq_ok.mp h
      cases except_pure_eq_ok.mp h
      rw [hleaf, hexDecode_uint8ArrayToHex] at hmade
      obtain ⟨proof', hproof', hproves⟩ := ht.proof c hc _ padding hproof
      rw [hproof'] at hmade
      cases hmade
      refine ⟨hid, hi, ?_, c, hc, hindex, hleaf, hdata, hmetadata, Or.inr hproves, Or.inr ?_⟩
      · dsimp only
        rw [hproves.length]
        decide
      · unfold outboundToken at hreceipt
        split at hreceipt
        case isTrue hlong =>
          cases hreceipt
          rcases htoken with hempty | heq
          · rw [hempty] at hlong
            cases hlong
          · exact heq
        case isFalse =>
          rw [hleaf, hexDecode_uint8ArrayToHex] at hreceipt
          cases hcreated : createChunkReceiptToken L t.result.merkleRoot m.chunkIndex c.leafHash with
          | error e =>
            rw [hcreated] at hreceipt
            cases hreceipt
          | ok token =>
            rw [hcreated] at hreceipt
            cases hreceipt
            rw [(createChunkReceiptToken_eq_ok.mp hcreated).2.2.2, hmindex]
            rfl

/-- What a round writes and what it seals. -/
theorem sendRound_cases {t : Transfer} {maxBytes : Nat} (ht : Sliced L getMimeType me t maxBytes) {i : Nat}
    {reconcileAcked : Option (Finset Nat)} {padding : RandomBytes PROOF_LEN} {rows : NewChunks}
    (hrows : ∀ row ∈ rows.rows, row.transferId = t.transferId → RowOf L t row) :
    (∀ x ∈ (sendRound L t i reconcileAcked padding rows).2.rows,
      x ∈ rows.rows ∨ (x.transferId = t.transferId ∧ RowOf L t x)) ∧
    ∀ cell, (sendRound L t i reconcileAcked padding rows).1 = .ok (some cell) →
      ∃ c ∈ t.result.chunks, c.chunkIndex = i ∧ CellOf L t c cell := by
  unfold sendRound
  rcases hprepare : prepareChunk L t i reconcileAcked padding rows with e | _ | ⟨old, row⟩
  · exact ⟨fun x hx => Or.inl hx, by rintro cell ⟨⟩⟩
  · exact ⟨fun x hx => Or.inl hx, by rintro cell ⟨⟩⟩
  · obtain ⟨hid, hi, hproof, hrow⟩ := prepareChunk_some ht hrows hprepare
    have hwritten : ∀ x ∈ (if old.merkleProof.length = 0 ∨ old.merkleRoot ≠ row.merkleRoot ∨
        old.receiptToken ≠ row.receiptToken then fnSetDBNewChunk row rows else rows).rows,
        x ∈ rows.rows ∨ (x.transferId = t.transferId ∧ RowOf L t x) := by
      intro x hx
      split at hx
      · rcases mem_fnSetDBNewChunk.mp hx with rfl | ⟨hold, -⟩
        · exact Or.inr ⟨hid, hrow⟩
        · exact Or.inl hold
      · exact Or.inl hx
    obtain ⟨c, hc, hindex, -, hdata, hmetadata, hproves, -⟩ := hrow
    dsimp only
    split
    case isTrue hlength =>
      refine ⟨hwritten, ?_⟩
      intro cell hcell
      cases hcell
      exact ⟨c, hc, hindex.symm.trans hi, hmetadata, hdata, hproves.resolve_left hproof, hlength⟩
    · refine ⟨hwritten, ?_⟩
      intro cell hcell
      cases hcell

/-- The rows of the sends once those of one are written. -/
theorem Inv.written (h : Inv L getMimeType me once s) {t : Transfer} (ht : t ∈ s.transfers) {rows : NewChunks}
    (hrows : ∀ x ∈ rows.rows, x ∈ s.newChunks.rows ∨ (x.transferId = t.transferId ∧ RowOf L t x)) :
    Inv L getMimeType me once { s with newChunks := rows } := by
  refine { h with rows := ?_ }
  intro t' ht' row hrow hid
  rcases hrows row hrow with hold | ⟨hid', hof⟩
  · exact h.rows t' ht' row hold hid
  · rwa [h.apart t' ht' t ht (Or.inl (hid.symm.trans hid'))]

theorem Inv.send (h : Inv L getMimeType me once s) (n : Nat) (p : String) (i : Nat)
    (reconcileAcked : Option (Finset Nat)) (padding : RandomBytes PROOF_LEN) :
    Inv L getMimeType me once (System.step L getMimeType me (.send n p i reconcileAcked padding) s) := by
  dsimp only [System.step]
  cases hget : s.transfers[n]? with
  | none => exact h
  | some t =>
    have ht := List.mem_of_getElem? hget
    obtain ⟨maxBytes, hsliced⟩ := h.sliced ht
    obtain ⟨hrows, hcell⟩ := @sendRound_cases L getMimeType me t maxBytes hsliced i reconcileAcked padding
      s.newChunks (h.rows t ht)
    dsimp only
    rcases hround : sendRound L t i reconcileAcked padding s.newChunks with ⟨e | _ | cell, newChunks⟩
    · rw [hround] at hrows
      exact h.written ht hrows
    · rw [hround] at hrows
      exact h.written ht hrows
    · rw [hround] at hrows hcell
      refine { h.written ht hrows with frames := ?_ }
      intro c cell' hmem
      dsimp only at hmem
      by_cases hc : c = t.channel p
      · subst hc
        rw [Function.update_self, List.mem_append, List.mem_singleton] at hmem
        rcases hmem with hold | rfl
        · exact h.frames _ _ hold
        · obtain ⟨c, hc, -, hparts⟩ := hcell cell' rfl
          exact ⟨t, ht, rfl, c, hc, hparts⟩
      · rw [Function.update_of_ne hc] at hmem
        exact h.frames c cell' hmem

theorem mem_stageRows {t : Transfer} {chunks : List StagedChunk} {rows : NewChunks} {x : NewChunk}
    (h : x ∈ (chunks.foldl (fun rows c => fnSetDBNewChunk (t.newChunk c) rows) rows).rows) :
    x ∈ rows.rows ∨ ∃ c ∈ chunks, x = t.newChunk c := by
  induction chunks generalizing rows with
  | nil => exact Or.inl h
  | cons c chunks ih =>
    rcases ih h with hstaged | ⟨c', hc', rfl⟩
    · rcases mem_fnSetDBNewChunk.mp hstaged with rfl | ⟨hold, -⟩
      · exact Or.inr ⟨c, List.mem_cons_self, rfl⟩
      · exact Or.inl hold
    · exact Or.inr ⟨c', List.mem_cons_of_mem _ hc', rfl⟩

/-- A message in a room once one is added to a room. -/
theorem mem_noted {rooms : List Room} {roomId : String} {m : RoomMessage} {r : Room}
    (h : r ∈ rooms.map fun r => if r.id = roomId then { r with messages := r.messages ++ [m] } else r)
    {x : RoomMessage} (hx : x ∈ r.messages) : x = m ∨ ∃ r' ∈ rooms, x ∈ r'.messages := by
  obtain ⟨r', hr', rfl⟩ := List.mem_map.mp h
  split at hx
  · rcases List.mem_append.mp hx with hold | hnew
    · exact Or.inr ⟨r', hr', hold⟩
    · exact Or.inl (List.mem_singleton.mp hnew)
  · exact Or.inr ⟨r', hr', hx⟩

theorem Inv.stage (h : Inv L getMimeType me once s) {t : Transfer} (hsplit : Split L t) (hfresh : Fresh t s) :
    Inv L getMimeType me once (System.step L getMimeType me (.stage t) s) := by
  have hcases : ∀ t' ∈ s.transfers ++ [t], t' ∈ s.transfers ∨ t' = t := by
    intro t' ht'
    rcases List.mem_append.mp ht' with hold | hnew
    · exact Or.inl hold
    · exact Or.inr (List.mem_singleton.mp hnew)
  dsimp only [System.step]
  constructor
  · intro t' ht'
    rcases hcases t' ht' with hold | rfl
    · exact h.split t' hold
    · exact hsplit
  · intro t1 ht1 t2 ht2 heq
    rcases hcases t1 ht1 with hold1 | rfl
    · rcases hcases t2 ht2 with hold2 | rfl
      · exact h.apart t1 hold1 t2 hold2 heq
      · obtain ⟨hid, hroot⟩ := hfresh.transfers t1 hold1
        exact heq.elim (fun hi => absurd hi hid) fun hr => absurd hr hroot
    · rcases hcases t2 ht2 with hold2 | rfl
      · obtain ⟨hid, hroot⟩ := hfresh.transfers t2 hold2
        exact heq.elim (fun hi => absurd hi.symm hid) fun hr => absurd hr.symm hroot
      · rfl
  · intro t' ht' row hrow hid
    rcases mem_stageRows hrow with hold | ⟨c, hc, rfl⟩
    · rcases hcases t' ht' with hold' | rfl
      · exact h.rows t' hold' row hold hid
      · exact absurd hid (hfresh.newChunks row hold)
    · have hsame : t' = t := by
        rcases hcases t' ht' with hold' | rfl
        · exact absurd hid.symm (hfresh.transfers t' hold').1
        · rfl
      subst hsame
      exact ⟨c, hc, rfl, rfl, rfl, rfl, Or.inl rfl, Or.inl rfl⟩
  · intro t' ht' r hr m hm hid
    rcases mem_noted hr hm with rfl | ⟨r', hr', hm'⟩
    · rcases hcases t' ht' with hold' | rfl
      · exact absurd (Option.some.inj hid).symm (hfresh.transfers t' hold').1
      · rfl
    · rcases hcases t' ht' with hold' | rfl
      · exact h.rooms t' hold' r' hr' m hm' hid
      · exact absurd hid (hfresh.rooms r' hr' m hm')
  · intro r hr m hm id hid
    rcases mem_noted hr hm with rfl | ⟨r', hr', hm'⟩
    · exact Option.some.inj hid ▸ hsplit.transferId
    · exact h.ids r' hr' m hm' id hid
  · intro c cell hcell
    obtain ⟨t', ht', hrest⟩ := h.frames c cell hcell
    exact ⟨t', List.mem_append_left _ ht', hrest⟩
  · intro t' ht' p
    rcases hcases t' ht' with hold | rfl
    · exact h.records t' hold p
    · intro r hr hroot
      have hmem : r ∈ (s.stores p).chunksOf t'.rootHex := List.mem_filter.mpr ⟨hr, decide_eq_true hroot⟩
      rw [(hfresh.stores p).1] at hmem
      cases hmem
  · intro t' ht' p
    rcases hcases t' ht' with hold | rfl
    · exact h.messages t' hold p
    · intro m hm
      rw [show (s.stores p).messageData.lookup t'.rootHex = none from (hfresh.stores p).2] at hm
      cases hm
  · intro t' ht' p m hm hfull
    rcases hcases t' ht' with hold | rfl
    · exact h.saved t' hold p m hm hfull
    · rw [show (s.stores p).messageData.lookup t'.rootHex = none from (hfresh.stores p).2] at hm
      cases hm
  · intro t' ht' c hc frame hframe token htoken
    rcases hcases t' ht' with hold | rfl
    · exact h.receipts t' hold c hc frame hframe token htoken
    · rw [show s.receipts c = [] from hfresh.receipts c hc] at hframe
      cases hframe
  · intro t' ht' p hp
    rcases hcases t' ht' with hold | rfl
    · exact h.edges t' hold p hp
    · have hnone : s.edges.edge t'.roomId p t'.transferId = ⟨∅, false⟩ := by
        rw [Edges.edge, OrdMap.get_eq_none_iff.mpr (hfresh.edges _ p)]
        rfl
      show Noted getMimeType me once t' p (s.edges.edge t'.roomId p t'.transferId)
      rw [hnone]
      constructor
      · intro i hi
        cases hi
      · intro hcomplete
        cases hcomplete
  · exact h.keys

/-- An edge may be written with what is noted soundly. -/
theorem Inv.noted (h : Inv L getMimeType me once s) {room peer id : String} {e : Edge} (hroom : Plain room)
    (hpeer : Plain peer) (hid : Plain id)
    (he : ∀ t ∈ s.transfers, t.roomId = room → t.transferId = id → Noted getMimeType me once t peer e) :
    Inv L getMimeType me once { s with edges := s.edges.set (key room peer id) e } := by
  refine { h with edges := ?_, keys := ?_ }
  · intro t ht p hp
    dsimp only
    by_cases hkey : key t.roomId p t.transferId = key room peer id
    · obtain ⟨hr, rfl, hi⟩ := key_inj (h.split t ht).roomId hroom hp hpeer hkey
      rw [hr, hi, edge_set_self]
      exact he t ht hr hi
    · rw [edge_set_ne _ hkey]
      exact h.edges t ht p hp
  · intro k hk
    obtain ⟨v, hv⟩ := OrdMap.mem_keys_iff.mp hk
    rcases OrdMap.mem_set_entries.mp hv with heq | ⟨hold, -⟩
    · exact ⟨room, peer, id, congrArg Prod.fst heq, hroom, hpeer, hid⟩
    · exact h.keys k (OrdMap.mem_keys_iff.mpr ⟨v, hold⟩)

theorem Inv.receipt (h : Inv L getMimeType me once s) {c : Channel} {frame token : Bytes}
    (hframe : frame ∈ s.receipts c) (hdecode : decodeReceiptFrame frame = some token) (hroom : Plain c.roomId)
    (hpeer : Plain c.peerId) :
    Inv L getMimeType me once { s with edges := (handleReadReceipt token (uint8ArrayToHex c.merkleRoot) c.peerId
      c.roomId s.rooms s.newChunks s.edges).2 } := by
  have hlength : token.length = HASH_BYTES := by
    have hencode := decodeReceiptFrame_eq_some_iff.mp hdecode
    unfold encodeReceiptFrame at hencode
    obtain ⟨_, hlong, -⟩ := except_bind_eq_ok.mp hencode
    exact demand_eq_ok.mp hlong
  -- a send with the id of the message found is the one of the channel
  have htarget : ∀ {message : RoomMessage} {id : String},
      receiptTarget s.rooms c.roomId (uint8ArrayToHex c.merkleRoot) = some (message, id) → Plain id ∧
        ∀ t ∈ s.transfers, t.transferId = id → message = t.roomMessage ∧
          Sound L getMimeType me once t c.peerId token := by
    intro message id hfound
    obtain ⟨r, hr, -, hmem, hroot, hid⟩ := receiptTarget_eq_some hfound
    refine ⟨h.ids r hr message hmem id hid, ?_⟩
    rintro t ht rfl
    have hmessage := h.rooms t ht r hr message hmem hid
    rw [hmessage] at hroot
    exact ⟨hmessage, h.receipts t ht c (rootHex_inj hroot).symm frame hframe token hdecode⟩
  rcases handleReadReceipt_cases token (uint8ArrayToHex c.merkleRoot) c.peerId c.roomId s.rooms s.newChunks
      s.edges with hsame | ⟨message, id, hfound, hhash, hafter⟩ |
      ⟨message, id, chunk, hfound, hchunk, hchunkRoot, hchunkToken, hchunkId, hafter⟩
  · rw [hsame]
    exact h
  · rw [hafter]
    obtain ⟨hid, hown⟩ := htarget hfound
    refine h.noted hroom hpeer hid ?_
    intro t ht hr hi
    obtain ⟨hmessage, hsound⟩ := hown t ht hi
    have hold := h.edges t ht c.peerId hpeer
    rw [hr, hi] at hold
    refine ⟨hold.acked, fun _ => hsound.all ?_⟩
    rw [hmessage] at hhash
    exact rootHex_inj hhash
  · rw [hafter]
    obtain ⟨hid, hown⟩ := htarget hfound
    refine h.noted hroom hpeer hid ?_
    intro t ht hr hi
    obtain ⟨hmessage, hsound⟩ := hown t ht hi
    have hold := h.edges t ht c.peerId hpeer
    rw [hr, hi] at hold
    obtain ⟨x, hx, hindex, -, -, -, -, htoken⟩ := h.rows t ht chunk hchunk (hchunkId.trans hi.symm)
    refine ⟨?_, hold.complete⟩
    intro i hi'
    rcases Finset.mem_insert.mp hi' with rfl | hacked
    · refine ⟨x, hx, hindex.symm, hsound.chunk x hx ?_⟩
      rcases htoken with hempty | heq
      · rw [hchunkToken] at hempty
        have hzero := congrArg String.length hempty
        rw [uint8ArrayToHex, String.length_ofList, length_hexChars, hlength] at hzero
        cases hzero
      · exact rootHex_inj (hchunkToken.symm.trans heq)
    · exact hold.acked i hacked

/-! ## Every event -/

/-- Changes of rooms that add no message of a send. -/
theorem Inv.roomsChanged (h : Inv L getMimeType me once s) {rooms : List Room}
    (hrooms : ∀ r ∈ rooms, ∀ m ∈ r.messages, ∀ id, m.transferId = some id → ∃ r' ∈ s.rooms, m ∈ r'.messages) :
    Inv L getMimeType me once { s with rooms := rooms } := by
  refine { h with rooms := ?_, ids := ?_ }
  · intro t ht r hr m hm hid
    obtain ⟨r', hr', hm'⟩ := hrooms r hr m hm _ hid
    exact h.rooms t ht r' hr' m hm' hid
  · intro r hr m hm id hid
    obtain ⟨r', hr', hm'⟩ := hrooms r hr m hm id hid
    exact h.ids r' hr' m hm' id hid

theorem Inv.clear (h : Inv L getMimeType me once s) {room peer id : String} (hroom : Plain room)
    (hpeer : Plain peer) :
    Inv L getMimeType me once { s with edges := clearTransfer room peer id s.edges } := by
  refine { h with edges := ?_, keys := ?_ }
  · intro t ht p hp
    dsimp only
    by_cases hkey : key t.roomId p t.transferId = key room peer id
    · obtain ⟨hr, rfl, hi⟩ := key_inj (h.split t ht).roomId hroom hp hpeer hkey
      rw [hr, hi, edge_clearTransfer_self]
      constructor
      · intro i hi'
        cases hi'
      · intro hcomplete
        cases hcomplete
    · rw [edge_clearTransfer_ne hkey]
      exact h.edges t ht p hp
  · intro k hk
    obtain ⟨v, hv⟩ := OrdMap.mem_keys_iff.mp hk
    exact h.keys k (OrdMap.mem_keys_iff.mpr ⟨v, (OrdMap.mem_delete_entries.mp hv).1⟩)

/-- What an allowed event keeps. -/
theorem Inv.step (h : Inv L getMimeType me once s) {event : Event} (hallowed : Allowed L event s)
    (hnow : ∀ φ, φ (System.step L getMimeType me event s) → once φ) :
    Inv L getMimeType me once (System.step L getMimeType me event s) := by
  cases event with
  | stage t => exact h.stage hallowed.1 hallowed.2
  | note roomId m =>
    refine h.roomsChanged ?_
    intro r hr x hx id hid
    rcases mem_noted hr hx with rfl | hold
    · rw [show x.transferId = none from hallowed] at hid
      cases hid
    · exact hold
  | forget roomId kept =>
    refine h.roomsChanged ?_
    intro r hr x hx id hid
    obtain ⟨r', hr', rfl⟩ := List.mem_map.mp hr
    split at hx
    · exact ⟨r', hr', (List.mem_filter.mp hx).1⟩
    · exact ⟨r', hr', hx⟩
  | release transferId =>
    exact { h with rows := fun t ht row hrow => h.rows t ht row (mem_of_mem_fnDeleteDBNewChunk hrow) }
  | clear roomId peerId transferId => exact h.clear hallowed.1 hallowed.2.1
  | read roomId peerId transferId =>
    refine h.noted hallowed.1 hallowed.2.1 hallowed.2.2 ?_
    rintro t ht rfl rfl
    exact h.edges t ht peerId hallowed.2.1
  | send n p i reconcileAcked padding => exact h.send n p i reconcileAcked padding
  | receive c k r => exact h.receive hallowed hnow
  | cover c decoy =>
    refine h.answered ?_
    intro t ht hroot token htoken
    obtain ⟨maxBytes, hsliced⟩ := h.sliced ht
    rw [List.mem_singleton.mp htoken]
    exact sound_decoy hsliced (hallowed t ht hroot) _
  | replayChunks c => exact h.replayChunks c hnow
  | replayTerminal c => exact h.replayTerminal c
  | other p db => exact h.lost hallowed
  | receipt c k =>
    dsimp only [System.step]
    cases hframe : (s.receipts c)[k]? with
    | none => exact h
    | some frame =>
      dsimp only
      cases hdecode : decodeReceiptFrame frame with
      | none => exact h
      | some token => exact h.receipt (List.mem_of_getElem? hframe) hdecode hallowed.1 hallowed.2

section Runs

variable (L getMimeType me) (rooms : List Room) (newChunks : NewChunks) (stores : String → Database)

/-- Something was the case at some point of a run of the system. -/
def OnceIn (events : List Event) (φ : System → Prop) : Prop :=
  Once (System.step L getMimeType me) (System.start rooms newChunks stores) events φ

/-- The state a run reaches. -/
def reached (events : List Event) : System :=
  runs (System.step L getMimeType me) events (System.start rooms newChunks stores)

/-- The run is allowed. -/
def AllowedRun (events : List Event) : Prop :=
  Along (System.step L getMimeType me) (Allowed L) events (System.start rooms newChunks stores)

/-- The ids of messages are plain. -/
def PlainIds : Prop := ∀ r ∈ rooms, ∀ m ∈ r.messages, ∀ id, m.transferId = some id → Plain id

variable {L getMimeType me rooms newChunks stores}

theorem inv_start (hids : PlainIds rooms) :
    Inv L getMimeType me once (System.start rooms newChunks stores) where
  split := fun _ ht => absurd ht List.not_mem_nil
  apart := fun _ ht => absurd ht List.not_mem_nil
  rows := fun _ ht => absurd ht List.not_mem_nil
  rooms := fun _ ht => absurd ht List.not_mem_nil
  ids := hids
  frames := fun _ _ hcell => absurd hcell List.not_mem_nil
  records := fun _ ht => absurd ht List.not_mem_nil
  messages := fun _ ht => absurd ht List.not_mem_nil
  saved := fun _ ht => absurd ht List.not_mem_nil
  receipts := fun _ ht => absurd ht List.not_mem_nil
  edges := fun _ ht => absurd ht List.not_mem_nil
  keys := fun _ hk => absurd hk List.not_mem_nil

/-- The invariant along a run. -/
theorem inv_reached (hids : PlainIds rooms) {events : List Event}
    (hrun : AllowedRun L getMimeType me rooms newChunks stores events) :
    Inv L getMimeType me (OnceIn L getMimeType me rooms newChunks stores events)
      (reached L getMimeType me rooms newChunks stores events) := by
  refine hrun.history (I := fun events s =>
    Inv L getMimeType me (OnceIn L getMimeType me rooms newChunks stores events) s) (inv_start hids) ?_
  intro event events hallowed h
  refine (h.mono fun φ hφ => Once.mono event hφ).step hallowed ?_
  intro φ hφ
  refine Once.now ?_
  rw [runs_snoc]
  exact hφ

end Runs

end Delivery

end P2Party
