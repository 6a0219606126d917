import P2Party.Session.SealedMessage
import P2Party.Transfer.Confirmation

/-!
# Delivery over channels that lose frames

What a sender concludes from receipts is so, in every run; and from every state of a run, one pass
over the chunks that are not acknowledged brings the conclusion about, whatever is lost or arrives
in another order, if a frame of each such chunk arrives, the last receipt is read, and the peer still
has what it acknowledged. So the sender may skip what is acknowledged.

- `Undisturbed`, `Quiet`, `Brings`: a frame that is stored and answered, and what a pass brings;
- `sendRound_staged`, `store_answers`: a real chunk that is not skipped is sent, and stored;
- `Carries`, `Ready`: what no event of a pass changes;
- `ToCome.step`: an event is the arrival of a chunk, or leaves it to come;
- `Ready.last`, `Ready.completes`: the last receipt after the last arrival;
- `delivery_confirmed`: the conclusions of the sender, along every run;
- `cells_open`: every cell on its way opens under the key it is sealed under;
- `pass_completes`: from every state a pass completes.
-/

namespace P2Party

open Base Storage

namespace Delivery

variable {L : LibCrypto} {getMimeType : Nat → String} {me : String} {once : (System → Prop) → Prop} {s : System}
  {t : Transfer} {maxBytes : Nat} {c : StagedChunk} {p : String}

/-! ## A chunk that is sent -/

/-- A chunk a peer takes is real for its sender. -/
theorem real_of_call {call : ReceiveChunk} (h : t.call getMimeType me c = some call) :
    ∃ m, deserializeMetadata c.metadata = .ok m ∧ assertMetadataV1 m = .ok () ∧ isRealChunk m = true := by
  unfold Transfer.call receiveChunkOf at h
  split at h
  case h_1 metadata data hslice =>
    unfold receivedSlice at hslice
    obtain ⟨m, hread, hslice⟩ := except_bind_eq_ok.mp hslice
    obtain ⟨_, hassert, hslice⟩ := except_bind_eq_ok.mp hslice
    refine ⟨m, hread, hassert, ?_⟩
    split at hslice
    case isTrue => cases hslice
    case isFalse hsize =>
      unfold receivedChunkSize at hsize
      dsimp only at hsize
      rw [isRealChunk, Bool.and_eq_true, decide_eq_true_eq, decide_eq_true_eq]
      split at hsize
      · exact absurd rfl hsize
      · split at hsize
        · exact absurd rfl hsize
        · omega
  case h_2 => cases h

/-- A pass skips an index that is acknowledged. -/
def Skipped (skip : Option (Finset Nat)) (i : Nat) : Prop := ∃ acked ∈ skip, i ∈ acked

/-- A staged real chunk that the pass does not skip is sent. -/
theorem sendRound_staged (ht : Sliced L getMimeType me t maxBytes) (hc : c ∈ t.result.chunks)
    (hreal : (t.call getMimeType me c).isSome = true) (hsize : c.data.length = CHUNK_LEN) {rows : NewChunks}
    (hrows : ∀ row ∈ rows.rows, row.transferId = t.transferId → RowOf L t row)
    (hstaged : ∃ row ∈ rows.rows, row.transferId = t.transferId ∧ row.chunkIndex = c.chunkIndex)
    {skip : Option (Finset Nat)} (hskip : ¬ Skipped skip c.chunkIndex) (padding : RandomBytes PROOF_LEN) :
    ∃ cell, (sendRound L t c.chunkIndex skip padding rows).1 = .ok (some cell) := by
  obtain ⟨call, hcall⟩ := Option.isSome_iff_exists.mp hreal
  obtain ⟨m, hread, hindex, -⟩ := ht.metadata c hc
  obtain ⟨m', hread', -, hisReal⟩ := real_of_call hcall
  rw [hread] at hread'
  cases hread'
  obtain ⟨row, hrow, hid, hi⟩ := hstaged
  obtain ⟨c', hc', hindex', hleaf, hdata, hmetadata, hproof, -⟩ := hrows row hrow hid
  obtain rfl := ht.index c' hc' c hc (hindex'.symm.trans hi)
  have hget : fnGetDBNewChunk t.transferId c'.chunkIndex rows = some row :=
    fnGetDBNewChunk_eq_some.mpr ⟨hrow, hid, hi⟩
  obtain ⟨proof, hmade, ⟨hlength, -⟩⟩ := ht.proof c' hc' row.merkleProof padding hproof
  obtain ⟨token, htoken⟩ : ∃ token, outboundToken L t.result.merkleRoot m.chunkIndex c'.leafHash row.receiptToken
      = .ok token := by
    unfold outboundToken
    split
    · exact ⟨_, rfl⟩
    · rw [hindex, ht.token hc']
      exact ⟨_, rfl⟩
  have hnot : ¬ ∃ acked ∈ skip, isRealChunk m = false ∨ m.chunkIndex ∈ acked := by
    rintro ⟨acked, hacked, hdecoy | hmem⟩
    · rw [hisReal] at hdecoy
      cases hdecoy
    · exact hskip ⟨acked, hacked, hindex ▸ hmem⟩
  have hprepare : prepareChunk L t c'.chunkIndex skip padding rows = .ok (some (row, { row with
      hash := uint8ArrayToHex t.result.hash, merkleRoot := t.rootHex, receiptToken := token,
      merkleProof := proof })) := by
    unfold prepareChunk
    rw [hget]
    dsimp only
    rw [hmetadata, hread, ok_bind, demand_of ⟨hindex, hi⟩, ok_bind, if_neg hnot, hleaf,
      hexDecode_uint8ArrayToHex, hmade, ok_bind, htoken, ok_bind]
    rfl
  have hcell : DECRYPTED_LEN = row.metadata.length + proof.length + row.data.length := by
    rw [hmetadata, hdata, (ht.lengths c' hc').1, hlength, hsize]
    rfl
  unfold sendRound
  rw [hprepare]
  dsimp only
  rw [if_pos hcell]
  exact ⟨_, rfl⟩

/-- A row stays under its key when rows are written. -/
theorem fnSetDBNewChunk_keys {rows : NewChunks} {x : NewChunk} (hx : x ∈ rows.rows) (row : NewChunk) :
    ∃ x' ∈ (fnSetDBNewChunk row rows).rows, x'.key = x.key := by
  by_cases hkey : x.key = row.key
  · exact ⟨row, mem_fnSetDBNewChunk.mpr (Or.inl rfl), hkey.symm⟩
  · exact ⟨x, mem_fnSetDBNewChunk.mpr (Or.inr ⟨hx, hkey⟩), rfl⟩

/-- No round drops a key of the staged chunks. -/
theorem sendRound_keys {i : Nat} {skip : Option (Finset Nat)} {padding : RandomBytes PROOF_LEN} {rows : NewChunks}
    {x : NewChunk} (hx : x ∈ rows.rows) :
    ∃ x' ∈ (sendRound L t i skip padding rows).2.rows, x'.key = x.key := by
  unfold sendRound
  rcases prepareChunk L t i skip padding rows with e | _ | ⟨old, row⟩
  · exact ⟨x, hx, rfl⟩
  · exact ⟨x, hx, rfl⟩
  · dsimp only
    split
    · split
      · exact fnSetDBNewChunk_keys hx row
      · exact ⟨x, hx, rfl⟩
    · split
      · exact fnSetDBNewChunk_keys hx row
      · exact ⟨x, hx, rfl⟩

/-! ## A frame that is stored -/

/-- Nothing goes wrong with a frame. -/
structure Undisturbed (r : Reception) : Prop where
  opened : r.opened = true
  aborted : r.aborted = false
  committed : r.committed = true
  abortedAfterStore : r.abortedAfterStore = false
  abortedAtLast : r.abortedAtLast = false
  fileClosed : r.fileClosed = true

/-- The store answers a call for a chunk, and knows when it has all. -/
theorem store_answers (ht : Sliced L getMimeType me t maxBytes) (hc : c ∈ t.result.chunks) {call : ReceiveChunk}
    (hcall : t.call getMimeType me c = some call) (w : Bool) {db : Database}
    (honly : OnlyChunks getMimeType me t db) (hrow : RowAgrees getMimeType me t db) :
    ∃ r, ((⟨call, w, true⟩ : StoreCall).store db).1 = .ok r ∧
      (HasAll getMimeType me t ((⟨call, w, true⟩ : StoreCall).store db).2 → r.complete = true) := by
  obtain ⟨-, hroot, -, htotal⟩ := ht.called c hc call hcall
  have hhonest := ht.honest c hc c hc call call hcall hcall
  have hholds : Storage.Holds maxBytes call ((db.slotsOf t.rootHex).map (·.chunkIndex)) db := by
    constructor
    · rw [hroot, htotal]
      exact honly.canonical ht
    · intro i
      rw [hroot]
    · intro m hm
      rw [hroot] at hm
      exact (hrow m hm).2 c hc call hcall
  obtain ⟨db', hstore, hafter⟩ := store_honest ht.bytes ht.fits w hhonest hholds
  rw [hstore]
  refine ⟨_, rfl, fun hall => decide_eq_true ?_⟩
  have hcanonical := hafter.records
  rw [hroot, htotal] at hcanonical ⊢
  exact (hcanonical.bytesOf_eq_iff ht.bytes).mp hall.bytes

/-- A peer that is not disturbed stores a real chunk, and sends the last receipt once it has all. -/
theorem processMessage_staged (ht : Sliced L getMimeType me t maxBytes) (hc : c ∈ t.result.chunks)
    (hreal : (t.call getMimeType me c).isSome = true) {cell : Cell} (hmetadata : cell.metadata = c.metadata)
    (hdata : cell.data = c.data) {r : Reception} (hr : Undisturbed r) {db : Database}
    (honly : OnlyChunks getMimeType me t db) (hrow : RowAgrees getMimeType me t db) :
    HasChunk getMimeType me t c (processMessage L getMimeType me (t.channel p) cell r db).2 ∧
      (HasAll getMimeType me t (processMessage L getMimeType me (t.channel p) cell r db).2 →
        t.result.hash ∈ (processMessage L getMimeType me (t.channel p) cell r db).1) := by
  obtain ⟨call, hcall⟩ := Option.isSome_iff_exists.mp hreal
  obtain ⟨m, hread, hindex, hhash⟩ := ht.metadata c hc
  obtain ⟨m', hread', hassert, -⟩ := real_of_call hcall
  rw [hread] at hread'
  cases hread'
  obtain ⟨progress, hok, hcomplete⟩ := store_answers ht hc hcall r.wroteToOPFS honly hrow
  obtain ⟨-, -, -, hstored⟩ := store_staged ht hc hcall r.wroteToOPFS true honly hrow
  have hchecked : checkedMetadata c.metadata = .ok m := by
    unfold checkedMetadata
    rw [hread, ok_bind, hassert, ok_bind]
    rfl
  have hcell : (⟨m.chunkIndex, c.leafHash, c.data, c.metadata⟩ : StagedChunk) = c := by
    rw [hindex]
  have hresult : handleReceiveMessage L getMimeType me (t.channel p) cell r db =
      (⟨some m.chunkIndex, call.realLen, progress.complete, m.totalSize, t.tokenOf L c, m.hash⟩,
        ((⟨call, r.wroteToOPFS, true⟩ : StoreCall).store db).2) := by
    unfold handleReceiveMessage
    rw [if_neg (by rw [hr.opened, hr.aborted]; simp), hmetadata, hdata, ← ht.leaf c hc, hchecked]
    dsimp only
    rw [hcell]
    rw [show receiveChunkOf getMimeType ⟨(t.channel p).roomId, me, (t.channel p).label⟩ (t.channel p).merkleRoot c
      = some call from hcall]
    dsimp only
    rw [hindex, show createChunkReceiptToken L (t.channel p).merkleRoot c.chunkIndex c.leafHash = _ from ht.token hc]
    dsimp only
    unfold StoreCall.store at hok ⊢
    rw [hr.committed]
    rcases hstore : storeReceiveChunkLocked call r.wroteToOPFS true db with ⟨e | answer, db'⟩
    · rw [hstore] at hok
      cases hok
    · rw [hstore] at hok
      cases hok
      dsimp only
      rw [hr.abortedAfterStore]
      rfl
  unfold processMessage
  rw [hresult]
  dsimp only
  rw [hr.abortedAtLast, hr.fileClosed]
  refine ⟨(hstored progress hok).1, fun hall => ?_⟩
  have hfull : progress.complete = true := hcomplete hall
  rw [hfull, hhash]
  simp

/-! ## A pass -/

/-- What happens while a pass is under way: no send is staged, no room changes, no staged chunk is
released and no peer loses what it has. -/
def Quiet : Event → Prop
  | .stage _ => False
  | .note _ _ => False
  | .forget _ _ => False
  | .release _ => False
  | .other _ _ => False
  | _ => True

/-- In a pass the chunk with an index is sent, and its frame arrives later and is not disturbed. -/
def Brings (L : LibCrypto) (getMimeType : Nat → String) (me : String) (n : Nat) (p : String)
    (skip : Option (Finset Nat)) (channel : Channel) (i : Nat) : List Event → System → Prop
  | [], _ => False
  | e :: pass, s =>
    ((∃ padding, e = .send n p i skip padding) ∧
      ∃ r, Undisturbed r ∧ .receive channel (s.frames channel).length r ∈ pass) ∨
    Brings L getMimeType me n p skip channel i pass (System.step L getMimeType me e s)

/-- What a pass leaves as it is: the sends and the rooms, and what was put on a channel or into a
store. -/
structure Carries (p : String) (before after : System) : Prop where
  transfers : after.transfers = before.transfers
  rooms : after.rooms = before.rooms
  rows : ∀ x ∈ before.newChunks.rows, ∃ x' ∈ after.newChunks.rows, x'.key = x.key
  stores : ∀ x ∈ (before.stores p).chunks.rows, x ∈ (after.stores p).chunks.rows
  frames : ∀ channel, before.frames channel <+: after.frames channel
  receipts : ∀ channel, ∀ frame ∈ before.receipts channel, frame ∈ after.receipts channel

theorem Carries.refl (s : System) : Carries p s s :=
  ⟨rfl, rfl, fun x hx => ⟨x, hx, rfl⟩, fun _ hx => hx, fun _ => List.prefix_rfl, fun _ _ hframe => hframe⟩

theorem Carries.trans {s1 s2 s3 : System} (h : Carries p s1 s2) (h' : Carries p s2 s3) : Carries p s1 s3 := by
  refine ⟨h'.transfers.trans h.transfers, h'.rooms.trans h.rooms, ?_, fun x hx => h'.stores x (h.stores x hx),
    fun channel => (h.frames channel).trans (h'.frames channel),
    fun channel frame hframe => h'.receipts channel frame (h.receipts channel frame hframe)⟩
  intro x hx
  obtain ⟨x', hx', hkey⟩ := h.rows x hx
  obtain ⟨x'', hx'', hkey'⟩ := h'.rows x' hx'
  exact ⟨x'', hx'', hkey'.trans hkey⟩

theorem Carries.hasChunk {s1 s2 : System} (h : Carries p s1 s2)
    (hholds : Holds getMimeType me t p c s1) : Holds getMimeType me t p c s2 := by
  obtain ⟨call, w, hcall, hmem⟩ := hholds
  exact ⟨call, w, hcall, h.stores _ hmem⟩

theorem Carries.isDecoy {s1 s2 : System} {channel : Channel} {token : Bytes} (h : Carries p s1 s2)
    (hdecoy : IsDecoy L channel token s1) : IsDecoy L channel token s2 := by
  unfold IsDecoy
  rw [h.transfers]
  exact hdecoy

/-- What is allowed of an event of a pass stays so: it depends on the sends alone. -/
theorem Carries.allowed {s1 s2 : System} (h : Carries p s1 s2) {e : Event} (hquiet : Quiet e)
    (hallowed : Allowed L e s1) : Allowed L e s2 := by
  cases e with
  | receive channel k r => exact h.isDecoy hallowed
  | cover channel decoy => exact h.isDecoy hallowed
  | stage t => exact hquiet.elim
  | other peerId db => exact hquiet.elim
  | _ => exact hallowed

theorem carries_send (n : Nat) (q : String) (i : Nat) (skip : Option (Finset Nat))
    (padding : RandomBytes PROOF_LEN) (s : System) :
    Carries p s (System.step L getMimeType me (.send n q i skip padding) s) := by
  dsimp only [System.step]
  cases hget : s.transfers[n]? with
  | none => exact Carries.refl s
  | some t =>
    have hkeys : ∀ x ∈ s.newChunks.rows,
        ∃ x' ∈ (sendRound L t i skip padding s.newChunks).2.rows, x'.key = x.key := fun x hx => sendRound_keys hx
    dsimp only
    rcases hround : sendRound L t i skip padding s.newChunks with ⟨e | _ | cell, rows⟩
    · rw [hround] at hkeys
      exact ⟨rfl, rfl, hkeys, fun _ hx => hx, fun _ => List.prefix_rfl, fun _ _ hframe => hframe⟩
    · rw [hround] at hkeys
      exact ⟨rfl, rfl, hkeys, fun _ hx => hx, fun _ => List.prefix_rfl, fun _ _ hframe => hframe⟩
    · rw [hround] at hkeys
      refine ⟨rfl, rfl, hkeys, fun _ hx => hx, fun channel => ?_, fun _ _ hframe => hframe⟩
      by_cases hsame : channel = t.channel q
      · subst hsame
        dsimp only
        rw [Function.update_self]
        exact List.prefix_append _ _
      · dsimp only
        rw [Function.update_of_ne hsame]

theorem mem_foldl_of_mem {tokens receipts : List Bytes} {frame : Bytes} (h : frame ∈ receipts) :
    frame ∈ tokens.foldl sendReceiptFrame receipts := by
  induction tokens generalizing receipts with
  | nil => exact h
  | cons token tokens ih => exact ih (mem_sendReceiptFrame.mpr (Or.inl h))

theorem mem_foldl_of_token {tokens receipts : List Bytes} {token frame : Bytes} (h : token ∈ tokens)
    (hencode : encodeReceiptFrame token = .ok frame) : frame ∈ tokens.foldl sendReceiptFrame receipts := by
  induction tokens generalizing receipts with
  | nil => cases h
  | cons first tokens ih =>
    rcases List.mem_cons.mp h with rfl | hrest
    · rw [List.foldl_cons]
      exact mem_foldl_of_mem (mem_sendReceiptFrame.mpr (Or.inr hencode))
    · exact ih hrest

theorem carries_answered (s : System) (channel : Channel) (tokens : List Bytes) :
    Carries p s (s.answered channel tokens) := by
  refine ⟨rfl, rfl, fun x hx => ⟨x, hx, rfl⟩, fun _ hx => hx, fun _ => List.prefix_rfl, fun channel' frame hframe => ?_⟩
  by_cases hsame : channel' = channel
  · subst hsame
    rw [answered_receipts]
    exact mem_foldl_of_mem hframe
  · rw [answered_receipts_ne _ _ hsame]
    exact hframe

theorem carries_receive (h : Inv L getMimeType me once s) (channel : Channel) (k : Nat) (r : Reception) :
    Carries p s (System.step L getMimeType me (.receive channel k r) s) := by
  dsimp only [System.step]
  cases hcell : (s.frames channel)[k]? with
  | none => exact Carries.refl s
  | some cell =>
    dsimp only
    refine Carries.trans ?_ (carries_answered _ channel _)
    refine ⟨rfl, rfl, fun x hx => ⟨x, hx, rfl⟩, fun x hx => ?_, fun _ => List.prefix_rfl, fun _ _ hframe => hframe⟩
    by_cases hp : p = channel.peerId
    · obtain ⟨t, ht, hchannel, c, hc, hparts⟩ := h.frames channel cell (List.mem_of_getElem? hcell)
      obtain ⟨maxBytes, hsliced⟩ := h.sliced ht
      rw [← hp] at hchannel ⊢
      subst hchannel
      rw [stored_stores, processMessage_snd]
      rcases @handleReceiveMessage_cases L getMimeType me t maxBytes c p cell r (s.stores p) hsliced hc hparts.metadata
        hparts.data with ⟨hsame, -⟩ | ⟨call, -, hafter, -⟩
      · rwa [hsame]
      · rw [hafter]
        exact mem_storeAll hx [⟨call, r.wroteToOPFS, r.committed⟩]
    · rw [System.stored]
      dsimp only
      rw [Function.update_of_ne hp]
      exact hx

theorem carries_edges (s : System) (edges : Edges) : Carries p s { s with edges } :=
  ⟨rfl, rfl, fun x hx => ⟨x, hx, rfl⟩, fun _ hx => hx, fun _ => List.prefix_rfl, fun _ _ hframe => hframe⟩

theorem carries_receipt (channel : Channel) (k : Nat) (s : System) :
    Carries p s (System.step L getMimeType me (.receipt channel k) s) := by
  dsimp only [System.step]
  cases (s.receipts channel)[k]? with
  | none => exact Carries.refl s
  | some frame =>
    dsimp only
    cases decodeReceiptFrame frame with
    | none => exact Carries.refl s
    | some token => exact carries_edges s _

/-- What every event of a pass leaves as it is. -/
theorem carries_quiet (h : Inv L getMimeType me once s) {e : Event} (hquiet : Quiet e) :
    Carries p s (System.step L getMimeType me e s) := by
  cases e with
  | send n q i skip padding => exact carries_send n q i skip padding s
  | receive channel k r => exact carries_receive h channel k r
  | cover channel decoy => exact carries_answered s channel [decoy]
  | replayChunks channel => exact carries_answered s channel _
  | replayTerminal channel => exact carries_answered s channel _
  | receipt channel k => exact carries_receipt channel k s
  | read roomId peerId transferId => exact carries_edges s _
  | clear roomId peerId transferId => exact carries_edges s _
  | _ => exact hquiet.elim

/-- What a pass rests on: the send is staged, and its message is in its room. -/
structure Ready (L : LibCrypto) (getMimeType : Nat → String) (me : String) (n : Nat) (t : Transfer) (s : System) :
    Prop where
  inv : Inv L getMimeType me (fun _ => True) s
  nth : s.transfers[n]? = some t
  rows : ∀ c ∈ t.result.chunks, ∃ row ∈ s.newChunks.rows,
    row.transferId = t.transferId ∧ row.chunkIndex = c.chunkIndex
  target : receiptTarget s.rooms t.roomId t.rootHex = some (t.roomMessage, t.transferId)

/-- The last receipt of a send is on its channel. -/
def Last (t : Transfer) (p : String) (s : System) : Prop :=
  ∃ frame ∈ s.receipts (t.channel p), encodeReceiptFrame t.result.hash = .ok frame

/-- The frame of a chunk is on its channel, and arrives in the pass and is not disturbed. -/
def Arrives (t : Transfer) (p : String) (c : StagedChunk) (pass : List Event) (s : System) : Prop :=
  ∃ k cell r, (s.frames (t.channel p))[k]? = some cell ∧ cell.metadata = c.metadata ∧ cell.data = c.data ∧
    Undisturbed r ∧ .receive (t.channel p) k r ∈ pass

/-- A peer with every real chunk has all. -/
theorem holdsAll_of_chunks (ht : Sliced L getMimeType me t maxBytes) {db : Database}
    (honly : OnlyChunks getMimeType me t db) (hone : ∃ c ∈ t.result.chunks, (t.call getMimeType me c).isSome = true)
    (h : ∀ c ∈ t.result.chunks, (t.call getMimeType me c).isSome = true → HasChunk getMimeType me t c db) :
    HasAll getMimeType me t db := by
  refine hasAll_of_indices ht honly fun i hi => ?_
  obtain ⟨c, hc, rfl, hreal⟩ := ht.covers hone i hi
  obtain ⟨call, w, hcall, hmem⟩ := h c hc hreal
  obtain ⟨hindex, hroot, -⟩ := ht.called c hc call hcall
  exact List.mem_map.mpr ⟨(call.record w).slot, mem_slotsOf.mpr ⟨_, hmem, hroot, rfl⟩, hindex⟩

section Pass

variable {n : Nat} {skip : Option (Finset Nat)} {e : Event} {pass : List Event}

/-- Every event of a pass keeps what it rests on. -/
theorem Ready.step (h : Ready L getMimeType me n t s) (hquiet : Quiet e) (hallowed : Allowed L e s) :
    Ready L getMimeType me n t (System.step L getMimeType me e s) := by
  have hcarries := @carries_quiet L getMimeType me _ s "" h.inv e hquiet
  refine ⟨h.inv.step hallowed fun _ _ => trivial, by rw [hcarries.transfers]; exact h.nth, fun c hc => ?_,
    by rw [hcarries.rooms]; exact h.target⟩
  obtain ⟨row, hrow, hid, hi⟩ := h.rows c hc
  obtain ⟨row', hrow', hkey⟩ := hcarries.rows row hrow
  obtain ⟨hid', hi'⟩ := NewChunk.key_eq_iff.mp hkey
  exact ⟨row', hrow', hid'.trans hid, hi'.trans hi⟩

/-- A round that sends a cell puts it on the channel. -/
theorem step_send (hget : s.transfers[n]? = some t) {i : Nat} {pad : RandomBytes PROOF_LEN} {cell : Cell}
    (hcell : (sendRound L t i skip pad s.newChunks).1 = .ok (some cell)) :
    ∃ rows, System.step L getMimeType me (.send n p i skip pad) s = { s with
      newChunks := rows
      frames := Function.update s.frames (t.channel p) (s.frames (t.channel p) ++ [cell]) } := by
  rcases hround : sendRound L t i skip pad s.newChunks with ⟨sent, rows⟩
  rw [hround] at hcell
  dsimp only at hcell
  subst hcell
  refine ⟨rows, ?_⟩
  dsimp only [System.step]
  rw [hget]
  dsimp only
  rw [hround]

/-- A real chunk that is not skipped is put on the channel. -/
theorem Ready.sent (h : Ready L getMimeType me n t s) (hsize : ∀ c ∈ t.result.chunks, c.data.length = CHUNK_LEN)
    (hc : c ∈ t.result.chunks) (hreal : (t.call getMimeType me c).isSome = true)
    (hskip : ¬ Skipped skip c.chunkIndex) (padding : RandomBytes PROOF_LEN) :
    ∃ cell, (System.step L getMimeType me (.send n p c.chunkIndex skip padding) s).frames (t.channel p) =
        s.frames (t.channel p) ++ [cell] ∧ cell.metadata = c.metadata ∧ cell.data = c.data := by
  have ht := List.mem_of_getElem? h.nth
  obtain ⟨maxBytes, hsliced⟩ := h.inv.sliced ht
  obtain ⟨cell, hcell⟩ := sendRound_staged hsliced hc hreal (hsize c hc) (h.inv.rows t ht) (h.rows c hc) hskip padding
  obtain ⟨-, hparts⟩ := @sendRound_cases L getMimeType me t maxBytes hsliced c.chunkIndex skip
    padding s.newChunks (h.inv.rows t ht)
  obtain ⟨c', hc', hindex, hmetadata, hdata, -⟩ := hparts cell hcell
  obtain rfl := hsliced.index c' hc' c hc hindex
  obtain ⟨rows, hstep⟩ := @step_send L getMimeType me s t p n skip h.nth _ _ cell hcell
  refine ⟨cell, ?_, hmetadata, hdata⟩
  rw [hstep]
  exact Function.update_self ..

/-- A frame that arrives is stored, and answered with the last receipt once the peer has all. -/
theorem Ready.arrived (h : Ready L getMimeType me n t s) (hc : c ∈ t.result.chunks)
    (hreal : (t.call getMimeType me c).isSome = true) {k : Nat} {cell : Cell}
    (hcell : (s.frames (t.channel p))[k]? = some cell) (hmetadata : cell.metadata = c.metadata)
    (hdata : cell.data = c.data) {r : Reception} (hr : Undisturbed r) :
    Holds getMimeType me t p c (System.step L getMimeType me (.receive (t.channel p) k r) s) ∧
      (HoldsAll getMimeType me t p (System.step L getMimeType me (.receive (t.channel p) k r) s) →
        Last t p (System.step L getMimeType me (.receive (t.channel p) k r) s)) := by
  have ht := List.mem_of_getElem? h.nth
  obtain ⟨maxBytes, hsliced⟩ := h.inv.sliced ht
  obtain ⟨hhas, hlast⟩ := @processMessage_staged L getMimeType me t maxBytes c p hsliced hc hreal cell hmetadata
    hdata r hr (s.stores p) (h.inv.records t ht p) (h.inv.messages t ht p)
  have hstep : System.step L getMimeType me (.receive (t.channel p) k r) s =
      (s.stored p (processMessage L getMimeType me (t.channel p) cell r (s.stores p)).2).answered (t.channel p)
        (processMessage L getMimeType me (t.channel p) cell r (s.stores p)).1 := by
    dsimp only [System.step]
    rw [hcell]
    rfl
  rw [hstep]
  unfold Holds HoldsAll Last
  rw [answered_stores, stored_stores, answered_receipts]
  refine ⟨hhas, fun hall => ?_⟩
  have hlength : t.result.hash.length = RECEIPT_TOKEN_LEN := by
    rw [hsliced.hash]
    exact L.length_sha512 _
  have hencode : encodeReceiptFrame t.result.hash = .ok (FRAME_TYPE_RECEIPT :: t.result.hash) := by
    unfold encodeReceiptFrame
    rw [demand_of hlength, ok_bind]
    rfl
  exact ⟨_, mem_foldl_of_token (hlast hall) hencode, hencode⟩

/-- A chunk that a pass sends, or that is sent, arrives in it. -/
def ToCome (L : LibCrypto) (getMimeType : Nat → String) (me : String) (n : Nat) (t : Transfer) (p : String)
    (skip : Option (Finset Nat)) (c : StagedChunk) (pass : List Event) (s : System) : Prop :=
  Arrives t p c pass s ∨
    ¬ Skipped skip c.chunkIndex ∧ Brings L getMimeType me n p skip (t.channel p) c.chunkIndex pass s

/-- The first event of a pass is the arrival of a chunk, or leaves it to come. -/
theorem ToCome.step (h : Ready L getMimeType me n t s) (hsize : ∀ c ∈ t.result.chunks, c.data.length = CHUNK_LEN)
    (hc : c ∈ t.result.chunks) (hreal : (t.call getMimeType me c).isSome = true) (hquiet : Quiet e)
    (hcome : ToCome L getMimeType me n t p skip c (e :: pass) s) :
    (Holds getMimeType me t p c (System.step L getMimeType me e s) ∧
        (HoldsAll getMimeType me t p (System.step L getMimeType me e s) →
          Last t p (System.step L getMimeType me e s))) ∨
      ToCome L getMimeType me n t p skip c pass (System.step L getMimeType me e s) := by
  rcases hcome with ⟨k, cell, r, hcell, hmetadata, hdata, hr, hmem⟩ | ⟨hskip, hbrings⟩
  · rcases List.mem_cons.mp hmem with rfl | hlater
    · exact Or.inl (h.arrived hc hreal hcell hmetadata hdata hr)
    · obtain ⟨sent, hsent⟩ := (@carries_quiet L getMimeType me _ s p h.inv e hquiet).frames (t.channel p)
      refine Or.inr (Or.inl ⟨k, cell, r, ?_, hmetadata, hdata, hr, hlater⟩)
      rw [← hsent, List.getElem?_append_left (List.getElem?_eq_some_iff.mp hcell).1]
      exact hcell
  · rcases hbrings with ⟨⟨padding, rfl⟩, r, hr, hmem⟩ | hlater
    · obtain ⟨cell, hframes, hmetadata, hdata⟩ := @Ready.sent L getMimeType me s t c p n skip h hsize hc hreal hskip padding
      refine Or.inr (Or.inl ⟨_, cell, r, ?_, hmetadata, hdata, hr, hmem⟩)
      rw [hframes]
      exact List.getElem?_concat_length
    · exact Or.inr (Or.inr ⟨hskip, hlater⟩)

theorem not_toCome_nil : ¬ ToCome L getMimeType me n t p skip c [] s := by
  rintro (⟨k, cell, r, -, -, -, -, hmem⟩ | ⟨-, hbrings⟩)
  · cases hmem
  · exact hbrings

/-- What is left of a pass after its first event is a pass again. -/
theorem quiet_rest (h : Ready L getMimeType me n t s) (hquiet : ∀ x ∈ e :: pass, Quiet x ∧ Allowed L x s) :
    Ready L getMimeType me n t (System.step L getMimeType me e s) ∧
      Carries p s (System.step L getMimeType me e s) ∧
      ∀ x ∈ pass, Quiet x ∧ Allowed L x (System.step L getMimeType me e s) := by
  obtain ⟨hfirst, hallowed⟩ := hquiet e List.mem_cons_self
  have hcarries := @carries_quiet L getMimeType me _ s p h.inv e hfirst
  refine ⟨h.step hfirst hallowed, hcarries, fun x hx => ?_⟩
  obtain ⟨hlater, hxallowed⟩ := hquiet x (List.mem_cons_of_mem _ hx)
  exact ⟨hlater, hcarries.allowed hlater hxallowed⟩

/-- A whole pass is allowed, and keeps what it rests on. -/
theorem Ready.kept (h : Ready L getMimeType me n t s) (hquiet : ∀ x ∈ pass, Quiet x ∧ Allowed L x s) :
    Along (System.step L getMimeType me) (Allowed L) pass s ∧
      Ready L getMimeType me n t (runs (System.step L getMimeType me) pass s) := by
  induction pass generalizing s with
  | nil => exact ⟨trivial, h⟩
  | cons e pass ih =>
    obtain ⟨hnext, -, hrest⟩ := @quiet_rest L getMimeType me s t "" n e pass h hquiet
    obtain ⟨halong, hready⟩ := ih hnext hrest
    exact ⟨⟨(hquiet e List.mem_cons_self).2, halong⟩, hready⟩

/-- A chunk that is there, or that a pass brings, is there after it. -/
theorem Ready.held (h : Ready L getMimeType me n t s) (hsize : ∀ c ∈ t.result.chunks, c.data.length = CHUNK_LEN)
    (hc : c ∈ t.result.chunks) (hreal : (t.call getMimeType me c).isSome = true)
    (hquiet : ∀ x ∈ pass, Quiet x ∧ Allowed L x s)
    (hcome : Holds getMimeType me t p c s ∨ ToCome L getMimeType me n t p skip c pass s) :
    Holds getMimeType me t p c (runs (System.step L getMimeType me) pass s) := by
  induction pass generalizing s with
  | nil => exact hcome.resolve_right not_toCome_nil
  | cons e pass ih =>
    obtain ⟨hnext, hcarries, hrest⟩ := @quiet_rest L getMimeType me s t p n e pass h hquiet
    refine ih hnext hrest ?_
    rcases hcome with hheld | hcome
    · exact Or.inl (hcarries.hasChunk hheld)
    · exact (hcome.step h hsize hc hreal (hquiet e List.mem_cons_self).1).imp And.left id

/-- When a pass brings every real chunk that is not there, the last receipt is on the channel after it:
the peer sends it with the chunk that arrives last. -/
theorem Ready.last (h : Ready L getMimeType me n t s) (hsize : ∀ c ∈ t.result.chunks, c.data.length = CHUNK_LEN)
    (hquiet : ∀ x ∈ pass, Quiet x ∧ Allowed L x s)
    (hall : ∀ c ∈ t.result.chunks, (t.call getMimeType me c).isSome = true →
      Holds getMimeType me t p c s ∨ ToCome L getMimeType me n t p skip c pass s)
    (hone : Last t p s ∨ ∃ c ∈ t.result.chunks, (t.call getMimeType me c).isSome = true ∧
      ToCome L getMimeType me n t p skip c pass s) :
    Last t p (runs (System.step L getMimeType me) pass s) := by
  induction pass generalizing s with
  | nil =>
    rcases hone with hlast | ⟨c, -, -, hcome⟩
    · exact hlast
    · exact absurd hcome not_toCome_nil
  | cons e pass ih =>
    obtain ⟨hnext, hcarries, hrest⟩ := @quiet_rest L getMimeType me s t p n e pass h hquiet
    have hfirst := (hquiet e List.mem_cons_self).1
    have hafter : ∀ c ∈ t.result.chunks, (t.call getMimeType me c).isSome = true →
        Holds getMimeType me t p c (System.step L getMimeType me e s) ∨
          ToCome L getMimeType me n t p skip c pass (System.step L getMimeType me e s) := by
      intro c hc hreal
      rcases hall c hc hreal with hheld | hcome
      · exact Or.inl (hcarries.hasChunk hheld)
      · exact (hcome.step h hsize hc hreal hfirst).imp And.left id
    refine ih hnext hrest hafter ?_
    by_cases hmore : ∃ c ∈ t.result.chunks, (t.call getMimeType me c).isSome = true ∧
        ToCome L getMimeType me n t p skip c pass (System.step L getMimeType me e s)
    · exact Or.inr hmore
    · -- nothing is left to come, so the event was the last arrival, if there was one
      rcases hone with ⟨frame, hframe, hencode⟩ | ⟨c, hc, hreal, hcome⟩
      · exact Or.inl ⟨frame, hcarries.receipts _ frame hframe, hencode⟩
      · have ht := List.mem_of_getElem? hnext.nth
        obtain ⟨maxBytes, hsliced⟩ := hnext.inv.sliced ht
        have hholds : HoldsAll getMimeType me t p (System.step L getMimeType me e s) :=
          holdsAll_of_chunks hsliced (hnext.inv.records t ht p) ⟨c, hc, hreal⟩ fun x hx hxreal =>
            (hafter x hx hxreal).resolve_right fun hxcome => hmore ⟨x, hx, hxreal, hxcome⟩
        rcases hcome.step h hsize hc hreal hfirst with ⟨-, hlast⟩ | hlater
        · exact Or.inl (hlast hholds)
        · exact absurd ⟨c, hc, hreal, hlater⟩ hmore

/-- Once the last receipt is on the channel, the sender knows when it reads it. -/
theorem Ready.complete (h : Ready L getMimeType me n t s) (hlast : Last t p s) :
    ∃ k, isTransferComplete t.roomId p t.transferId
      (System.step L getMimeType me (.receipt (t.channel p) k) s).edges = true := by
  obtain ⟨frame, hframe, hencode⟩ := hlast
  obtain ⟨k, hk⟩ := List.mem_iff_getElem?.mp hframe
  refine ⟨k, ?_⟩
  have htarget : receiptTarget s.rooms (t.channel p).roomId (uint8ArrayToHex (t.channel p).merkleRoot)
      = some (t.roomMessage, t.transferId) := h.target
  have hhash : uint8ArrayToHex t.result.hash = t.roomMessage.sha512Hex := rfl
  dsimp only [System.step]
  rw [hk]
  dsimp only
  rw [decodeReceiptFrame_eq_some_iff.mpr hencode]
  dsimp only
  unfold handleReadReceipt
  rw [htarget]
  dsimp only
  rw [if_pos hhash]
  show (Edges.edge t.roomId p t.transferId (markTransferComplete t.roomId p t.transferId s.edges).2).complete = true
  rw [markTransferComplete, edge_set_self]

/-- A pass that brings what is not skipped, and the last receipt after it. -/
theorem Ready.completes (h : Ready L getMimeType me n t s) (hsize : ∀ c ∈ t.result.chunks, c.data.length = CHUNK_LEN)
    (hp : Plain p)
    (hkept : ∀ c ∈ t.result.chunks, (t.call getMimeType me c).isSome = true → Skipped skip c.chunkIndex →
      Holds getMimeType me t p c s)
    (hone : ∃ c ∈ t.result.chunks, (t.call getMimeType me c).isSome = true ∧ ¬ Skipped skip c.chunkIndex)
    (hquiet : ∀ e ∈ pass, Quiet e ∧ Allowed L e s)
    (hbrings : ∀ c ∈ t.result.chunks, (t.call getMimeType me c).isSome = true → ¬ Skipped skip c.chunkIndex →
      Brings L getMimeType me n p skip (t.channel p) c.chunkIndex pass s) :
    ∃ k, Along (System.step L getMimeType me) (Allowed L) (pass ++ [.receipt (t.channel p) k]) s ∧
      Ready L getMimeType me n t (runs (System.step L getMimeType me) (pass ++ [.receipt (t.channel p) k]) s) ∧
      isTransferComplete t.roomId p t.transferId
        (runs (System.step L getMimeType me) (pass ++ [.receipt (t.channel p) k]) s).edges = true := by
  obtain ⟨halong, hafter⟩ := h.kept hquiet
  have hall : ∀ c ∈ t.result.chunks, (t.call getMimeType me c).isSome = true →
      Holds getMimeType me t p c s ∨ ToCome L getMimeType me n t p skip c pass s := by
    intro c hc hreal
    by_cases hskip : Skipped skip c.chunkIndex
    · exact Or.inl (hkept c hc hreal hskip)
    · exact Or.inr (Or.inr ⟨hskip, hbrings c hc hreal hskip⟩)
  obtain ⟨c, hc, hreal, hskip⟩ := hone
  obtain ⟨k, hk⟩ := hafter.complete (h.last hsize hquiet hall
    (Or.inr ⟨c, hc, hreal, Or.inr ⟨hskip, hbrings c hc hreal hskip⟩⟩))
  have hread : Allowed L (.receipt (t.channel p) k) (runs (System.step L getMimeType me) pass s) :=
    ⟨(h.inv.split t (List.mem_of_getElem? h.nth)).roomId, hp⟩
  refine ⟨k, along_append_iff.mpr ⟨halong, hread, trivial⟩, ?_, ?_⟩
  · rw [runs_snoc]
    exact hafter.step trivial hread
  · rw [runs_snoc]
    exact hk

end Pass

/-! ## Along every run -/

section Runs

variable {rooms : List Room} {newChunks : NewChunks} {stores : String → Database} {events : List Event}

/-- A staged send has a row for every chunk. -/
theorem mem_stageRows_of_mem {chunks : List StagedChunk} (hc : c ∈ chunks) (rows : NewChunks) :
    ∃ row ∈ (chunks.foldl (fun rows c => fnSetDBNewChunk (t.newChunk c) rows) rows).rows,
      row.transferId = t.transferId ∧ row.chunkIndex = c.chunkIndex := by
  have hkeep : ∀ (chunks : List StagedChunk) (rows : NewChunks), ∀ x ∈ rows.rows,
      ∃ x' ∈ (chunks.foldl (fun rows c => fnSetDBNewChunk (t.newChunk c) rows) rows).rows, x'.key = x.key := by
    intro chunks
    induction chunks with
    | nil => exact fun rows x hx => ⟨x, hx, rfl⟩
    | cons c chunks ih =>
      intro rows x hx
      obtain ⟨x', hx', hkey⟩ := fnSetDBNewChunk_keys hx (t.newChunk c)
      obtain ⟨x'', hx'', hkey'⟩ := ih _ x' hx'
      exact ⟨x'', hx'', hkey'.trans hkey⟩
  induction chunks generalizing rows with
  | nil => cases hc
  | cons first chunks ih =>
    rcases List.mem_cons.mp hc with rfl | hrest
    · obtain ⟨row, hrow, hkey⟩ := hkeep chunks (fnSetDBNewChunk (t.newChunk c) rows) (t.newChunk c)
        (mem_fnSetDBNewChunk.mpr (Or.inl rfl))
      exact ⟨row, hrow, NewChunk.key_eq_iff.mp hkey⟩
    · exact ih hrest _

/-- No receipt of a send is empty. -/
theorem nil_not_mem_tokens : ([] : Bytes) ∉ t.tokens L := by
  intro hmem
  have hlength : ∀ bs, L.sha512 bs = [] → False := by
    intro bs hnil
    have h := L.length_sha512 bs
    rw [hnil] at h
    cases h
  rcases List.mem_cons.mp hmem with hhash | htoken
  · exact hlength _ hhash.symm
  · obtain ⟨bs, -, hnil⟩ := List.mem_map.mp htoken
    exact hlength bs hnil

/-! ## A picture in three chunks, the first of them lost -/

/-- Everything in the clear, and as the digest the last bytes in reverse. -/
def mirrored : LibCrypto :=
  { LibCrypto.transparent with
    sha512 := fun bs => LibCrypto.pad 64 bs.reverse
    length_sha512 := fun bs => LibCrypto.length_pad 64 bs.reverse }

theorem mirrored_aeadLaws : mirrored.AeadLaws := ⟨LibCrypto.transparent_aeadLaws.open_seal⟩

theorem getElem?_mirrored {bs : Bytes} {k : Nat} (hk : k < 64) (hlength : k < bs.length) :
    (mirrored.sha512 bs)[k]? = bs.reverse[k]? := by
  show (LibCrypto.pad 64 bs.reverse)[k]? = bs.reverse[k]?
  rw [LibCrypto.pad, List.getElem?_take, if_pos hk, List.getElem?_append_left (by rwa [List.length_reverse])]

/-- The digest of what a token hashes ends with the last byte of the chunk. -/
theorem mirrored_receiptInput (root : Bytes) (i : Nat) {data : Bytes} (hdata : data ≠ []) :
    (mirrored.sha512 (receiptInput root i (hashMerkleLeaf mirrored data)))[63]? = data.getLast? := by
  have hlength : (hashMerkleLeaf mirrored data).length = 64 := mirrored.length_sha512 _
  rw [getElem?_mirrored (by decide) (by
      rw [receiptInput, List.length_append, List.length_append, List.length_append, hlength]; omega),
    receiptInput, ← List.append_assoc, ← List.append_assoc, List.reverse_append,
    List.getElem?_append_left (by rw [List.length_reverse, hlength]; decide), List.getElem?_reverse (by rw [hlength]; decide),
    hlength]
  show (mirrored.sha512 (0x00 :: data))[0]? = data.getLast?
  rw [getElem?_mirrored (by decide) (by simp), List.reverse_cons, List.getElem?_append_left (by
      rw [List.length_reverse]; exact List.length_pos_of_ne_nil hdata), ← List.head?_eq_getElem?, List.head?_reverse]

section Sample

/-- What is reached from one room, when nothing is sent yet. -/
abbrev sampleReached (events : List Event) : System :=
  reached mirrored (fun _ => "image/png") "p" [⟨"r", []⟩] Table.empty (fun _ => Database.empty) events

abbrev SampleRun (events : List Event) : Prop :=
  AllowedRun mirrored (fun _ => "image/png") "p" [⟨"r", []⟩] Table.empty (fun _ => Database.empty) events

theorem sample_plainIds : PlainIds [⟨"r", []⟩] := by
  intro r hr m hm
  rw [List.mem_singleton.mp hr] at hm
  cases hm

/-- The picture is staged. -/
theorem sample_staged : ∃ (t : Transfer) (c0 c1 c2 : StagedChunk), SampleRun [.stage t] ∧
    t.roomId = "r" ∧ t.transferId = "t" ∧ t.result.chunks = [c0, c1, c2] ∧
    c0.chunkIndex = 0 ∧ c1.chunkIndex = 1 ∧ c2.chunkIndex = 2 ∧
    ∀ c ∈ t.result.chunks, c.data.length = CHUNK_LEN ∧ (t.call (fun _ => "image/png") "p" c).isSome = true := by
  obtain ⟨result, c0, c1, c2, hresult, hchunks, h0, h1, h2, hall⟩ := sample_split mirrored
  have htoken : ∀ c ∈ result.chunks,
      (mirrored.sha512 (receiptInput result.merkleRoot c.chunkIndex c.leafHash))[63]? =
        some (UInt8.ofNat c.chunkIndex) ∧ c.chunkIndex < 3 := by
    intro c hc
    obtain ⟨hlength, hleaf, hlast, -⟩ := hall c hc
    refine ⟨?_, ?_⟩
    · rw [hleaf, mirrored_receiptInput _ _ (List.ne_nil_of_length_pos (by rw [hlength]; decide)), hlast]
    · rw [hchunks] at hc
      simp only [List.mem_cons, List.not_mem_nil, or_false] at hc
      rcases hc with rfl | rfl | rfl <;> omega
  have hmessage : (mirrored.sha512 sampleBytes)[63]? = some 7 := by
    rw [getElem?_mirrored (by decide) (by rw [show sampleBytes.length = 120000 from List.length_replicate]; decide),
      sampleBytes, List.reverse_replicate, List.getElem?_replicate, if_pos (by decide)]
  have hseven : ∀ c ∈ result.chunks,
      mirrored.sha512 sampleBytes ≠ mirrored.sha512 (receiptInput result.merkleRoot c.chunkIndex c.leafHash) := by
    intro c hc heq
    obtain ⟨htok, hsmall⟩ := htoken c hc
    rw [← heq, hmessage] at htok
    have hvalue := congrArg UInt8.toNat (Option.some.inj htok)
    rw [UInt8.toNat_ofNat'] at hvalue
    have : (7 : UInt8).toNat = 7 := rfl
    omega
  have hsplit : Split mirrored ⟨"r", "t", "main", .file "a.png" sampleBytes, result⟩ := by
    refine ⟨⟨1, CHUNK_LEN, 9 / 10, 900000, ⟨0, by decide⟩, sampleCoins, hresult⟩, ?_, ?_,
      (by decide : Plain "r"), (by decide : Plain "t")⟩
    · intro hmem
      obtain ⟨c, hc, heq⟩ := List.mem_map.mp hmem
      exact hseven c hc (congrArg mirrored.sha512 heq.symm)
    · intro x hx y hy heq
      rcases List.mem_cons.mp hx with rfl | hx
      · rcases List.mem_cons.mp hy with rfl | hy
        · rfl
        · obtain ⟨c, hc, rfl⟩ := List.mem_map.mp hy
          exact absurd heq (hseven c hc)
      · obtain ⟨c, hc, rfl⟩ := List.mem_map.mp hx
        rcases List.mem_cons.mp hy with rfl | hy
        · exact absurd heq.symm (hseven c hc)
        · obtain ⟨c', hc', rfl⟩ := List.mem_map.mp hy
          obtain ⟨htok, hsmall⟩ := htoken c hc
          obtain ⟨htok', hsmall'⟩ := htoken c' hc'
          dsimp only at heq
          rw [heq, htok'] at htok
          have hvalue := congrArg UInt8.toNat (Option.some.inj htok)
          rw [UInt8.toNat_ofNat', UInt8.toNat_ofNat'] at hvalue
          have hindex : c.chunkIndex = c'.chunkIndex := by omega
          have hsame : c = c' := by
            rw [hchunks] at hc hc'
            simp only [List.mem_cons, List.not_mem_nil, or_false] at hc hc'
            rcases hc with rfl | rfl | rfl <;> rcases hc' with rfl | rfl | rfl <;> first | rfl | omega
          rw [hsame]
  refine ⟨⟨"r", "t", "main", .file "a.png" sampleBytes, result⟩, c0, c1, c2, ⟨⟨hsplit, ?_⟩, trivial⟩, rfl, rfl,
    hchunks, h0, h1, h2, fun c hc => ?_⟩
  · refine ⟨fun _ h => absurd h List.not_mem_nil, ?_, fun _ h => absurd h List.not_mem_nil,
      fun _ _ h => absurd h List.not_mem_nil, fun _ => ⟨rfl, rfl⟩, fun _ _ => rfl⟩
    intro r hr m hm
    rw [List.mem_singleton.mp hr] at hm
    cases hm
  · obtain ⟨hlength, -, -, call, hcall, -⟩ := hall c hc
    exact ⟨hlength, Option.isSome_iff_exists.mpr ⟨call, hcall⟩⟩

/-- A frame that arrives as it should, answered if need be with nothing. -/
def sampleReception : Reception := ⟨true, false, true, true, false, false, true, []⟩

theorem sampleReception_undisturbed : Undisturbed sampleReception := ⟨rfl, rfl, rfl, rfl, rfl, rfl⟩

/-- A first pass: the first frame is lost, the others arrive in the other order, and their receipts are read. -/
def lossyPass (t : Transfer) : List Event :=
  [.send 0 "q" 0 none default, .send 0 "q" 1 none default, .send 0 "q" 2 none default,
    .receive (t.channel "q") 2 sampleReception, .receive (t.channel "q") 1 sampleReception,
    .receipt (t.channel "q") 0, .receipt (t.channel "q") 1, .read "r" "q" "t"]

/-- A second pass, which skips what is acknowledged. -/
def secondPass (t : Transfer) : List Event :=
  [.send 0 "q" 0 (some {1, 2}) default, .send 0 "q" 1 (some {1, 2}) default, .send 0 "q" 2 (some {1, 2}) default,
    .receive (t.channel "q") 3 sampleReception]

/-- What the first pass leaves: the peer has all but the first chunk. -/
structure Lossy (t : Transfer) (c0 c1 c2 : StagedChunk) (s : System) : Prop where
  ready : Ready mirrored (fun _ => "image/png") "p" 0 t s
  chunks : t.result.chunks = [c0, c1, c2]
  first : c0.chunkIndex = 0
  second : c1.chunkIndex = 1
  third : c2.chunkIndex = 2
  lengths : ∀ c ∈ t.result.chunks, c.data.length = CHUNK_LEN
  real : ∀ c ∈ t.result.chunks, (t.call (fun _ => "image/png") "p" c).isSome = true
  held : ∀ c ∈ t.result.chunks, Skipped (some {1, 2}) c.chunkIndex → Holds (fun _ => "image/png") "p" t "q" c s
  frames : (s.frames (t.channel "q")).length = 3

theorem frames_arrival (channel : Channel) (k : Nat) (r : Reception) (s : System) :
    (System.step L getMimeType me (.receive channel k r) s).frames = s.frames := by
  dsimp only [System.step]
  cases (s.frames channel)[k]? with
  | none => rfl
  | some cell => rfl

theorem frames_read (roomId peerId transferId : String) (s : System) :
    (System.step L getMimeType me (.read roomId peerId transferId) s).frames = s.frames := rfl

theorem frames_receipt (channel : Channel) (k : Nat) (s : System) :
    (System.step L getMimeType me (.receipt channel k) s).frames = s.frames := by
  dsimp only [System.step]
  cases (s.receipts channel)[k]? with
  | none => rfl
  | some frame =>
    dsimp only
    cases decodeReceiptFrame frame with
    | none => rfl
    | some token => rfl

theorem sample_lossy : ∃ (t : Transfer) (c0 c1 c2 : StagedChunk), SampleRun ([.stage t] ++ lossyPass t) ∧
    Lossy t c0 c1 c2 (sampleReached ([.stage t] ++ lossyPass t)) := by
  obtain ⟨t, c0, c1, c2, hrun, hroom, hid, hchunks, h0, h1, h2, hall⟩ := sample_staged
  have hready : Ready mirrored (fun _ => "image/png") "p" 0 t (sampleReached [.stage t]) := by
    refine ⟨(inv_reached sample_plainIds hrun).mono fun _ _ => trivial, rfl, fun x hx => mem_stageRows_of_mem hx _, ?_⟩
    obtain ⟨room, id, label, message, result⟩ := t
    dsimp only at hroom hid
    subst hroom hid
    show receiptTarget [⟨"r", [_]⟩] "r" _ = _
    simp [receiptTarget, Transfer.roomMessage]
  have hquiet : ∀ e ∈ lossyPass t, Quiet e ∧ Allowed mirrored e (sampleReached [.stage t]) := by
    have hplain : Plain t.roomId ∧ Plain "q" := ⟨hroom ▸ by decide, by decide⟩
    have hdecoy : IsDecoy mirrored (t.channel "q") sampleReception.decoy (sampleReached [.stage t]) :=
      fun _ _ _ => nil_not_mem_tokens
    intro e he
    simp only [lossyPass, List.mem_cons, List.not_mem_nil, or_false] at he
    rcases he with rfl | rfl | rfl | rfl | rfl | rfl | rfl | rfl
    · exact ⟨trivial, trivial⟩
    · exact ⟨trivial, trivial⟩
    · exact ⟨trivial, trivial⟩
    · exact ⟨trivial, hdecoy⟩
    · exact ⟨trivial, hdecoy⟩
    · exact ⟨trivial, hplain⟩
    · exact ⟨trivial, hplain⟩
    · exact ⟨trivial, by decide, by decide, by decide⟩
  have hskip : ∀ i, ¬ Skipped none i := by
    rintro i ⟨acked, hacked, -⟩
    cases hacked
  have hsize : ∀ c ∈ t.result.chunks, c.data.length = CHUNK_LEN := fun c hc => (hall c hc).1
  have hreal : ∀ c ∈ t.result.chunks, (t.call (fun _ => "image/png") "p" c).isSome = true := fun c hc => (hall c hc).2
  have hsent : ∀ {s : System} (c : StagedChunk), c ∈ t.result.chunks → Ready mirrored (fun _ => "image/png") "p" 0 t s →
      ((System.step mirrored (fun _ => "image/png") "p" (.send 0 "q" c.chunkIndex none default) s).frames
        (t.channel "q")).length = (s.frames (t.channel "q")).length + 1 := by
    intro s c hc h
    obtain ⟨cell, hframes, -⟩ := @Ready.sent _ _ _ s t c "q" 0 none h hsize hc (hreal c hc) (hskip _) default
    rw [hframes, List.length_append]
    rfl
  obtain ⟨hm0, hm1, hm2⟩ : c0 ∈ t.result.chunks ∧ c1 ∈ t.result.chunks ∧ c2 ∈ t.result.chunks := by simp [hchunks]
  have hone := hsent c0 hm0 hready
  have hready1 := hready.step (e := .send 0 "q" c0.chunkIndex none default) trivial trivial
  have htwo := hsent c1 hm1 hready1
  have hthree := hsent c2 hm2 (hready1.step (e := .send 0 "q" c1.chunkIndex none default) trivial trivial)
  rw [h0] at hone htwo hthree
  rw [h1] at htwo hthree
  rw [h2] at hthree
  have hzero : ((sampleReached [.stage t]).frames (t.channel "q")).length = 0 := rfl
  rw [hone, hzero] at htwo
  rw [hzero] at hone
  rw [htwo] at hthree
  have hsecond : Holds (fun _ => "image/png") "p" t "q" c1 (runs (System.step mirrored (fun _ => "image/png") "p")
      (lossyPass t) (sampleReached [.stage t])) := by
    refine hready.held hsize hm1 (hreal c1 hm1) hquiet (Or.inr (Or.inr ⟨hskip _, ?_⟩))
    rw [h1]
    refine Or.inr (Or.inl ⟨⟨_, rfl⟩, sampleReception, sampleReception_undisturbed, ?_⟩)
    rw [hone]
    simp
  have hthird : Holds (fun _ => "image/png") "p" t "q" c2 (runs (System.step mirrored (fun _ => "image/png") "p")
      (lossyPass t) (sampleReached [.stage t])) := by
    refine hready.held hsize hm2 (hreal c2 hm2) hquiet (Or.inr (Or.inr ⟨hskip _, ?_⟩))
    rw [h2]
    refine Or.inr (Or.inr (Or.inl ⟨⟨_, rfl⟩, sampleReception, sampleReception_undisturbed, ?_⟩))
    rw [htwo]
    simp
  obtain ⟨halong, hafter⟩ := hready.kept hquiet
  refine ⟨t, c0, c1, c2, along_append_iff.mpr ⟨hrun, halong⟩, ?_⟩
  rw [sampleReached, reached, runs_append]
  refine ⟨hafter, hchunks, h0, h1, h2, hsize, hreal, ?_, ?_⟩
  · rintro c hc ⟨acked, hacked, hmem⟩
    cases hacked
    rw [hchunks] at hc
    simp only [List.mem_cons, List.not_mem_nil, or_false] at hc
    rcases hc with rfl | rfl | rfl
    · rw [h0] at hmem
      exact absurd hmem (by decide)
    · exact hsecond
    · exact hthird
  · simp only [lossyPass, runs, List.foldl_cons, List.foldl_nil]
    rw [frames_read, frames_receipt, frames_receipt, frames_arrival, frames_arrival]
    exact hthree

/-- What the second pass brings. -/
theorem Lossy.completes {c0 c1 c2 : StagedChunk} (h : Lossy t c0 c1 c2 s) :
    (∀ e ∈ secondPass t, Quiet e ∧ Allowed mirrored e s) ∧
    (∃ c ∈ t.result.chunks, (t.call (fun _ => "image/png") "p" c).isSome = true ∧
      ¬ Skipped (some {1, 2}) c.chunkIndex) ∧
    ∀ c ∈ t.result.chunks, (t.call (fun _ => "image/png") "p" c).isSome = true → ¬ Skipped (some {1, 2}) c.chunkIndex →
      Brings mirrored (fun _ => "image/png") "p" 0 "q" (some {1, 2}) (t.channel "q") c.chunkIndex (secondPass t) s := by
  have hfirst : ¬ Skipped (some {1, 2}) 0 := by
    rintro ⟨acked, hacked, hmem⟩
    cases hacked
    exact absurd hmem (by decide)
  refine ⟨fun e he => ?_, ⟨c0, by simp [h.chunks], h.real c0 (by simp [h.chunks]), by rwa [h.first]⟩,
    fun c hc _ hskip => ?_⟩
  · simp only [secondPass, List.mem_cons, List.not_mem_nil, or_false] at he
    rcases he with rfl | rfl | rfl | rfl
    · exact ⟨trivial, trivial⟩
    · exact ⟨trivial, trivial⟩
    · exact ⟨trivial, trivial⟩
    · exact ⟨trivial, fun _ _ _ => nil_not_mem_tokens⟩
  · rw [h.chunks] at hc
    simp only [List.mem_cons, List.not_mem_nil, or_false] at hc
    rcases hc with rfl | rfl | rfl
    · rw [h.first]
      refine Or.inl ⟨⟨_, rfl⟩, sampleReception, sampleReception_undisturbed, ?_⟩
      rw [h.frames]
      simp
    · exact absurd ⟨{1, 2}, rfl, by rw [h.second]; decide⟩ hskip
    · exact absurd ⟨{1, 2}, rfl, by rw [h.third]; decide⟩ hskip

end Sample

/-! ## The results -/

/-- Along every run, what the sender has noted of a peer was once so: each chunk it counts as
acknowledged was in the records of that peer, and a transfer it counts as complete was there whole. -/
theorem delivery_confirmed (hids : PlainIds rooms) (hrun : AllowedRun L getMimeType me rooms newChunks stores events)
    (ht : t ∈ (reached L getMimeType me rooms newChunks stores events).transfers) :
    (∀ p, Plain p →
      (∀ i ∈ (getAckedChunks t.roomId p t.transferId (reached L getMimeType me rooms newChunks stores events).edges).1,
        ∃ c ∈ t.result.chunks, c.chunkIndex = i ∧
          OnceIn L getMimeType me rooms newChunks stores events (Holds getMimeType me t p c)) ∧
      (isTransferComplete t.roomId p t.transferId (reached L getMimeType me rooms newChunks stores events).edges = true →
        OnceIn L getMimeType me rooms newChunks stores events (HoldsAll getMimeType me t p))) ∧
    ∀ ack ∈ getTransferAcks t.roomId t.transferId (reached L getMimeType me rooms newChunks stores events).edges,
      ∃ p, ack.peerId = p.toList ∧
        (∃ acked : Finset Nat, ack.ackedChunks = acked.card ∧ ∀ i ∈ acked, ∃ c ∈ t.result.chunks, c.chunkIndex = i ∧
          OnceIn L getMimeType me rooms newChunks stores events (Holds getMimeType me t p c)) ∧
        (ack.complete = true → OnceIn L getMimeType me rooms newChunks stores events (HoldsAll getMimeType me t p)) := by
  have hinv := inv_reached hids hrun
  have hsplit := hinv.split t ht
  constructor
  · intro p hp
    have hnoted := hinv.edges t ht p hp
    exact ⟨hnoted.acked, hnoted.complete⟩
  · intro ack hack
    obtain ⟨p, e, hp, hget, rfl⟩ := (mem_getTransferAcks hsplit.roomId hsplit.transferId hinv.keys).mp hack
    have hnoted := hinv.edges t ht p hp
    have hedge : (reached L getMimeType me rooms newChunks stores events).edges.edge t.roomId p t.transferId = e := by
      rw [Edges.edge, hget, Option.getD_some]
    rw [hedge] at hnoted
    exact ⟨p, rfl, ⟨e.acked, rfl, hnoted.acked⟩, hnoted.complete⟩

/-- The picture in three chunks, whose first frame is lost: confirmed after the second pass. -/
theorem delivery_confirmed_picture : ∃ (t : Transfer) (k : Nat), t.result.chunks.length = 3 ∧
    isTransferComplete t.roomId "q" t.transferId (sampleReached
      (([.stage t] ++ lossyPass t) ++ (secondPass t ++ [.receipt (t.channel "q") k]))).edges = true ∧
    OnceIn mirrored (fun _ => "image/png") "p" [⟨"r", []⟩] Table.empty (fun _ => Database.empty)
      (([.stage t] ++ lossyPass t) ++ (secondPass t ++ [.receipt (t.channel "q") k]))
      (HoldsAll (fun _ => "image/png") "p" t "q") := by
  obtain ⟨t, c0, c1, c2, hrun, h⟩ := sample_lossy
  obtain ⟨hquiet, hone, hbrings⟩ := h.completes
  obtain ⟨k, halong, hready, hdone⟩ := h.ready.completes h.lengths (by decide : Plain "q") (fun c hc _ => h.held c hc)
    hone hquiet hbrings
  unfold sampleReached reached at hready hdone
  rw [← runs_append] at hready hdone
  exact ⟨t, k, by rw [h.chunks]; rfl, hdone, ((delivery_confirmed sample_plainIds
    (along_append_iff.mpr ⟨hrun, halong⟩) (List.mem_of_getElem? hready.nth)).1 "q" (by decide)).2 hdone⟩

/-- Every cell on its way is that of a staged chunk of a send on its channel, and opens: sealed under a
key, it is received under that key as it was staged, with its leaf where its proof begins. -/
theorem cells_open (haead : L.AeadLaws) (hids : PlainIds rooms)
    (hrun : AllowedRun L getMimeType me rooms newChunks stores events) {channel : Channel} {cell : Cell}
    (hcell : cell ∈ (reached L getMimeType me rooms newChunks stores events).frames channel) (key : Bytes)
    {header : RatchetHeader} {pqEpoch : Nat} (hfits : HeaderFits header pqEpoch) (nonce : RandomBytes RATCHET_NONCE_LEN) :
    (∃ t ∈ (reached L getMimeType me rooms newChunks stores events).transfers, channel = t.channel channel.peerId ∧
      ∃ c ∈ t.result.chunks, cell.metadata = c.metadata ∧ cell.data = c.data) ∧
    ∃ decrypted, receiveWithKey L (sealedChunk L key header pqEpoch
        (cell.metadata ++ (cell.merkleProof ++ cell.data)) channel.merkleRoot nonce) channel.merkleRoot key
        = .ok decrypted ∧
      slice decrypted 0 METADATA_LEN = cell.metadata ∧
      slice decrypted METADATA_LEN HASH_BYTES = hashMerkleLeaf L cell.data ∧
      decrypted.drop (METADATA_LEN + PROOF_LEN) = cell.data := by
  have hinv := inv_reached hids hrun
  obtain ⟨t, ht, hchannel, c, hc, hparts⟩ := hinv.frames channel cell hcell
  obtain ⟨maxBytes, hsliced⟩ := hinv.sliced ht
  have hmetadata : cell.metadata.length = METADATA_LEN := hparts.metadata ▸ (hsliced.lengths c hc).1
  have hdrop : (cell.metadata ++ (cell.merkleProof ++ cell.data)).drop (METADATA_LEN + PROOF_LEN) = cell.data := by
    rw [← List.append_assoc]
    exact List.drop_left' (by rw [List.length_append, hmetadata, hparts.proof.length])
  have hleaf : chunkLeaf L (cell.metadata ++ (cell.merkleProof ++ cell.data)) = hashMerkleLeaf L cell.data := by
    rw [chunkLeaf, hdrop]
  have hproves : ProvesLeaf L channel.merkleRoot (cell.metadata ++ (cell.merkleProof ++ cell.data)) := by
    obtain ⟨hlength, hartifacts, hholds, hverifies⟩ := hparts.proof
    rw [← hparts.metadata, ← hparts.data] at hartifacts hholds hverifies
    refine ⟨?_, hartifacts, hholds, ?_⟩
    · rw [List.length_append, List.length_append, hparts.length, Nat.add_assoc]
    · rw [hleaf, hchannel, hparts.data, ← hsliced.leaf c hc, ← hparts.data]
      exact hverifies
  refine ⟨⟨t, ht, hchannel, c, hc, hparts.metadata, hparts.data⟩, _, receive_sealedChunk haead hfits hproves, Session.take_withReceipt hmetadata, ?_,
    Session.drop_withReceipt hmetadata hparts.proof.length⟩
  rw [withReceipt, hleaf, List.take_left' hmetadata]
  exact slice_append hmetadata (length_hashMerkleLeaf _)

/-- The chunk of the picture whose frame was lost opens when it is sent again. -/
theorem cells_open_picture : ∃ (t : Transfer) (cell : Cell) (decrypted : Bytes),
    (sampleReached (([.stage t] ++ lossyPass t) ++ [.send 0 "q" 0 (some {1, 2}) default])).frames (t.channel "q") =
      (sampleReached ([.stage t] ++ lossyPass t)).frames (t.channel "q") ++ [cell] ∧
    receiveWithKey mirrored (sealedChunk mirrored (List.replicate 32 9) ⟨List.replicate 32 0, 0, 0⟩ 0
      (cell.metadata ++ (cell.merkleProof ++ cell.data)) (t.channel "q").merkleRoot
      ⟨List.replicate 12 0, List.length_replicate⟩) (t.channel "q").merkleRoot (List.replicate 32 9) = .ok decrypted ∧
    decrypted.drop (METADATA_LEN + PROOF_LEN) = cell.data := by
  obtain ⟨t, c0, c1, c2, hrun, h⟩ := sample_lossy
  obtain ⟨-, ⟨c, hc, hreal, hskip⟩, -⟩ := h.completes
  have hfirst : c.chunkIndex = 0 := by
    rw [h.chunks] at hc
    simp only [List.mem_cons, List.not_mem_nil, or_false] at hc
    rcases hc with rfl | rfl | rfl
    · exact h.first
    · exact absurd ⟨{1, 2}, rfl, by rw [h.second]; decide⟩ hskip
    · exact absurd ⟨{1, 2}, rfl, by rw [h.third]; decide⟩ hskip
  obtain ⟨cell, hframes, -⟩ := @Ready.sent _ _ _ _ t c "q" 0 _ h.ready h.lengths hc hreal hskip default
  rw [hfirst] at hframes
  have hsent : (sampleReached (([.stage t] ++ lossyPass t) ++ [.send 0 "q" 0 (some {1, 2}) default])).frames
      (t.channel "q") = (sampleReached ([.stage t] ++ lossyPass t)).frames (t.channel "q") ++ [cell] := by
    rw [sampleReached, reached, runs_snoc]
    exact hframes
  have hheader : HeaderFits ⟨List.replicate 32 0, 0, 0⟩ 0 := ⟨rfl, Nat.zero_le _, Nat.zero_le _, Nat.zero_le _⟩
  have hall : SampleRun (([.stage t] ++ lossyPass t) ++ [.send 0 "q" 0 (some {1, 2}) default]) :=
    along_append_iff.mpr ⟨hrun, trivial, trivial⟩
  obtain ⟨-, decrypted, hopen, -, -, hdata⟩ := cells_open mirrored_aeadLaws sample_plainIds hall
    (hsent ▸ List.mem_append_right _ (List.mem_singleton_self cell)) (List.replicate 32 9) hheader
    ⟨List.replicate 12 0, List.length_replicate⟩
  exact ⟨t, cell, decrypted, hsent, hopen, hdata⟩

/-- From every state of a run, a pass over all chunks but those the peer still has completes the
transfer, whatever else of it is lost, repeated, disturbed or in another order: the frames of the chunks
arrive and are stored, and the last receipt is read. -/
theorem pass_completes (hids : PlainIds rooms) (hrun : AllowedRun L getMimeType me rooms newChunks stores events)
    {n : Nat} (hget : (reached L getMimeType me rooms newChunks stores events).transfers[n]? = some t)
    (hsize : ∀ c ∈ t.result.chunks, c.data.length = CHUNK_LEN)
    (hstaged : ∀ c ∈ t.result.chunks, ∃ row ∈ (reached L getMimeType me rooms newChunks stores events).newChunks.rows,
      row.transferId = t.transferId ∧ row.chunkIndex = c.chunkIndex)
    (htarget : receiptTarget (reached L getMimeType me rooms newChunks stores events).rooms t.roomId t.rootHex
      = some (t.roomMessage, t.transferId)) (hp : Plain p) {skip : Option (Finset Nat)}
    (hkept : ∀ c ∈ t.result.chunks, (t.call getMimeType me c).isSome = true → Skipped skip c.chunkIndex →
      Holds getMimeType me t p c (reached L getMimeType me rooms newChunks stores events))
    (hone : ∃ c ∈ t.result.chunks, (t.call getMimeType me c).isSome = true ∧ ¬ Skipped skip c.chunkIndex)
    {pass : List Event}
    (hquiet : ∀ e ∈ pass, Quiet e ∧ Allowed L e (reached L getMimeType me rooms newChunks stores events))
    (hbrings : ∀ c ∈ t.result.chunks, (t.call getMimeType me c).isSome = true → ¬ Skipped skip c.chunkIndex →
      Brings L getMimeType me n p skip (t.channel p) c.chunkIndex pass
        (reached L getMimeType me rooms newChunks stores events)) :
    ∃ k, AllowedRun L getMimeType me rooms newChunks stores (events ++ (pass ++ [.receipt (t.channel p) k])) ∧
      isTransferComplete t.roomId p t.transferId (reached L getMimeType me rooms newChunks stores
        (events ++ (pass ++ [.receipt (t.channel p) k]))).edges = true := by
  have hready : Ready L getMimeType me n t (reached L getMimeType me rooms newChunks stores events) :=
    ⟨(inv_reached hids hrun).mono fun _ _ => trivial, hget, hstaged, htarget⟩
  obtain ⟨k, halong, -, hdone⟩ := hready.completes hsize hp hkept hone hquiet hbrings
  refine ⟨k, along_append_iff.mpr ⟨hrun, halong⟩, ?_⟩
  unfold reached at hdone ⊢
  rw [runs_append]
  exact hdone

/-- The second pass completes the picture whose first frame was lost. -/
theorem pass_completes_picture : ∃ (t : Transfer) (k : Nat), t.result.chunks.length = 3 ∧
    isTransferComplete t.roomId "q" t.transferId (sampleReached
      (([.stage t] ++ lossyPass t) ++ (secondPass t ++ [.receipt (t.channel "q") k]))).edges = true := by
  obtain ⟨t, c0, c1, c2, hrun, h⟩ := sample_lossy
  obtain ⟨hquiet, hone, hbrings⟩ := h.completes
  obtain ⟨k, -, hdone⟩ := pass_completes sample_plainIds hrun h.ready.nth h.lengths h.ready.rows h.ready.target
    (by decide : Plain "q") (fun c hc _ => h.held c hc) hone hquiet hbrings
  exact ⟨t, k, by rw [h.chunks]; rfl, hdone⟩

end Runs

end Delivery

end P2Party
