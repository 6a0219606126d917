import P2Party.Persistence.Placement

/-!
# Where the bytes of a received message are

A record without bytes stands for bytes in the file, at the index times the length of a full
chunk. Chunks write only into their own slot, so this survives whatever happens to the other
slots, to the handles and to the worker, as long as the slot is right; and it is right unless
a handle infers the length of a full chunk from the last chunk alone. That happens when the
last chunk is placed twice by a handle that placed nothing else.

- `Layout`, `OfLayout`: a message cut into chunks, and a chunk of it;
- `InSlot`: a chunk is in the file; `inSlot_write` and `inSlot_written`: what a write does;
- `ReceiveFileEntry.Right`, `learn_right`: what an entry knows is right;
- `Placed`: the invariant; `placed_step` and `placed_run`: it holds along a run;
- `ReceiveFileEntry.Misled`, `Careful`: the last chunk placed twice, and runs without it;
- `placement_run`: along every careful run the bytes are in their place.
-/

namespace P2Party

open Base

namespace Opfs

open Storage

/-! ## A message and its chunks -/

/-- A message, and the length of its full chunks. -/
structure Layout where
  bytes : Bytes
  uniformSize : Nat
  nonempty : 0 < bytes.length
  bounded : bytes.length ≤ MAX_MESSAGE_SIZE
  positive : 0 < uniformSize
  fits : uniformSize ≤ CHUNK_LEN

namespace Layout

/-- The bytes of chunk `i`. -/
def chunk (l : Layout) (i : Nat) : Bytes := sliceAt l.bytes l.uniformSize i

/-- The number of chunks. -/
def count (l : Layout) : Nat := ceilDiv l.bytes.length l.uniformSize

end Layout

/-- A chunk of the message. -/
structure OfLayout (l : Layout) (c : ReceiveChunk) : Prop where
  totalSize : c.totalSize = l.bytes.length
  index : c.chunkIndex < l.count
  data : c.data = l.chunk c.chunkIndex

instance (l : Layout) (c : ReceiveChunk) : Decidable (OfLayout l c) :=
  decidable_of_iff (c.totalSize = l.bytes.length ∧ c.chunkIndex < l.count ∧ c.data = l.chunk c.chunkIndex)
    ⟨fun ⟨h1, h2, h3⟩ => ⟨h1, h2, h3⟩, fun ⟨h1, h2, h3⟩ => ⟨h1, h2, h3⟩⟩

section Slots

variable {l : Layout} {file : Bytes} {i j : Nat}

theorem Layout.length_chunk (l : Layout) (i : Nat) :
    (l.chunk i).length = min l.uniformSize (l.bytes.length - i * l.uniformSize) :=
  length_sliceAt _ _ _

theorem Layout.lt_count_iff (l : Layout) {i : Nat} : i < l.count ↔ i * l.uniformSize < l.bytes.length :=
  lt_ceilDiv_iff l.positive

/-- The slot of a chunk lies in the message. -/
theorem Layout.slot_le (l : Layout) (hi : i < l.count) :
    i * l.uniformSize + (l.chunk i).length ≤ l.bytes.length := by
  have hlt := l.lt_count_iff.mp hi
  have hlen := l.length_chunk i
  omega

/-- Slots in order do not overlap. -/
theorem Layout.slot_before (l : Layout) (h : i < j) :
    i * l.uniformSize + (l.chunk i).length ≤ j * l.uniformSize := by
  have hmul : (i + 1) * l.uniformSize ≤ j * l.uniformSize := Nat.mul_le_mul_right _ h
  have hlen := l.length_chunk i
  rw [Nat.succ_mul] at hmul
  omega

/-- The file has the size of the message, and chunk `i` is in it. -/
structure InSlot (l : Layout) (file : Bytes) (i : Nat) : Prop where
  size : file.length = l.bytes.length
  bytes : slice file (i * l.uniformSize) (l.chunk i).length = l.chunk i

theorem written_prefix_data (w : Writing) (data : Bytes) : w.written data <+: data := by
  cases w with
  | done => exact List.prefix_rfl
  | stopped n => exact List.take_prefix n data

/-- Writing into a slot, even in part, keeps the size. -/
theorem length_write (w : Writing) (hi : i < l.count) (hsize : file.length = l.bytes.length) :
    (writeAt file (i * l.uniformSize) (w.written (l.chunk i))).length = l.bytes.length := by
  have hle := (written_prefix_data w (l.chunk i)).length_le
  have hslot := l.slot_le hi
  rw [length_writeAt (by omega), hsize]

/-- Writing into a slot, even in part, keeps every chunk that is in the file. -/
theorem inSlot_write (w : Writing) (hi : i < l.count) (h : InSlot l file j) :
    InSlot l (writeAt file (i * l.uniformSize) (w.written (l.chunk i))) j := by
  have hprefix := written_prefix_data w (l.chunk i)
  have hle := hprefix.length_le
  have hslot := l.slot_le hi
  have hbound : i * l.uniformSize + (w.written (l.chunk i)).length ≤ file.length := by
    rw [h.size]
    omega
  refine ⟨length_write w hi h.size, ?_⟩
  rcases Nat.lt_trichotomy i j with hij | rfl | hij
  · have hbefore := l.slot_before hij
    rw [slice_writeAt_of_ge hbound (by omega), h.bytes]
  · -- the same bytes again
    have hsame : slice file (i * l.uniformSize) (w.written (l.chunk i)).length = w.written (l.chunk i) := by
      obtain ⟨rest, hrest⟩ := hprefix
      have hbytes := h.bytes
      rw [slice] at hbytes ⊢
      calc (file.drop (i * l.uniformSize)).take (w.written (l.chunk i)).length
          = ((file.drop (i * l.uniformSize)).take (l.chunk i).length).take (w.written (l.chunk i)).length := by
            rw [List.take_take, Nat.min_eq_left hle]
        _ = w.written (l.chunk i) := by
            rw [hbytes]
            nth_rewrite 2 [← hrest]
            exact List.take_left
    rw [writeAt_of_slice hbound hsame, h.bytes]
  · have hbefore := l.slot_before hij
    rw [slice_writeAt_of_le hbound hbefore, h.bytes]

/-- A chunk that was written is in the file. -/
theorem inSlot_written (hi : i < l.count) (hsize : file.length = l.bytes.length) :
    InSlot l (writeAt file (i * l.uniformSize) (l.chunk i)) i := by
  have hslot := l.slot_le hi
  exact ⟨length_write .done hi hsize, slice_writeAt_self (by omega)⟩

/-- A file with every chunk is the message. -/
theorem eq_bytes_of_inSlot (h : ∀ i < l.count, InSlot l file i) : file = l.bytes := by
  have hsize := (h 0 (l.lt_count_iff.mpr (by rw [Nat.zero_mul]; exact l.nonempty))).size
  have hcover : l.bytes.length ≤ l.count * l.uniformSize := by
    refine Nat.not_lt.mp fun hlt => ?_
    exact Nat.lt_irrefl _ (l.lt_count_iff.mpr hlt)
  have hslice : ∀ i ∈ List.range l.count, sliceAt file l.uniformSize i = sliceAt l.bytes l.uniformSize i := by
    intro i hi
    have hin := h i (List.mem_range.mp hi)
    have hlt := l.lt_count_iff.mp (List.mem_range.mp hi)
    have hlen := l.length_chunk i
    refine Eq.trans ?_ hin.bytes
    rw [sliceAt, slice, slice, List.take_eq_take_iff, List.length_drop]
    omega
  calc file = file.take (l.count * l.uniformSize) := (List.take_of_length_le (by omega)).symm
    _ = (List.range l.count).flatMap (sliceAt file l.uniformSize) := (flatMap_sliceAt _ _ _).symm
    _ = (List.range l.count).flatMap (sliceAt l.bytes l.uniformSize) := by
        rw [List.flatMap_def, List.flatMap_def, List.map_congr_left hslice]
    _ = l.bytes.take (l.count * l.uniformSize) := flatMap_sliceAt _ _ _
    _ = l.bytes := List.take_of_length_le hcover

end Slots

/-! ## What an entry knows -/

/-- What the entry of a handle says about the message is right. -/
structure ReceiveFileEntry.Right (l : Layout) (e : ReceiveFileEntry) : Prop where
  longest : e.maxRealLen ≤ l.uniformSize
  offsets : e.uniformKnown = true → ∀ i < l.count, placeOffset i e.uniformSize = i * l.uniformSize

/-- A second chunk comes to an entry that has seen only the short last one, and it is the last
one again. -/
def ReceiveFileEntry.Misled (l : Layout) (e : ReceiveFileEntry) (c : ReceiveChunk) : Prop :=
  e.uniformKnown = false ∧ 1 ≤ e.seenCount ∧ c.chunkIndex ≠ 0 ∧ max e.maxRealLen c.realLen < l.uniformSize

instance (l : Layout) (e : ReceiveFileEntry) (c : ReceiveChunk) : Decidable (e.Misled l c) := by
  unfold ReceiveFileEntry.Misled
  infer_instance

theorem right_fresh (l : Layout) : ReceiveFileEntry.fresh.Right l :=
  ⟨Nat.zero_le _, fun h => absurd h (by decide)⟩

theorem placeOffset_self (i n : Nat) : placeOffset i n = i * n := by
  unfold placeOffset
  split
  case isTrue h => rw [h, Nat.zero_mul]
  case isFalse => rfl

/-- The full length, or anything when there is only one chunk. -/
theorem placeOffset_fullLength (l : Layout) {i : Nat} (hi : i < l.count) :
    placeOffset i (fullLength l.bytes.length l.uniformSize) = i * l.uniformSize := by
  rw [placeOffset_self, fullLength]
  rcases Nat.le_total l.uniformSize l.bytes.length with h | h
  · rw [Nat.min_eq_left h]
  · have hzero : i = 0 := by
      have hlt := l.lt_count_iff.mp hi
      cases i with
      | zero => rfl
      | succ i =>
        rw [Nat.succ_mul] at hlt
        omega
    rw [hzero, Nat.zero_mul, Nat.zero_mul]

/-- An entry learns what is right, unless it is misled. -/
theorem learn_right {l : Layout} {e : ReceiveFileEntry} {c : ReceiveChunk} (h : e.Right l)
    (hc : OfLayout l c) (hlen : c.realLen = c.data.length) (hsafe : ¬ e.Misled l c) :
    (e.learn c.chunkIndex c.realLen c.totalSize).Right l := by
  have hreal : c.realLen = min l.uniformSize (l.bytes.length - c.chunkIndex * l.uniformSize) := by
    rw [hlen, hc.data, l.length_chunk]
  have hmax : max e.maxRealLen c.realLen ≤ l.uniformSize :=
    Nat.max_le.mpr ⟨h.longest, hreal ▸ Nat.min_le_left _ _⟩
  unfold ReceiveFileEntry.learn
  dsimp only
  split
  case isTrue hknown => exact ⟨hmax, fun _ => h.offsets hknown⟩
  case isFalse hunknown =>
    split
    case isTrue hzero =>
      refine ⟨hmax, fun _ i hi => ?_⟩
      rw [hzero, Nat.zero_mul, Nat.sub_zero] at hreal
      dsimp only
      rw [hc.totalSize]
      split
      case isTrue hshort =>
        rw [hreal]
        exact placeOffset_fullLength l hi
      case isFalse hwhole =>
        -- chunk 0 is the whole message, so it is the only one
        have hone := l.lt_count_iff.mp hi
        have hindex : i = 0 := by
          cases i with
          | zero => rfl
          | succ i =>
            rw [Nat.succ_mul] at hone
            omega
        rw [hindex, Nat.zero_mul]
        rfl
    case isFalse hzero =>
      split
      case isTrue htwo =>
        -- it is not misled, so the longest chunk it has seen is a full one
        have hfull : max e.maxRealLen c.realLen = l.uniformSize := by
          refine Nat.le_antisymm hmax (Nat.not_lt.mp fun hlt => hsafe ⟨?_, ?_, hzero, hlt⟩)
          · exact Bool.eq_false_iff.mpr hunknown
          · exact Nat.le_of_succ_le_succ htwo
        refine ⟨hmax, fun _ i _ => ?_⟩
        dsimp only
        rw [hfull, placeOffset_self]
      case isFalse => exact ⟨hmax, fun hknown => absurd hknown hunknown⟩

/-! ## The invariant -/

/-- A record of the message. -/
structure RecordOf (l : Layout) (r : Chunk) : Prop where
  index : r.chunkIndex < l.count
  length : r.realLen = some (l.chunk r.chunkIndex).length
  data : ∀ bytes, r.data = some bytes → bytes = l.chunk r.chunkIndex

section Invariant

variable (layouts : String → Layout)

/-- The file of a root has the size of its message. -/
def Sized (d : Disk) (root : String) : Prop :=
  ∃ file, d.files root = some file ∧ file.length = (layouts root).bytes.length

/-- A chunk of a root is in its file. -/
def OnDisk (d : Disk) (root : String) (i : Nat) : Prop :=
  ∃ file, d.files root = some file ∧ InSlot (layouts root) file i

/-- A call is about a chunk of its message, and has placed it when it says so. -/
structure CallRight (d : Disk) (call : Call Stage) : Prop where
  chunk : OfLayout (layouts call.chunk.merkleRoot) call.chunk
  length : call.chunk.realLen = call.chunk.data.length
  written : call.stage = .placed true → OnDisk layouts d call.chunk.merkleRoot call.chunk.chunkIndex

/-- Every record is of its message, and one without bytes has them in the file. -/
structure Placed (d : Disk) : Prop where
  records : ∀ r ∈ d.db.chunks.rows, RecordOf (layouts r.merkleRoot) r
  bytes : ∀ r ∈ d.db.chunks.rows, r.data = none → OnDisk layouts d r.merkleRoot r.chunkIndex
  entries : ∀ root e, d.handles.get root = some e → e.Right (layouts root) ∧ Sized layouts d root
  calls : ∀ call ∈ d.calls, CallRight layouts d call

/-- The files change without losing what is in them. -/
def Kept (d d' : Disk) : Prop :=
  ∀ root, (Sized layouts d root → Sized layouts d' root) ∧
    ∀ i, OnDisk layouts d root i → OnDisk layouts d' root i

variable {layouts}

theorem kept_of_files {d d' : Disk} (h : d'.files = d.files) : Kept layouts d d' := by
  intro root
  unfold Sized OnDisk
  rw [h]
  exact ⟨id, fun _ => id⟩

/-- Changing one file keeps what is in them when the change does. -/
theorem kept_setFile {d : Disk} {root : String} {file : Bytes}
    (h : ∀ before, d.files root = some before → before.length = (layouts root).bytes.length →
      file.length = (layouts root).bytes.length ∧
        ∀ i, InSlot (layouts root) before i → InSlot (layouts root) file i) :
    Kept layouts d (d.setFile root file) := by
  intro r
  by_cases hr : r = root
  · subst hr
    have hfile : (d.setFile r file).files r = some file := if_pos rfl
    constructor
    · rintro ⟨before, hbefore, hsize⟩
      exact ⟨file, hfile, (h before hbefore hsize).1⟩
    · rintro i ⟨before, hbefore, hin⟩
      exact ⟨file, hfile, (h before hbefore hin.size).2 i hin⟩
  · have hfile : (d.setFile root file).files r = d.files r := if_neg hr
    unfold Sized OnDisk
    rw [hfile]
    exact ⟨id, fun _ => id⟩

/-- What a step that does not touch the records has to show. -/
theorem Placed.change {d d' : Disk} (h : Placed layouts d) (hkept : Kept layouts d d') (hdb : d'.db = d.db)
    (hhandles : ∀ root e, d'.handles.get root = some e →
      d.handles.get root = some e ∨ (e.Right (layouts root) ∧ Sized layouts d' root))
    (hcalls : ∀ call ∈ d'.calls, call ∈ d.calls ∨ CallRight layouts d' call) : Placed layouts d' := by
  refine ⟨hdb ▸ h.records, ?_, ?_, ?_⟩
  · intro r hr hnone
    rw [hdb] at hr
    exact (hkept _).2 _ (h.bytes r hr hnone)
  · intro root e he
    rcases hhandles root e he with hold | hnew
    · obtain ⟨hright, hsized⟩ := h.entries root e hold
      exact ⟨hright, (hkept root).1 hsized⟩
    · exact hnew
  · intro call hcall
    rcases hcalls call hcall with hold | hnew
    · obtain ⟨hchunk, hlength, hwritten⟩ := h.calls call hold
      exact ⟨hchunk, hlength, fun hstage => (hkept _).2 _ (hwritten hstage)⟩
    · exact hnew

/-- Dropping handles and calls. -/
theorem Placed.drop {d d' : Disk} (h : Placed layouts d) (hdb : d'.db = d.db) (hfiles : d'.files = d.files)
    (hhandles : ∀ root e, d'.handles.get root = some e → d.handles.get root = some e)
    (hcalls : ∀ call ∈ d'.calls, call ∈ d.calls) : Placed layouts d' :=
  h.change (kept_of_files hfiles) hdb (fun root e he => Or.inl (hhandles root e he))
    fun call hcall => Or.inl (hcalls call hcall)

/-- A call moves on. -/
theorem Placed.advance {d : Disk} {i : Nat} {c : ReceiveChunk} {stage : Stage} (h : Placed layouts d)
    (hchunk : OfLayout (layouts c.merkleRoot) c) (hlength : c.realLen = c.data.length)
    (hwritten : stage = .placed true → OnDisk layouts d c.merkleRoot c.chunkIndex) :
    Placed layouts (d.advance i c stage) := by
  refine h.change (kept_of_files rfl) rfl (fun root e he => Or.inl he) fun call hcall => ?_
  rcases List.mem_or_eq_of_mem_set hcall with hold | rfl
  · exact Or.inl hold
  · exact Or.inr ⟨hchunk, hlength, hwritten⟩

theorem get_of_get_delete {handles : OrdMap String ReceiveFileEntry} {root root' : String}
    {e : ReceiveFileEntry} (h : (handles.delete root).get root' = some e) : handles.get root' = some e := by
  by_cases hroot : root' = root
  · rw [hroot, OrdMap.get_delete_self] at h
    cases h
  · rwa [OrdMap.get_delete_ne _ hroot] at h

theorem placed_evict {d : Disk} (h : Placed layouts d) : Placed layouts d.evict := by
  unfold Disk.evict
  split
  · split
    · exact h
    · exact h.drop rfl rfl (fun _ _ => get_of_get_delete) fun _ => id
  · exact h

theorem placed_ensure {d : Disk} {i : Nat} {c : ReceiveChunk} (h : Placed layouts d)
    (hchunk : OfLayout (layouts c.merkleRoot) c) (hlength : c.realLen = c.data.length) :
    Placed layouts (d.ensure i c) := by
  unfold Disk.ensure
  split
  · exact h.advance hchunk hlength fun hstage => by cases hstage
  · exact (placed_evict h).advance hchunk hlength fun hstage => by cases hstage

/-- Opening a file leaves a file of the right size as it is. -/
theorem placed_openHandle {d : Disk} {i : Nat} {c : ReceiveChunk} (opening : Opening)
    (h : Placed layouts d) (hchunk : OfLayout (layouts c.merkleRoot) c) (hlength : c.realLen = c.data.length) :
    Placed layouts (d.openHandle i c opening) := by
  unfold Disk.openHandle
  dsimp only
  cases opening with
  | unavailable => exact h.advance hchunk hlength fun hstage => by cases hstage
  | failed =>
    refine Placed.advance ?_ hchunk hlength fun hstage => by cases hstage
    refine h.change (kept_setFile fun before hbefore hsize => ?_) rfl (fun _ _ he => Or.inl he) fun _ hcall => Or.inl hcall
    rw [hbefore]
    exact ⟨hsize, fun _ => id⟩
  | opened =>
    refine Placed.advance ?_ hchunk hlength fun hstage => by cases hstage
    refine h.change (kept_setFile fun before hbefore hsize => ?_) rfl (fun root e he => ?_) fun _ hcall => Or.inl hcall
    · rw [hbefore, Option.getD_some, hchunk.totalSize, if_pos hsize]
      exact ⟨hsize, fun _ => id⟩
    · by_cases hroot : root = c.merkleRoot
      · rw [hroot] at he ⊢
        rw [OrdMap.get_set_self] at he
        cases he
        refine Or.inr ⟨right_fresh _, _, if_pos rfl, ?_⟩
        rw [hchunk.totalSize]
        split
        case isTrue hsize => exact hsize
        case isFalse => exact length_resize _ _
      · rw [OrdMap.get_set_ne _ _ hroot] at he
        exact Or.inl he

/-- A chunk is written into its own slot, unless the entry is misled. -/
theorem placed_place {d : Disk} {i : Nat} {c : ReceiveChunk} (writing : Writing)
    (h : Placed layouts d) (hchunk : OfLayout (layouts c.merkleRoot) c) (hlength : c.realLen = c.data.length)
    (hsafe : ∀ e, d.handles.get c.merkleRoot = some e → ¬ e.Misled (layouts c.merkleRoot) c) :
    Placed layouts (d.place i c writing) := by
  unfold Disk.place
  split
  · exact h.advance hchunk hlength fun hstage => by cases hstage
  · next entry hentry =>
    obtain ⟨hright, file, hfile, hsize⟩ := h.entries _ _ hentry
    have hlearned := learn_right hright hchunk hlength (hsafe entry hentry)
    have hmid : Placed layouts { d with
        handles := d.handles.set c.merkleRoot (entry.learn c.chunkIndex c.realLen c.totalSize) } := by
      refine h.change (kept_of_files rfl) rfl (fun root e he => ?_) fun _ hcall => Or.inl hcall
      by_cases hroot : root = c.merkleRoot
      · rw [hroot] at he ⊢
        rw [OrdMap.get_set_self] at he
        cases he
        exact Or.inr ⟨hlearned, file, hfile, hsize⟩
      · rw [OrdMap.get_set_ne _ _ hroot] at he
        exact Or.inl he
    dsimp only
    split
    case isFalse => exact hmid.advance hchunk hlength fun hstage => by cases hstage
    case isTrue hknown =>
      rw [hfile, Option.getD_some, hlearned.offsets hknown c.chunkIndex hchunk.index, hchunk.data]
      refine Placed.advance ?_ hchunk hlength fun hstage => ?_
      · refine hmid.change (kept_setFile fun before hbefore hbeforeSize => ?_) rfl (fun _ _ he => Or.inl he)
          fun _ hcall => Or.inl hcall
        cases hfile.symm.trans hbefore
        exact ⟨length_write writing hchunk.index hsize, fun j => inSlot_write writing hchunk.index⟩
      · cases writing with
        | stopped n => cases hstage
        | done => exact ⟨_, if_pos rfl, inSlot_written hchunk.index hsize⟩

/-- The records after the committing transaction. -/
theorem mem_receiveCommit {c : ReceiveChunk} {w : Bool} {db : Database} {r : Chunk}
    (hr : r ∈ (transact (receiveCommit c w) db).2.chunks.rows) : r ∈ db.chunks.rows ∨ r = c.record w := by
  cases habsent : db.chunks.get c.key with
  | some old =>
    have hrun := @receiveCommit_present c w db (by rw [habsent]; exact Option.some_ne_none old)
    cases hv : validateLayout c.totalSize (db.slotsOf c.merkleRoot) with
    | error e =>
      rw [hv] at hrun
      rw [transact_thrown hrun] at hr
      exact Or.inl hr
    | ok p =>
      rw [hv] at hrun
      rw [transact_ok hrun] at hr
      exact Or.inl hr
  | none =>
    cases hv : validateLayout c.totalSize (db.slotsOf c.merkleRoot ++ [c.slot]) with
    | error e =>
      rw [transact_thrown (receiveCommit_unfit habsent hv)] at hr
      exact Or.inl hr
    | ok p =>
      obtain ⟨chunks, hput, ⟨e, -, hrun⟩ | ⟨messages, rooms, -, -, hrun, -⟩⟩ :=
        @receiveCommit_fit c w db p habsent hv
      · rw [transact_thrown hrun] at hr
        exact ((Table.mem_put hput).mp hr).symm.imp And.left id
      · rw [transact_ok hrun] at hr
        exact ((Table.mem_put hput).mp hr).symm.imp And.left id

/-- A call commits a record without bytes only after it placed them. -/
theorem placed_commit {d : Disk} {i : Nat} {c : ReceiveChunk} {w : Bool} (committed : Bool)
    (h : Placed layouts d) (hcall : CallRight layouts d ⟨c, .placed w⟩) :
    Placed layouts (d.commit i c w committed) := by
  have hcalls : ∀ call ∈ d.calls.eraseIdx i, call ∈ d.calls := fun _ => List.mem_of_mem_eraseIdx
  cases committed with
  | false => exact h.drop rfl rfl (fun _ _ => id) hcalls
  | true =>
    refine ⟨fun r hr => ?_, fun r hr hnone => ?_, h.entries, fun call hmem => ?_⟩
    · rcases mem_receiveCommit hr with hold | rfl
      · exact h.records r hold
      · refine ⟨hcall.chunk.index, ?_, fun bytes hbytes => ?_⟩
        · show some c.realLen = _
          rw [hcall.length, hcall.chunk.data]
          rfl
        · unfold ReceiveChunk.record at hbytes
          dsimp only at hbytes
          split at hbytes
          · cases hbytes
          · cases hbytes
            exact hcall.chunk.data
    · rcases mem_receiveCommit hr with hold | rfl
      · exact h.bytes r hold hnone
      · unfold ReceiveChunk.record at hnone
        dsimp only at hnone
        split at hnone
        case isTrue hboth => exact hcall.written (by rw [hboth.2])
        case isFalse => cases hnone
    · obtain ⟨hchunk, hlength, hwritten⟩ := h.calls call (hcalls call hmem)
      exact ⟨hchunk, hlength, hwritten⟩

/-! ## Reading -/

/-- The records of a root are records of its message, one for each index. -/
theorem Placed.canonical {d : Disk} (h : Placed layouts d) (root : String) :
    Canonical (layouts root).bytes.length (layouts root).uniformSize (d.db.slotsOf root) := by
  constructor
  · intro s hs
    obtain ⟨r, hr, rfl⟩ := List.mem_map.mp hs
    obtain ⟨hmem, hroot⟩ := List.mem_filter.mp hr
    obtain rfl : r.merkleRoot = root := of_decide_eq_true hroot
    have hrecord := h.records r hmem
    refine ⟨hrecord.index, ?_⟩
    show r.realLen.getD 0 = _
    rw [hrecord.length, Option.getD_some, Layout.length_chunk]
    rfl
  · rw [Database.slotsOf, List.map_map]
    have hnodup : d.db.chunks.rows.Nodup := d.db.chunks.ascending.imp fun hlt heq => by
      rw [heq] at hlt
      exact lt_irrefl _ hlt
    refine List.Nodup.map_on (fun a ha b hb hindex => ?_) (hnodup.filter _)
    obtain ⟨hamem, haroot⟩ := List.mem_filter.mp ha
    obtain ⟨hbmem, hbroot⟩ := List.mem_filter.mp hb
    refine d.db.chunks.eq_of_key hamem hbmem (Chunk.key_eq_iff.mpr ⟨?_, hindex⟩)
    exact (of_decide_eq_true haroot).trans (of_decide_eq_true hbroot).symm

/-- A record of every chunk of a complete message. -/
theorem Placed.exists_record {d : Disk} {root : String} (h : Placed layouts d)
    (hcomplete : d.complete root (layouts root).bytes.length) {i : Nat} (hi : i < (layouts root).count) :
    ∃ r ∈ d.db.chunks.rows, r.merkleRoot = root ∧ r.chunkIndex = i := by
  have hall := ((h.canonical root).bytesOf_eq_iff (layouts root).positive).mp hcomplete i hi
  obtain ⟨s, hs, rfl⟩ := List.mem_map.mp hall
  obtain ⟨r, hr, rfl⟩ := List.mem_map.mp hs
  obtain ⟨hmem, hroot⟩ := List.mem_filter.mp hr
  exact ⟨r, hmem, of_decide_eq_true hroot, rfl⟩

/-- The longest record of a complete message tells the offsets. -/
theorem Placed.longest_eq {d : Disk} {root : String} (h : Placed layouts d)
    (hcomplete : d.complete root (layouts root).bytes.length) :
    longest (d.db.chunksOf root) = fullLength (layouts root).bytes.length (layouts root).uniformSize := by
  have hlongest : longest (d.db.chunksOf root) = (d.db.slotsOf root).foldl (fun m s => max m s.realLen) 0 := by
    rw [longest, Database.slotsOf, List.foldl_map]
    rfl
  have hslots := (h.canonical root).slots
  rw [hlongest]
  refine Nat.le_antisymm (foldl_max_le (Nat.zero_le _) fun s hs => ?_) ?_
  · rw [(hslots s hs).2, chunkLength, fullLength]
    omega
  · have hzero : 0 < (layouts root).count :=
      (layouts root).lt_count_iff.mpr (by rw [Nat.zero_mul]; exact (layouts root).nonempty)
    obtain ⟨r, hr, hroot, hindex⟩ := h.exists_record hcomplete hzero
    have hs : r.slot ∈ d.db.slotsOf root :=
      List.mem_map.mpr ⟨r, List.mem_filter.mpr ⟨hr, decide_eq_true hroot⟩, rfl⟩
    have hle := (@le_foldl_max (d.db.slotsOf root) 0).2 r.slot hs
    rw [(hslots _ hs).2, show r.slot.chunkIndex = 0 from hindex, chunkLength, Nat.zero_mul, Nat.sub_zero] at hle
    exact hle

/-- A record that carries bytes carries those of its chunk. -/
theorem Placed.bearing {d : Disk} {root : String} (h : Placed layouts d) :
    ∀ r ∈ dataBearing (d.db.chunksOf root), r ∈ d.db.chunks.rows ∧ r.merkleRoot = root ∧
      r.chunkIndex < (layouts root).count ∧ r.data = some ((layouts root).chunk r.chunkIndex) := by
  intro r hr
  obtain ⟨hchunk, hdata⟩ := List.mem_filter.mp hr
  obtain ⟨hmem, hroot⟩ := List.mem_filter.mp hchunk
  obtain rfl : r.merkleRoot = root := of_decide_eq_true hroot
  have hrecord := h.records r hmem
  refine ⟨hmem, rfl, hrecord.index, ?_⟩
  cases hbytes : r.data with
  | none =>
    rw [hbytes] at hdata
    cases hdata
  | some bytes => rw [hrecord.data bytes hbytes]

/-- Every chunk of a complete message is in the file or with its record. -/
theorem Placed.onDisk_or_bearing {d : Disk} {root : String} (h : Placed layouts d)
    (hcomplete : d.complete root (layouts root).bytes.length) {i : Nat} (hi : i < (layouts root).count) :
    OnDisk layouts d root i ∨ ∃ r ∈ dataBearing (d.db.chunksOf root), r.chunkIndex = i := by
  obtain ⟨r, hr, rfl, rfl⟩ := h.exists_record hcomplete hi
  cases hdata : r.data with
  | none => exact Or.inl (h.bytes r hr hdata)
  | some bytes =>
    refine Or.inr ⟨r, List.mem_filter.mpr ⟨List.mem_filter.mpr ⟨hr, decide_eq_true rfl⟩, ?_⟩, rfl⟩
    have hpos : 0 < bytes.length := by
      have hlt := (layouts r.merkleRoot).lt_count_iff.mp hi
      have hu := (layouts r.merkleRoot).positive
      rw [(h.records r hr).data bytes hdata, Layout.length_chunk]
      omega
    rw [hdata, Option.any_some]
    exact decide_eq_true (List.ne_nil_of_length_pos hpos)

/-- Migrating keeps what is in the file, and adds what it wrote. -/
theorem migrate_spec {l : Layout} {uniformSize : Nat}
    (hoffset : ∀ i < l.count, placeOffset i uniformSize = i * l.uniformSize) {bearing : List Chunk}
    (hbearing : ∀ r ∈ bearing, r.chunkIndex < l.count ∧ r.data = some (l.chunk r.chunkIndex))
    (writings : List Writing) {file : Bytes} (hsize : file.length = l.bytes.length) :
    (migrate uniformSize bearing writings file).1.length = l.bytes.length ∧
      (∀ i, InSlot l file i → InSlot l (migrate uniformSize bearing writings file).1 i) ∧
      ((migrate uniformSize bearing writings file).2 = true →
        ∀ r ∈ bearing, InSlot l (migrate uniformSize bearing writings file).1 r.chunkIndex) := by
  induction bearing generalizing writings file with
  | nil => exact ⟨hsize, fun _ => id, fun _ r hr => absurd hr List.not_mem_nil⟩
  | cons r rest ih =>
    obtain ⟨hindex, hdata⟩ := hbearing r List.mem_cons_self
    have hlength := length_write (writings.headD .done) hindex hsize
    unfold migrate
    dsimp only
    rw [hdata, Option.getD_some, hoffset _ hindex]
    split
    case isFalse hstopped =>
      refine ⟨hlength, fun i => inSlot_write _ hindex, fun hfalse => ?_⟩
      cases hfalse
    case isTrue hdone =>
      obtain ⟨hsize', hkeep, hwrote⟩ :=
        ih (fun x hx => hbearing x (List.mem_cons_of_mem r hx)) writings.tail hlength
      refine ⟨hsize', fun i hi => hkeep i (inSlot_write _ hindex hi), fun hall x hx => ?_⟩
      rcases List.mem_cons.mp hx with rfl | hx
      · refine hkeep _ ?_
        cases hwriting : writings.headD .done with
        | done => exact inSlot_written hindex hsize
        | stopped n =>
          rw [hwriting] at hdone
          cases hdone
      · exact hwrote hall x hx

/-- The records once their bytes are stripped. -/
theorem mem_stripped {records : List Chunk} {db : Database} {r : Chunk}
    (hr : r ∈ (stripped db records).chunks.rows) :
    r ∈ db.chunks.rows ∨ ∃ x ∈ records, r = { x with data := none } := by
  unfold stripped at hr
  dsimp only at hr
  generalize db.chunks = chunks at hr ⊢
  induction records generalizing chunks with
  | nil => exact Or.inl hr
  | cons x rest ih =>
    rw [List.foldl_cons] at hr
    rcases ih _ hr with hmem | ⟨y, hy, rfl⟩
    · cases hput : chunks.put { x with data := none } with
      | none =>
        rw [hput, Option.getD_none] at hmem
        exact Or.inl hmem
      | some chunks' =>
        rw [hput, Option.getD_some] at hmem
        rcases (Table.mem_put hput).mp hmem with rfl | ⟨hold, -⟩
        · exact Or.inr ⟨x, List.mem_cons_self, rfl⟩
        · exact Or.inl hold
    · exact Or.inr ⟨y, List.mem_cons_of_mem x hy, rfl⟩

/-- Stripping records whose bytes are in the file. -/
theorem placed_stripped {d : Disk} {records : List Chunk} (h : Placed layouts d)
    (hrecords : ∀ r ∈ records, r ∈ d.db.chunks.rows)
    (hdisk : ∀ r ∈ records, OnDisk layouts d r.merkleRoot r.chunkIndex) :
    Placed layouts { d with db := stripped d.db records } := by
  refine ⟨fun r hr => ?_, fun r hr hnone => ?_, h.entries, fun call hcall => ?_⟩
  · rcases mem_stripped hr with hold | ⟨x, hx, rfl⟩
    · exact h.records r hold
    · have hrecord := h.records x (hrecords x hx)
      exact ⟨hrecord.index, hrecord.length, fun bytes hbytes => by cases hbytes⟩
  · rcases mem_stripped hr with hold | ⟨x, hx, rfl⟩
    · exact h.bytes r hold hnone
    · exact hdisk x hx
  · obtain ⟨hchunk, hlength, hwritten⟩ := h.calls call hcall
    exact ⟨hchunk, hlength, hwritten⟩

/-- What is on disk is in the file that is there. -/
theorem inSlot_getD {d : Disk} {root : String} {i : Nat} (h : OnDisk layouts d root i) :
    InSlot (layouts root) ((d.files root).getD []) i := by
  obtain ⟨file, hfile, hin⟩ := h
  rwa [hfile]

/-- Migrating the records of a complete message makes its file whole. -/
theorem placed_migrateFile {d : Disk} {root : String} (f : Finalizing) (h : Placed layouts d)
    (hcomplete : d.complete root (layouts root).bytes.length) :
    Placed layouts (migrateFile d root (layouts root).bytes.length f).1 ∧
      ∀ file, (migrateFile d root (layouts root).bytes.length f).2 = some file →
        file = (layouts root).bytes := by
  have hpos := (layouts root).nonempty
  have hbearing := @Placed.bearing layouts d root h
  unfold migrateFile
  dsimp only
  generalize hsized : (if 0 < (layouts root).bytes.length ∧
      ((d.files root).getD []).length ≠ (layouts root).bytes.length
    then resize (layouts root).bytes.length ((d.files root).getD []) else (d.files root).getD []) = sized
  have hsize : sized.length = (layouts root).bytes.length := by
    rw [← hsized]
    split
    case isTrue => exact length_resize _ _
    case isFalse hsame => exact Decidable.not_not.mp fun hne => hsame ⟨hpos, hne⟩
  have hkeeps : ∀ i, OnDisk layouts d root i → InSlot (layouts root) sized i := by
    intro i hdisk
    have hin := inSlot_getD hdisk
    rwa [← hsized, if_neg fun hne => hne.2 hin.size]
  have hoffset : ∀ i < (layouts root).count,
      placeOffset i (longest (d.db.chunksOf root)) = i * (layouts root).uniformSize := by
    intro i hi
    rw [h.longest_eq hcomplete, placeOffset_fullLength _ hi]
  obtain ⟨hlength, hkept, hwrote⟩ := migrate_spec hoffset
    (fun r hr => ⟨(hbearing r hr).2.2.1, (hbearing r hr).2.2.2⟩) f.writings hsize
  generalize migrate (longest (d.db.chunksOf root)) (dataBearing (d.db.chunksOf root)) f.writings sized
    = migrated at hlength hkept hwrote ⊢
  have hfile : (d.setFile root migrated.1).files root = some migrated.1 := if_pos rfl
  have hplaced : Placed layouts (d.setFile root migrated.1) := by
    refine h.change (kept_setFile fun before hbefore hbeforeSize => ⟨hlength, fun i hin => ?_⟩) rfl
      (fun _ _ he => Or.inl he) fun _ hcall => Or.inl hcall
    exact hkept i (hkeeps i ⟨before, hbefore, hin⟩)
  split
  case isTrue => exact ⟨hplaced, fun _ hnone => by cases hnone⟩
  case isFalse hall =>
    have hwritten := hwrote (Bool.not_eq_false _ ▸ hall)
    have hstripped : Placed layouts (if f.strips = true then
        { d.setFile root migrated.1 with db := stripped d.db (dataBearing (d.db.chunksOf root)) }
        else d.setFile root migrated.1) := by
      split
      · refine placed_stripped hplaced (fun r hr => (hbearing r hr).1) fun r hr => ?_
        rw [(hbearing r hr).2.1]
        exact ⟨_, hfile, hwritten r hr⟩
      · exact hplaced
    rw [if_neg fun hne => hne.2 hlength]
    refine ⟨hstripped, fun file hsome => ?_⟩
    cases hsome
    refine eq_bytes_of_inSlot fun i hi => ?_
    rcases h.onDisk_or_bearing hcomplete hi with hdisk | ⟨r, hr, rfl⟩
    · exact hkept i (hkeeps i hdisk)
    · exact hwritten r hr

/-- Reading a complete message keeps the invariant, and returns nothing but the message. -/
theorem placed_getReceiveFile {d : Disk} {root : String} (f : Finalizing) (h : Placed layouts d)
    (hcomplete : d.complete root (layouts root).bytes.length) :
    Placed layouts (getReceiveFile d root (layouts root).bytes.length f).1 ∧
      ∀ file, (getReceiveFile d root (layouts root).bytes.length f).2 = some file →
        file = (layouts root).bytes := by
  have hclosed : Placed layouts { d with handles := d.handles.delete root } :=
    h.drop rfl rfl (fun _ _ => get_of_get_delete) fun _ => id
  have hopened : Placed layouts
      ({ d with handles := d.handles.delete root }.setFile root ((d.files root).getD [])) := by
    refine hclosed.change (kept_setFile fun before hbefore hsize => ?_) rfl (fun _ _ he => Or.inl he)
      fun _ hcall => Or.inl hcall
    rw [show d.files root = some before from hbefore]
    exact ⟨hsize, fun _ => id⟩
  unfold getReceiveFile
  split
  · exact ⟨h, fun _ hnone => by cases hnone⟩
  dsimp only
  split
  · exact ⟨hclosed, fun _ hnone => by cases hnone⟩
  split
  case isTrue hfast =>
    refine ⟨hopened, fun file hsome => ?_⟩
    cases hsome
    refine eq_bytes_of_inSlot fun i hi => ?_
    rcases h.onDisk_or_bearing hcomplete hi with hdisk | ⟨r, hr, -⟩
    · exact inSlot_getD hdisk
    · have hnone : dataBearing (d.db.chunksOf root) = [] := hfast.2.2
      rw [hnone] at hr
      exact absurd hr List.not_mem_nil
  case isFalse =>
    split
    · exact ⟨hopened, fun _ hnone => by cases hnone⟩
    split
    · exact ⟨hopened, fun _ hnone => by cases hnone⟩
    · exact placed_migrateFile f hopened hcomplete

/-! ## Runs -/

variable (layouts) in
/-- Only chunks of the messages arrive, and a message is read with its size. -/
def Action.Fits : Action → Prop
  | .beginReceive chunk => OfLayout (layouts chunk.merkleRoot) chunk
  | .read root totalSize _ => totalSize = (layouts root).bytes.length
  | _ => True

variable (layouts) in
/-- The last chunk of a message is not placed twice by a handle that placed nothing else. -/
def Action.Careful (d : Disk) : Action → Prop
  | .place i _ =>
    match d.calls[i]? with
    | some ⟨chunk, .ensured⟩ =>
      ∀ e ∈ d.handles.get chunk.merkleRoot, ¬ e.Misled (layouts chunk.merkleRoot) chunk
    | _ => True
  | _ => True

variable (layouts) in
/-- Every step of a run is careful. -/
def Careful (d : Disk) : List Action → Prop
  | [] => True
  | a :: rest => a.Careful layouts d ∧ Careful (d.step a) rest

instance (a : Action) : Decidable (a.Fits layouts) := by
  unfold Action.Fits
  split <;> infer_instance

instance (d : Disk) (a : Action) : Decidable (a.Careful layouts d) := by
  unfold Action.Careful
  split
  · split <;> infer_instance
  · infer_instance

instance decidableCareful (d : Disk) (actions : List Action) : Decidable (Careful layouts d actions) := by
  induction actions generalizing d with
  | nil => exact isTrue trivial
  | cons a rest ih => exact @instDecidableAnd _ _ _ (ih _)

theorem placed_step {d : Disk} (h : Placed layouts d) (a : Action) (hfits : a.Fits layouts)
    (hcareful : a.Careful layouts d) : Placed layouts (d.step a) := by
  unfold Disk.step
  cases a with
  | beginReceive chunk =>
    refine h.change (kept_of_files rfl) rfl (fun _ _ he => Or.inl he) fun call hcall => ?_
    rcases mem_beginCall hcall with hold | ⟨rfl, hexists⟩
    · exact Or.inl hold
    · obtain ⟨_, hbounds, -⟩ := except_bind_eq_ok.mp hexists
      have hlength := (demand_eq_ok.mp hbounds).2.2.2.2.2.2.2.2.2.2.1
      exact Or.inr ⟨hfits, hlength.symm, fun hstage => by cases hstage⟩
  | preflight i =>
    refine h.change (kept_of_files rfl) rfl (fun _ _ he => Or.inl he) fun call hcall => ?_
    rcases mem_preflightCall hcall with hold | ⟨before, hbefore, rfl⟩
    · exact Or.inl hold
    · obtain ⟨hchunk, hlength, -⟩ := h.calls before hbefore
      refine Or.inr ⟨hchunk, hlength, fun hstage => ?_⟩
      unfold Stage.afterPreflight at hstage
      split at hstage <;> cases hstage
  | ensure i =>
    dsimp only
    split
    · next chunk hcall =>
      obtain ⟨hchunk, hlength, -⟩ := h.calls _ (List.mem_of_getElem? hcall)
      exact placed_ensure h hchunk hlength
    · exact h
  | openHandle i opening =>
    dsimp only
    split
    · next chunk hcall =>
      obtain ⟨hchunk, hlength, -⟩ := h.calls _ (List.mem_of_getElem? hcall)
      exact placed_openHandle opening h hchunk hlength
    · exact h
  | place i writing =>
    dsimp only
    split
    · next chunk hcall =>
      obtain ⟨hchunk, hlength, -⟩ := h.calls _ (List.mem_of_getElem? hcall)
      refine placed_place writing h hchunk hlength fun e he => ?_
      unfold Action.Careful at hcareful
      dsimp only at hcareful
      rw [hcall] at hcareful
      exact hcareful e he
    · exact h
  | commit i committed =>
    dsimp only
    split
    · next chunk w hcall => exact placed_commit committed h (h.calls _ (List.mem_of_getElem? hcall))
    · exact h
  | close root =>
    dsimp only
    split
    · exact h
    · exact h.drop rfl rfl (fun _ _ => get_of_get_delete) fun _ => id
  | read root totalSize f =>
    obtain rfl : totalSize = (layouts root).bytes.length := hfits
    dsimp only
    split
    · exact h
    · next hread =>
      refine (placed_getReceiveFile f h ?_).1
      exact Decidable.not_not.mp fun hne => hread (Or.inr hne)
  | restart =>
    refine h.drop rfl rfl (fun root e he => ?_) fun _ hcall => absurd hcall List.not_mem_nil
    cases (OrdMap.get_empty root).symm.trans he

theorem placed_run {d : Disk} (h : Placed layouts d) {actions : List Action}
    (hfits : ∀ a ∈ actions, a.Fits layouts) (hcareful : Careful layouts d actions) (n : Nat) :
    Placed layouts (d.run (actions.take n)) := by
  induction actions generalizing d n with
  | nil => simpa [Disk.run] using h
  | cons a rest ih =>
    cases n with
    | zero => exact h
    | succ n =>
      exact ih (placed_step h a (hfits a List.mem_cons_self) hcareful.1)
        (fun x hx => hfits x (List.mem_cons_of_mem a hx)) hcareful.2 n

theorem placed_start (messages : Table MessageData.key MessageData.merkleRoot)
    (rooms : Table UniqueRoom.roomId UniqueRoom.roomUrl) : Placed layouts (.start messages rooms) := by
  refine ⟨fun r hr => ?_, fun r hr => ?_, fun root e he => ?_, fun call hcall => ?_⟩
  · exact absurd hr List.not_mem_nil
  · exact absurd hr List.not_mem_nil
  · cases (OrdMap.get_empty root).symm.trans he
  · exact absurd hcall List.not_mem_nil

end Invariant

/-- Every record without bytes has them in the file, at the index times the length of a full
chunk. -/
def BytesInPlace (layouts : String → Layout) (d : Disk) : Prop :=
  ∀ r ∈ d.db.chunks.rows, r.data = none →
    slice ((d.files r.merkleRoot).getD []) (r.chunkIndex * (layouts r.merkleRoot).uniformSize)
      ((layouts r.merkleRoot).chunk r.chunkIndex).length = (layouts r.merkleRoot).chunk r.chunkIndex

instance (layouts : String → Layout) (d : Disk) : Decidable (BytesInPlace layouts d) := by
  unfold BytesInPlace
  infer_instance

/-- Along every run in which no handle is misled, the bytes of every record without bytes are
in their place, and a complete message is read as it was sent, or not at all. -/
theorem placement_run (layouts : String → Layout) (messages : Table MessageData.key MessageData.merkleRoot)
    (rooms : Table UniqueRoom.roomId UniqueRoom.roomUrl) (actions : List Action)
    (hfits : ∀ a ∈ actions, a.Fits layouts) (hcareful : Careful layouts (.start messages rooms) actions) (n : Nat) :
    BytesInPlace layouts ((Disk.start messages rooms).run (actions.take n)) ∧
      ∀ root f, ((Disk.start messages rooms).run (actions.take n)).complete root (layouts root).bytes.length →
        (getReceiveFile ((Disk.start messages rooms).run (actions.take n)) root (layouts root).bytes.length f).2 = none ∨
        (getReceiveFile ((Disk.start messages rooms).run (actions.take n)) root (layouts root).bytes.length f).2
          = some (layouts root).bytes := by
  have hplaced := placed_run (placed_start messages rooms) hfits hcareful n
  constructor
  · intro r hr hnone
    exact (inSlot_getD (hplaced.bytes r hr hnone)).bytes
  · intro root f hcomplete
    have hread := (placed_getReceiveFile f hplaced hcomplete).2
    cases hfile : (getReceiveFile ((Disk.start messages rooms).run (actions.take n)) root
        (layouts root).bytes.length f).2 with
    | none => exact Or.inl rfl
    | some file =>
      rw [hread file hfile]
      exact Or.inr rfl

/-- Five bytes in chunks of two. -/
def fiveBytes : Layout := ⟨[1, 2, 3, 4, 5], 2, by decide, by decide, by decide, by decide⟩

/-- The root of the five bytes. -/
def fiveRoot : String := String.ofList (List.replicate 128 'a')

/-- A chunk of the five bytes. -/
def fiveChunk (i : Nat) : ReceiveChunk where
  schemaVersion := 1
  roomId := "r"
  fromPeerId := "p"
  channelLabel := "main"
  timestamp := 5
  merkleRoot := fiveRoot
  hash := "h"
  filename := "f.bin"
  messageType := 2
  chunkIndex := i
  mimeType := "application/octet-stream"
  leafHash := "l"
  realLen := (fiveBytes.chunk i).length
  totalSize := 5
  data := fiveBytes.chunk i
  storage := .opfs

/-- A whole call that nothing interrupts. -/
def receiveFive (i : Nat) (committed : Bool) : List Action :=
  [.beginReceive (fiveChunk i), .preflight 0, .ensure 0, .openHandle 0 .opened, .place 0 .done, .commit 0 committed]

/-- The last chunk fails to commit; the worker is started again, and gets the last chunk and
the rest. -/
def fiveRestarted : List Action :=
  receiveFive 2 false ++ [.restart] ++ receiveFive 2 true ++ receiveFive 0 true ++ receiveFive 1 true

/-- The last chunk fails to commit and is sent again. -/
def fiveRetried : List Action :=
  receiveFive 2 false ++ receiveFive 2 true ++ receiveFive 0 true ++ receiveFive 1 true

/-- Nothing stops the storage. -/
def readable : Finalizing := ⟨true, true, [], true⟩

/-- The last chunk stays with its record, and the message is read as it was sent. -/
theorem placement_restarted :
    ((∀ a ∈ fiveRestarted, a.Fits fun _ => fiveBytes) ∧
        Careful (fun _ => fiveBytes) (.start .empty .empty) fiveRestarted ∧
        ((Disk.start .empty .empty).run fiveRestarted).complete fiveRoot 5) ∧
      (BytesInPlace (fun _ => fiveBytes) ((Disk.start .empty .empty).run (fiveRestarted.take 25)) ∧
        (getReceiveFile ((Disk.start .empty .empty).run (fiveRestarted.take 25)) fiveRoot 5 readable).2
          = some [1, 2, 3, 4, 5]) := by
  have hfits : ∀ a ∈ fiveRestarted, a.Fits fun _ => fiveBytes := by decide +kernel
  -- one evaluation of the run, for the three facts about it
  obtain ⟨hcareful, hcomplete, hreturns⟩ :
      Careful (fun _ => fiveBytes) (.start .empty .empty) fiveRestarted ∧
        ((Disk.start .empty .empty).run fiveRestarted).complete fiveRoot 5 ∧
        (getReceiveFile ((Disk.start .empty .empty).run (fiveRestarted.take 25)) fiveRoot 5 readable).2 ≠ none := by
    decide +kernel
  obtain ⟨hplace, hread⟩ := placement_run (fun _ => fiveBytes) .empty .empty fiveRestarted hfits hcareful 25
  refine ⟨⟨hfits, hcareful, hcomplete⟩, hplace, ?_⟩
  rcases hread fiveRoot readable hcomplete with hnone | hsome
  · exact absurd hnone hreturns
  · exact hsome

/-- The handle infers that a full chunk has one byte: the last chunk is written at offset 2
instead of 4, its record has no bytes, and the message that is read is another one. -/
theorem placement_retried :
    (∀ a ∈ fiveRetried, a.Fits fun _ => fiveBytes) ∧
      ¬ BytesInPlace (fun _ => fiveBytes) ((Disk.start .empty .empty).run (fiveRetried.take 12)) ∧
      ((Disk.start .empty .empty).run fiveRetried).complete fiveRoot 5 ∧
      (getReceiveFile ((Disk.start .empty .empty).run fiveRetried) fiveRoot 5 readable).2
        = some [1, 3, 4, 0, 0] := by
  decide +kernel

end Opfs

end P2Party
