import P2Party.Base.Bytes
import P2Party.Base.KeyRange

/-!
# The send queue (`db/db.worker.ts`, `db/src/getDB.ts`)

The store `sendQueue` holds ciphertext that waits for a channel. Its keys have three parts, the
position first; the index `labelPeer` has the other two. The calls that read or count the items of
a label and a peer use the index. The call that deletes them uses the range of `[label, toPeerId]`
on the primary key, where a number comes first: the range holds no key of the store.

- `fnSetDBSendQueue`, `fnGetDBSendQueue`, `fnDeleteDBSendQueue`: the calls;
- `fnDeleteDBSendQueue_bulk`: without a position nothing is deleted;
- `send_queue_deletion`: in every run, deletion with a position removes the item and nothing
  else, and deletion without one does what it should exactly when there is nothing to delete.
-/

namespace P2Party

open Base

namespace SendQueues

variable {ν : Type}

/-- `SendQueue` (types.ts:156-161), over the numbers `ν`. -/
structure SendQueue (ν : Type) where
  position : ν
  label : String
  toPeerId : String
  encryptedData : Bytes
deriving DecidableEq

/-- The key path of `sendQueue` (getDB.ts:254-256). -/
def SendQueue.key (item : SendQueue ν) : StoreKey ν :=
  [keyNumber item.position, keyText item.label, keyText item.toPeerId]

/-- The key path of its index `labelPeer` (getDB.ts:257-259). -/
def SendQueue.labelPeer (item : SendQueue ν) : StoreKey ν := [keyText item.label, keyText item.toPeerId]

/-- An item is of a label and a peer. -/
def SendQueue.Of (label toPeerId : String) (item : SendQueue ν) : Prop :=
  item.label = label ∧ item.toPeerId = toPeerId

theorem key_eq_iff {label toPeerId : String} {position : ν} {item : SendQueue ν} :
    item.key = [keyNumber position, keyText label, keyText toPeerId] ↔
      item.position = position ∧ item.Of label toPeerId := by
  unfold SendQueue.key SendQueue.Of
  simp only [List.cons.injEq, keyNumber_inj, keyText_inj, and_true]

theorem labelPeer_eq_iff {label toPeerId : String} {item : SendQueue ν} :
    item.labelPeer = [keyText label, keyText toPeerId] ↔ item.Of label toPeerId := by
  unfold SendQueue.labelPeer SendQueue.Of
  simp only [List.cons.injEq, keyText_inj, and_true]

/-- The object store `sendQueue`. No index of it is unique. -/
abbrev Store (ν : Type) [LinearOrder ν] := Table (@SendQueue.key ν) (@SendQueue.key ν)

variable [LinearOrder ν]

/-- `fnSetDBSendQueue` (db.worker.ts:1763-1767). -/
def fnSetDBSendQueue (item : SendQueue ν) (store : Store ν) : Store ν := (store.put item).getD store

/-- `fnGetDBSendQueue` without a position (db.worker.ts:646-653). -/
def fnGetDBSendQueue (label toPeerId : String) (store : Store ν) : List (SendQueue ν) :=
  store.getRange SendQueue.labelPeer (.only [keyText label, keyText toPeerId])

/-- `fnDeleteDBSendQueue` (db.worker.ts:2255-2272). -/
def fnDeleteDBSendQueue (label toPeerId : String) (position : Option ν) (store : Store ν) : Store ν :=
  match position with
  | some position => store.delete [keyNumber position, keyText label, keyText toPeerId]
  | none => store.deleteRange (.only [keyText label, keyText toPeerId])

/-! ## What the calls do -/

variable {label toPeerId : String} {position : ν} {item : SendQueue ν} {store : Store ν}

/-- The index finds the items of the label and the peer. -/
theorem mem_fnGetDBSendQueue :
    item ∈ fnGetDBSendQueue label toPeerId store ↔ item ∈ store.rows ∧ item.Of label toPeerId := by
  rw [fnGetDBSendQueue, Table.mem_getRange, KeyRange.contains_only, labelPeer_eq_iff]

/-- A write puts the item in the place of its key. -/
theorem mem_fnSetDBSendQueue {old : SendQueue ν} :
    old ∈ (fnSetDBSendQueue item store).rows ↔ old = item ∨ (old ∈ store.rows ∧ old.key ≠ item.key) := by
  obtain ⟨store', hput⟩ := @Table.put_isSome _ _ _ _ _ _ _ store item fun _ _ h => h
  rw [fnSetDBSendQueue, hput, Option.getD_some]
  exact Table.mem_put hput

/-- No key of the store lies in the range of a label and a peer: it begins with a number. -/
theorem not_contains_key (item : SendQueue ν) :
    ¬ (KeyRange.only [keyText label, keyText toPeerId]).Contains item.key := by
  rw [KeyRange.contains_only]
  intro h
  exact keyNumber_ne_keyText _ _ (List.cons.inj h).1

/-- Without a position nothing is deleted. -/
theorem fnDeleteDBSendQueue_bulk (label toPeerId : String) (store : Store ν) :
    fnDeleteDBSendQueue label toPeerId none store = store :=
  Table.deleteRange_eq_self fun item _ => not_contains_key item

/-! ## Runs -/

/-- A call that changes the store. -/
inductive Call (ν : Type)
  | set (item : SendQueue ν)
  | delete (label toPeerId : String) (position : Option ν)

/-- What a call makes of the store. -/
def Call.apply (store : Store ν) : Call ν → Store ν
  | .set item => fnSetDBSendQueue item store
  | .delete label toPeerId position => fnDeleteDBSendQueue label toPeerId position store

/-- A sequence of calls. -/
def run (calls : List (Call ν)) : Store ν := calls.foldl Call.apply .empty

/-- Exactly the item of a position is gone. -/
def Removed (label toPeerId : String) (position : ν) (before after : Store ν) : Prop :=
  ∀ item, item ∈ after.rows ↔ item ∈ before.rows ∧ ¬ (item.position = position ∧ item.Of label toPeerId)

/-- The items of a label and a peer are gone, and all others are there as before. -/
def Cleared (label toPeerId : String) (before after : Store ν) : Prop :=
  ∀ item, item ∈ after.rows ↔ item ∈ before.rows ∧ ¬ item.Of label toPeerId

theorem removed_delete (label toPeerId : String) (position : ν) (store : Store ν) :
    Removed label toPeerId position store (fnDeleteDBSendQueue label toPeerId (some position) store) := by
  intro item
  rw [fnDeleteDBSendQueue, Table.mem_delete, ne_eq, key_eq_iff]

theorem cleared_bulk_iff (label toPeerId : String) (store : Store ν) :
    Cleared label toPeerId store (fnDeleteDBSendQueue label toPeerId none store) ↔
      fnGetDBSendQueue label toPeerId store = [] := by
  rw [fnDeleteDBSendQueue_bulk]
  constructor
  · intro h
    refine List.eq_nil_iff_forall_not_mem.mpr fun item hitem => ?_
    obtain ⟨hmem, hof⟩ := mem_fnGetDBSendQueue.mp hitem
    exact ((h item).mp hmem).2 hof
  · intro h item
    constructor
    · intro hmem
      refine ⟨hmem, fun hof => ?_⟩
      have hread := mem_fnGetDBSendQueue.mpr ⟨hmem, hof⟩
      rw [h] at hread
      cases hread
    · exact And.left

/-- **Deletion from the send queue.** After every run of calls, deletion with a position removes
the item of that position and no other, and deletion without a position clears the items of the
label and the peer exactly when there are none. -/
theorem send_queue_deletion (calls : List (Call ν)) (label toPeerId : String) :
    (∀ position, Removed label toPeerId position (run calls)
        (fnDeleteDBSendQueue label toPeerId (some position) (run calls))) ∧
      (Cleared label toPeerId (run calls) (fnDeleteDBSendQueue label toPeerId none (run calls)) ↔
        fnGetDBSendQueue label toPeerId (run calls) = []) :=
  ⟨fun position => removed_delete label toPeerId position _, cleared_bulk_iff label toPeerId _⟩

/-- An item of the label `main` for a peer. -/
def queuedItem : SendQueue Int := ⟨0, "main", "peer", [1]⟩

/-- A queued item is still there after its label and peer were deleted. -/
theorem send_queue_left : ¬ Cleared "main" "peer" (run [.set queuedItem])
    (fnDeleteDBSendQueue "main" "peer" none (run [.set queuedItem])) := by
  intro h
  have hmem : queuedItem ∈ (fnSetDBSendQueue queuedItem .empty).rows := mem_fnSetDBSendQueue.mpr (.inl rfl)
  rw [fnDeleteDBSendQueue_bulk] at h
  exact ((h queuedItem).mp hmem).2 ⟨rfl, rfl⟩

end SendQueues

end P2Party
