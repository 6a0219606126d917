import P2Party.Base.OrdMap
import P2Party.Base.Runs
import Mathlib.Data.String.Basic

/-!
# The transfer registry (`handlers/transferAbort.ts`)

Every outgoing message is registered under its room from `beginTransfer` to `finish`. The hash of
its content and its Merkle root become known while it is prepared and are bound through a handle;
`claimTransfer` gives the pipeline a second handle of the same transfer. `abortTransfer` selects
among the transfers of a room by the first identifier that its selector has.

- `Registry`, `beginTransfer`, `claimTransfer`, `bindHash`, `bindMerkleRoot`, `finish`,
  `abortTransfer`: the code;
- `Callers`, `step`: the registry and the handles that have been given out;
- `Ok`: the identifiers of the transfers of a room are distinct, and a transfer is in the room
  that its handles name;
- `step_ok`, `step_older`: what a step keeps;
- `transfer_abort_registry`: the selection law, the end of a transfer, and its independence.
-/

namespace P2Party

open Base

namespace TransferAbort

/-! ## Data -/

/-- `ActiveTransfer` (transferAbort.ts:9-15), with the state of its `AbortController`. -/
structure ActiveTransfer where
  transferId : String
  aborted : Bool
  reason : Option String
  finished : Bool
  hashHex : Option String
  merkleRootHex : Option String
deriving DecidableEq, Repr

/-- `activeByRoom` (:17). A `Set` of objects is the list of their numbers in `transfers`, where
all objects are that were ever made. -/
structure Registry where
  transfers : List ActiveTransfer
  activeByRoom : OrdMap String (List Nat)

namespace Registry

/-- An empty registry. -/
def empty : Registry := ⟨[], OrdMap.empty⟩

/-- The transfers of a room, `activeByRoom.get(roomId) ?? []`. -/
def active (r : Registry) (roomId : String) : List Nat := (r.activeByRoom.get roomId).getD []

/-- An assignment to an object. -/
def update (r : Registry) (t : Nat) (f : ActiveTransfer → ActiveTransfer) : Registry :=
  { r with transfers := r.transfers.modify t f }

/-- `removeActive` (:19-24). -/
def removeActive (r : Registry) (roomId : String) (t : Nat) : Registry :=
  match r.activeByRoom.get roomId with
  | none => r
  | some roomTransfers =>
    if (roomTransfers.erase t).length = 0 then
      { r with activeByRoom := r.activeByRoom.delete roomId }
    else { r with activeByRoom := r.activeByRoom.set roomId (roomTransfers.erase t) }

end Registry

/-- `abortActive` (:26-29): the reason of the first call stays. -/
def abortActive (reason : String) (transfer : ActiveTransfer) : ActiveTransfer :=
  if transfer.aborted then transfer else { transfer with aborted := true, reason := some reason }

/-- `isTransferId` (:44-45): 64 lowercase hexadecimal digits. -/
def isTransferId (value : String) : Bool :=
  value.toList.length == 64 && value.toList.all fun c => c.isDigit || ('a' ≤ c && c ≤ 'f')

/-- A `TransferAbortHandle` (:1-7): its closures keep the room and the object. -/
structure TransferAbortHandle where
  roomId : String
  transfer : Nat
deriving DecidableEq, Repr

/-- `TransferSelector` (:120-124). -/
structure TransferSelector where
  transferId : Option String
  hashHex : Option String
  merkleRootHex : Option String

/-- An optional text that is there and not empty. -/
def truthy (value : Option String) : Bool := value.any fun v => v ≠ ""

/-! ## Code -/

/-- The test of the filter in `abortTransfer` (:164-170). -/
def selects (selector : TransferSelector) (transfer : ActiveTransfer) : Bool :=
  match selector.transferId, selector.merkleRootHex with
  | some transferId, _ => transfer.transferId = transferId
  | none, some merkleRootHex => transfer.merkleRootHex = some merkleRootHex
  | none, none => transfer.hashHex = selector.hashHex

namespace Registry

/-- A new object in the set of its room. -/
def register (r : Registry) (roomId transferId : String) : Registry where
  transfers := r.transfers ++ [⟨transferId, false, none, false, none, none⟩]
  activeByRoom := r.activeByRoom.set roomId (r.active roomId ++ [r.transfers.length])

/-- The object of the room that has the identifier. -/
def named (r : Registry) (roomId transferId : String) : Option Nat :=
  (r.active roomId).find? fun t => (r.transfers[t]?).any fun x => x.transferId = transferId

/-- `beginTransfer` (:47-87). -/
def beginTransfer (r : Registry) (roomId transferId : String) :
    Except String (Registry × TransferAbortHandle) :=
  if roomId = "" then .error "Transfer roomId must not be empty"
  else if isTransferId transferId = false then .error "Transfer ID must be 32-byte lowercase hex"
  else if (r.named roomId transferId).isSome then
    .error "Transfer ID is already active in this room"
  else .ok (r.register roomId transferId, ⟨roomId, r.transfers.length⟩)

/-- `claimTransfer` (:94-118). -/
def claimTransfer (r : Registry) (roomId transferId : String) :
    Except String (Registry × TransferAbortHandle) :=
  match r.named roomId transferId with
  | none => r.beginTransfer roomId transferId
  | some t => .ok (r, ⟨roomId, t⟩)

/-- `bindHash` (:75-77, :106-108). -/
def bindHash (r : Registry) (handle : TransferAbortHandle) (hashHex : String) : Registry :=
  r.update handle.transfer fun x => { x with hashHex := some hashHex }

/-- `bindMerkleRoot` (:78-80, :109-111). -/
def bindMerkleRoot (r : Registry) (handle : TransferAbortHandle) (merkleRootHex : String) :
    Registry :=
  r.update handle.transfer fun x => { x with merkleRootHex := some merkleRootHex }

/-- `finish` (:81-85, :112-116). -/
def finish (r : Registry) (handle : TransferAbortHandle) : Registry :=
  if (r.transfers[handle.transfer]?).any ActiveTransfer.finished then r
  else (r.update handle.transfer fun x => { x with finished := true }).removeActive
    handle.roomId handle.transfer

/-- The loop over the transfers to abort (:176-179, :187-190). -/
def abortEach (reason : String) (ts : List Nat) (r : Registry) : Registry :=
  ts.foldl (fun r t => r.update t (abortActive reason)) r

/-- The transfers of the room that pass the filter of `abortTransfer` (:164). -/
def matching (r : Registry) (roomId : String) (selector : TransferSelector) : List Nat :=
  (r.active roomId).filter fun t => (r.transfers[t]?).any (selects selector)

/-- `abortTransfer` (:152-181). -/
def abortTransfer (r : Registry) (roomId : String) (selector : TransferSelector) :
    Except String (Registry × Nat) :=
  if (!truthy selector.transferId && !truthy selector.hashHex &&
      !truthy selector.merkleRootHex) = true then
    .error "Transfer cancellation requires a transfer ID, hash, or Merkle root"
  else if (truthy selector.transferId &&
      !selector.transferId.any isTransferId) = true then
    .error "Transfer ID must be 32-byte lowercase hex"
  else if r.activeByRoom.get roomId = none then .ok (r, 0)
  else if selector.transferId = none ∧ 1 < (r.matching roomId selector).length then
    .error "Transfer selector is ambiguous; cancel with the random transfer ID"
  else .ok (abortEach "Message transfer cancelled" (r.matching roomId selector) r,
    (r.matching roomId selector).length)

/-- `abortRoomTransfers` (:183-192). -/
def abortRoomTransfers (r : Registry) (roomId : String) : Registry × Nat :=
  (abortEach "Room transfers cancelled" (r.active roomId) r, (r.active roomId).length)

/-- `abortAllTransfers` (:194-199). -/
def abortAllTransfers (r : Registry) : Registry × Nat :=
  r.activeByRoom.keys.foldl (fun acc roomId =>
    ((acc.1.abortRoomTransfers roomId).1, acc.2 + (acc.1.abortRoomTransfers roomId).2)) (r, 0)

end Registry

/-! ## Runs -/

/-- The registry, and the handles that its callers have. -/
structure Callers where
  registry : Registry
  handles : List TransferAbortHandle

/-- Before the first message. -/
def Callers.start : Callers := ⟨Registry.empty, []⟩

/-- A call. Methods of a handle are called on one of those given out, by number. -/
inductive Call
  | beginTransfer (roomId transferId : String)
  | claimTransfer (roomId transferId : String)
  | bindHash (handle : Nat) (hashHex : String)
  | bindMerkleRoot (handle : Nat) (merkleRootHex : String)
  | finish (handle : Nat)
  | abortTransfer (roomId : String) (selector : TransferSelector)
  | abortRoomTransfers (roomId : String)
  | abortAllTransfers

namespace Callers

/-- The caller keeps the handle; a call that throws has changed nothing. -/
def given (c : Callers) : Except String (Registry × TransferAbortHandle) → Callers
  | .ok (r, handle) => ⟨r, c.handles ++ [handle]⟩
  | .error _ => c

/-- A method of the handle with the number, where there is one. -/
def onHandle (c : Callers) (handle : Nat) (f : Registry → TransferAbortHandle → Registry) :
    Callers :=
  match c.handles[handle]? with
  | some h => { c with registry := f c.registry h }
  | none => c

end Callers

/-- A call changes the registry, also when it throws. -/
def step : Call → Callers → Callers
  | .beginTransfer roomId transferId, c => c.given (c.registry.beginTransfer roomId transferId)
  | .claimTransfer roomId transferId, c => c.given (c.registry.claimTransfer roomId transferId)
  | .bindHash handle hashHex, c => c.onHandle handle fun r h => r.bindHash h hashHex
  | .bindMerkleRoot handle root, c => c.onHandle handle fun r h => r.bindMerkleRoot h root
  | .finish handle, c => c.onHandle handle Registry.finish
  | .abortTransfer roomId selector, c =>
    match c.registry.abortTransfer roomId selector with
    | .ok (r, _) => { c with registry := r }
    | .error _ => c
  | .abortRoomTransfers roomId, c =>
    { c with registry := (c.registry.abortRoomTransfers roomId).1 }
  | .abortAllTransfers, c => { c with registry := c.registry.abortAllTransfers.1 }

/-! ## What the registry holds -/

namespace Registry

variable {r : Registry}

theorem getElem?_update (t u : Nat) (f : ActiveTransfer → ActiveTransfer) :
    (r.update t f).transfers[u]? = (r.transfers[u]?).map fun x => if t = u then f x else x :=
  List.getElem?_modify f t r.transfers u

theorem getElem?_update_ne {t u : Nat} (f : ActiveTransfer → ActiveTransfer) (h : u ≠ t) :
    (r.update t f).transfers[u]? = r.transfers[u]? := by
  rw [getElem?_update]
  simp only [if_neg h.symm, Option.map_id']

@[simp] theorem transfers_removeActive (roomId : String) (t : Nat) :
    (r.removeActive roomId t).transfers = r.transfers := by
  unfold removeActive
  split
  · rfl
  · split <;> rfl

/-- Removal takes the object out of the set of its room. -/
theorem active_removeActive (roomId room : String) (t : Nat) :
    (r.removeActive roomId t).active room =
      if room = roomId then (r.active roomId).erase t else r.active room := by
  unfold removeActive
  cases hroom : r.activeByRoom.get roomId with
  | none =>
    have hempty : r.active roomId = [] := by rw [active, hroom]; rfl
    by_cases h : room = roomId
    · rw [if_pos h, h, hempty]
      rfl
    · rw [if_neg h]
  | some roomTransfers =>
    have hactive : r.active roomId = roomTransfers := by rw [active, hroom]; rfl
    by_cases hlast : (roomTransfers.erase t).length = 0
    · simp only [hlast, if_true]
      by_cases h : room = roomId
      · rw [if_pos h, h, hactive, active, OrdMap.get_delete_self,
          List.eq_nil_of_length_eq_zero hlast]
        rfl
      · rw [if_neg h, active, OrdMap.get_delete_ne _ h]
        rfl
    · simp only [hlast, if_false]
      by_cases h : room = roomId
      · rw [if_pos h, h, hactive, active, OrdMap.get_set_self]
        rfl
      · rw [if_neg h, active, OrdMap.get_set_ne _ _ h]
        rfl

theorem active_register (roomId transferId room : String) :
    (r.register roomId transferId).active room =
      if room = roomId then r.active roomId ++ [r.transfers.length] else r.active room := by
  by_cases h : room = roomId
  · rw [if_pos h, h, active, register, OrdMap.get_set_self]
    rfl
  · rw [if_neg h, active, register, OrdMap.get_set_ne _ _ h]
    rfl

theorem getElem?_register (roomId transferId : String) {t : Nat} (h : t < r.transfers.length) :
    (r.register roomId transferId).transfers[t]? = r.transfers[t]? :=
  List.getElem?_append_left h

theorem getElem?_register_self (roomId transferId : String) :
    (r.register roomId transferId).transfers[r.transfers.length]? =
      some ⟨transferId, false, none, false, none, none⟩ := List.getElem?_concat_length

/-- A search by identifier finds no object exactly when there is none. -/
theorem named_eq_none {roomId transferId : String} (h : r.named roomId transferId = none) {t : Nat}
    {x : ActiveTransfer} (ht : t ∈ r.active roomId) (hx : r.transfers[t]? = some x) :
    x.transferId ≠ transferId := by
  intro hid
  have hnone := List.find?_eq_none.mp h t ht
  rw [hx, Option.any_some, decide_eq_true_eq] at hnone
  exact hnone hid

theorem mem_of_named {roomId transferId : String} {t : Nat} (h : r.named roomId transferId = some t) :
    t ∈ r.active roomId := List.mem_of_find?_eq_some h

/-- A call of `beginTransfer` that returns. -/
theorem beginTransfer_ok {roomId transferId : String} {r' : Registry} {handle : TransferAbortHandle}
    (h : r.beginTransfer roomId transferId = .ok (r', handle)) :
    isTransferId transferId = true ∧ r.named roomId transferId = none ∧
      r' = r.register roomId transferId ∧ handle = ⟨roomId, r.transfers.length⟩ := by
  unfold beginTransfer at h
  by_cases hroom : roomId = ""
  · rw [if_pos hroom] at h
    cases h
  by_cases hid : isTransferId transferId = false
  · rw [if_neg hroom, if_pos hid] at h
    cases h
  by_cases hnamed : (r.named roomId transferId).isSome
  · rw [if_neg hroom, if_neg hid, if_pos hnamed] at h
    cases h
  rw [if_neg hroom, if_neg hid, if_neg hnamed] at h
  injection h with h
  injection h with hr hh
  exact ⟨Bool.not_eq_false _ ▸ hid, Option.not_isSome_iff_eq_none.mp hnamed, hr.symm, hh.symm⟩

end Registry

/-! ## Calls that change objects only -/

/-- The same object later: what has been aborted stays aborted. -/
structure SameTransfer (x x' : ActiveTransfer) : Prop where
  transferId : x'.transferId = x.transferId
  finished : x'.finished = x.finished
  aborted : x.aborted = true → x'.aborted = true

/-- Only abort states and bound identifiers differ. -/
structure Revised (r r' : Registry) : Prop where
  rooms : r'.activeByRoom = r.activeByRoom
  length : r'.transfers.length = r.transfers.length
  same : ∀ (t : Nat) (x : ActiveTransfer), r.transfers[t]? = some x →
    ∃ x', r'.transfers[t]? = some x' ∧ SameTransfer x x'

variable {r r' r'' : Registry} {c : Callers}

theorem Revised.refl (r : Registry) : Revised r r where
  rooms := rfl
  length := rfl
  same _ x h := ⟨x, h, rfl, rfl, id⟩

theorem Revised.trans (h : Revised r r') (h' : Revised r' r'') : Revised r r'' where
  rooms := h'.rooms.trans h.rooms
  length := h'.length.trans h.length
  same t x hx := by
    obtain ⟨y, hy, hxy⟩ := h.same t x hx
    obtain ⟨z, hz, hyz⟩ := h'.same t y hy
    exact ⟨z, hz, hyz.transferId.trans hxy.transferId, hyz.finished.trans hxy.finished,
      fun ha => hyz.aborted (hxy.aborted ha)⟩

theorem Revised.update {f : ActiveTransfer → ActiveTransfer} (hf : ∀ x, SameTransfer x (f x))
    (t : Nat) : Revised r (r.update t f) where
  rooms := rfl
  length := List.length_modify f r.transfers t
  same u x hx := by
    rw [Registry.getElem?_update, hx]
    by_cases htu : t = u
    · exact ⟨f x, by simp only [htu, if_true, Option.map_some], hf x⟩
    · exact ⟨x, by simp only [htu, if_false, Option.map_some], rfl, rfl, id⟩

theorem sameTransfer_abortActive (reason : String) (x : ActiveTransfer) :
    SameTransfer x (abortActive reason x) := by
  unfold abortActive
  split
  · exact ⟨rfl, rfl, id⟩
  · exact ⟨rfl, rfl, fun _ => rfl⟩

theorem abortActive_aborted (reason : String) (x : ActiveTransfer) :
    (abortActive reason x).aborted = true := by
  unfold abortActive
  split
  · assumption
  · rfl

theorem revised_abortEach (reason : String) (ts : List Nat) (r : Registry) :
    Revised r (Registry.abortEach reason ts r) := by
  induction ts generalizing r with
  | nil => exact Revised.refl r
  | cons t ts ih =>
    have hfirst : Revised r (r.update t (abortActive reason)) :=
      Revised.update (sameTransfer_abortActive reason) t
    exact hfirst.trans (ih _)

theorem revised_abortAllTransfers (r : Registry) : Revised r r.abortAllTransfers.1 := by
  have hrooms : ∀ (rooms : List String) (acc : Registry × Nat), Revised acc.1 (rooms.foldl
      (fun acc roomId => ((acc.1.abortRoomTransfers roomId).1,
        acc.2 + (acc.1.abortRoomTransfers roomId).2)) acc).1 := by
    intro rooms
    induction rooms with
    | nil => exact fun acc => Revised.refl acc.1
    | cons room rooms ih =>
      intro acc
      have hroom : Revised acc.1 (acc.1.abortRoomTransfers room).1 := revised_abortEach _ _ acc.1
      exact hroom.trans (ih ((acc.1.abortRoomTransfers room).1,
        acc.2 + (acc.1.abortRoomTransfers room).2))
  exact hrooms _ (r, 0)

/-! ## The invariant -/

/-- A transfer in the set of a room is not finished and in no other set; its identifier is a
valid one and its own in the room; a handle names the room of its transfer. -/
structure Ok (c : Callers) : Prop where
  distinct : ∀ room, (c.registry.active room).Nodup
  unfinished : ∀ (room : String) (t : Nat), t ∈ c.registry.active room →
    ∃ x, c.registry.transfers[t]? = some x ∧ x.finished = false ∧ isTransferId x.transferId = true
  own : ∀ (room : String) (t u : Nat) (x y : ActiveTransfer),
    t ∈ c.registry.active room → u ∈ c.registry.active room → c.registry.transfers[t]? = some x →
    c.registry.transfers[u]? = some y → x.transferId = y.transferId → t = u
  apart : ∀ room room' t, t ∈ c.registry.active room → t ∈ c.registry.active room' → room = room'
  handle : ∀ h ∈ c.handles, h.transfer < c.registry.transfers.length ∧
    ∀ room, h.transfer ∈ c.registry.active room → room = h.roomId

theorem ok_start : Ok Callers.start where
  distinct _ := List.nodup_nil
  unfinished _ _ h := nomatch h
  own _ _ _ _ _ h := nomatch h
  apart _ _ _ h := nomatch h
  handle _ h := nomatch h

theorem Ok.lt (h : Ok c) {room : String} {t : Nat} (ht : t ∈ c.registry.active room) :
    t < c.registry.transfers.length := by
  obtain ⟨x, hx, -⟩ := h.unfinished room t ht
  exact (List.getElem?_eq_some_iff.mp hx).1

theorem Ok.revised (h : Ok c) (hr : Revised c.registry r') : Ok ⟨r', c.handles⟩ := by
  have hactive : ∀ room, r'.active room = c.registry.active room := fun room => by
    rw [Registry.active, hr.rooms, Registry.active]
  refine ⟨fun room => ?_, fun room t ht => ?_, fun room t u x y ht hu hx hy hid => ?_,
    fun room room' t ht ht' => ?_, fun handle hh => ?_⟩
  · rw [hactive]
    exact h.distinct room
  · obtain ⟨x, hx, hfinished, hid⟩ := h.unfinished room t (hactive room ▸ ht)
    obtain ⟨x', hx', hsame⟩ := hr.same t x hx
    exact ⟨x', hx', hsame.finished.trans hfinished, hsame.transferId ▸ hid⟩
  · have ht : t ∈ c.registry.active room := hactive room ▸ ht
    have hu : u ∈ c.registry.active room := hactive room ▸ hu
    obtain ⟨x₀, hx₀, -⟩ := h.unfinished room t ht
    obtain ⟨y₀, hy₀, -⟩ := h.unfinished room u hu
    obtain ⟨x', hx', hxsame⟩ := hr.same t x₀ hx₀
    obtain ⟨y', hy', hysame⟩ := hr.same u y₀ hy₀
    obtain rfl : x = x' := Option.some.inj (hx.symm.trans hx')
    obtain rfl : y = y' := Option.some.inj (hy.symm.trans hy')
    exact h.own room t u x₀ y₀ ht hu hx₀ hy₀
      (hxsame.transferId.symm.trans (hid.trans hysame.transferId))
  · exact h.apart room room' t (hactive room ▸ ht) (hactive room' ▸ ht')
  · obtain ⟨hlt, hroom⟩ := h.handle handle hh
    exact ⟨hr.length.symm ▸ hlt, fun room ht => hroom room (hactive room ▸ ht)⟩

/-- A handle of a transfer in the set of the room. -/
theorem Ok.given (h : Ok c) {room : String} {t : Nat} (ht : t ∈ c.registry.active room) :
    Ok ⟨c.registry, c.handles ++ [⟨room, t⟩]⟩ where
  distinct := h.distinct
  unfinished := h.unfinished
  own := h.own
  apart := h.apart
  handle handle hh := by
    rcases List.mem_append.mp hh with hold | hnew
    · exact h.handle handle hold
    · obtain rfl := List.mem_singleton.mp hnew
      exact ⟨h.lt ht, fun room' ht' => h.apart room' room t ht' ht⟩

theorem Ok.register (h : Ok c) {roomId transferId : String} (hid : isTransferId transferId = true)
    (hnew : c.registry.named roomId transferId = none) :
    Ok ⟨c.registry.register roomId transferId, c.handles⟩ := by
  have hold : ∀ {room : String} {t : Nat}, t ∈ (c.registry.register roomId transferId).active room →
      t ∈ c.registry.active room ∨ room = roomId ∧ t = c.registry.transfers.length := by
    intro room t ht
    rw [Registry.active_register] at ht
    by_cases hroom : room = roomId
    · rw [if_pos hroom] at ht
      rcases List.mem_append.mp ht with hin | heq
      · exact Or.inl (hroom ▸ hin)
      · exact Or.inr ⟨hroom, List.mem_singleton.mp heq⟩
    · exact Or.inl (by rwa [if_neg hroom] at ht)
  have hat : ∀ {room : String} {t : Nat}, t ∈ c.registry.active room →
      (c.registry.register roomId transferId).transfers[t]? = c.registry.transfers[t]? :=
    fun ht => Registry.getElem?_register _ _ (h.lt ht)
  have hself := c.registry.getElem?_register_self roomId transferId
  refine ⟨fun room => ?_, fun room t ht => ?_, fun room t u x y ht hu hx hy hxy => ?_,
    fun room room' t ht ht' => ?_, fun handle hh => ?_⟩
  · show ((c.registry.register roomId transferId).active room).Nodup
    rw [Registry.active_register]
    by_cases hroom : room = roomId
    · rw [if_pos hroom, List.nodup_append]
      refine ⟨h.distinct roomId, List.nodup_singleton _, fun t ht u hu htu => ?_⟩
      have hlt := h.lt ht
      rw [htu, List.mem_singleton.mp hu] at hlt
      exact Nat.lt_irrefl _ hlt
    · rw [if_neg hroom]
      exact h.distinct room
  · rcases hold ht with ht | ⟨-, rfl⟩
    · obtain ⟨x, hx, hrest⟩ := h.unfinished room t ht
      exact ⟨x, (hat ht).trans hx, hrest⟩
    · exact ⟨_, hself, rfl, hid⟩
  -- the identifier of the new object is not one of the room
  · rcases hold ht with ht | ⟨hroom, rfl⟩ <;> rcases hold hu with hu | ⟨hroom', rfl⟩
    · exact h.own room t u x y ht hu ((hat ht).symm.trans hx) ((hat hu).symm.trans hy) hxy
    · obtain rfl := Option.some.inj (hself.symm.trans hy)
      exact absurd hxy (Registry.named_eq_none hnew (hroom' ▸ ht) ((hat ht).symm.trans hx))
    · obtain rfl := Option.some.inj (hself.symm.trans hx)
      exact absurd hxy.symm (Registry.named_eq_none hnew (hroom ▸ hu) ((hat hu).symm.trans hy))
    · rfl
  · rcases hold ht with ht | ⟨hroom, rfl⟩ <;> rcases hold ht' with ht' | ⟨hroom', heq⟩
    · exact h.apart room room' t ht ht'
    · exact absurd (h.lt ht) (heq ▸ Nat.lt_irrefl _)
    · exact absurd (h.lt ht') (Nat.lt_irrefl _)
    · exact hroom.trans hroom'.symm
  · obtain ⟨hlt, hroom⟩ := h.handle handle hh
    refine ⟨?_, fun room ht => ?_⟩
    · show handle.transfer < (c.registry.transfers ++ [_]).length
      rw [List.length_append]
      exact Nat.lt_add_right _ hlt
    · rcases hold ht with ht | ⟨-, heq⟩
      · exact hroom room ht
      · exact absurd hlt (heq ▸ Nat.lt_irrefl _)

/-- `finish` takes the transfer out of every set and keeps the others. -/
theorem Ok.active_finish (h : Ok c) {handle : TransferAbortHandle} (hh : handle ∈ c.handles)
    (room : String) : (c.registry.finish handle).active room =
      (c.registry.active room).erase handle.transfer := by
  unfold Registry.finish
  by_cases hdone : (c.registry.transfers[handle.transfer]?).any ActiveTransfer.finished = true
  · rw [if_pos hdone]
    refine (List.erase_of_not_mem fun hin => ?_).symm
    obtain ⟨x, hx, hfinished, -⟩ := h.unfinished room handle.transfer hin
    rw [hx, Option.any_some, hfinished] at hdone
    cases hdone
  · rw [if_neg hdone, Registry.active_removeActive]
    by_cases hroom : room = handle.roomId
    · rw [if_pos hroom, hroom]
      rfl
    · rw [if_neg hroom]
      exact (List.erase_of_not_mem fun hin => hroom ((h.handle handle hh).2 room hin)).symm

theorem Registry.finish_other (r : Registry) (handle : TransferAbortHandle) {t : Nat}
    (ht : t ≠ handle.transfer) : (r.finish handle).transfers[t]? = r.transfers[t]? := by
  unfold Registry.finish
  split
  · rfl
  · rw [Registry.transfers_removeActive]
    exact Registry.getElem?_update_ne _ ht

/-- The object itself is finished, and else as it was. -/
theorem Registry.finish_self (r : Registry) (handle : TransferAbortHandle) {x : ActiveTransfer}
    (hx : r.transfers[handle.transfer]? = some x) :
    (r.finish handle).transfers[handle.transfer]? = some { x with finished := true } := by
  unfold Registry.finish
  cases hdone : x.finished with
  | true =>
    rw [hx, Option.any_some, hdone, if_pos rfl, hx, ← hdone]
  | false =>
    rw [hx, Option.any_some, hdone, if_neg Bool.false_ne_true, Registry.transfers_removeActive,
      Registry.getElem?_update, hx]
    simp only [if_true, Option.map_some]

theorem Registry.length_finish (r : Registry) (handle : TransferAbortHandle) :
    (r.finish handle).transfers.length = r.transfers.length := by
  unfold Registry.finish
  split
  · rfl
  · rw [Registry.transfers_removeActive]
    exact List.length_modify _ _ _

theorem Ok.finish (h : Ok c) {handle : TransferAbortHandle} (hh : handle ∈ c.handles) :
    Ok ⟨c.registry.finish handle, c.handles⟩ := by
  have hin : ∀ {room : String} {t : Nat}, t ∈ (c.registry.finish handle).active room →
      t ≠ handle.transfer ∧ t ∈ c.registry.active room := by
    intro room t ht
    rw [h.active_finish hh] at ht
    exact (h.distinct room).mem_erase_iff.mp ht
  have hat : ∀ {room : String} {t : Nat}, t ∈ (c.registry.finish handle).active room →
      (c.registry.finish handle).transfers[t]? = c.registry.transfers[t]? :=
    fun ht => Registry.finish_other _ _ (hin ht).1
  refine ⟨fun room => ?_, fun room t ht => ?_, fun room t u x y ht hu hx hy hxy => ?_,
    fun room room' t ht ht' => h.apart room room' t (hin ht).2 (hin ht').2, fun other ho => ?_⟩
  · show ((c.registry.finish handle).active room).Nodup
    rw [h.active_finish hh]
    exact (h.distinct room).erase _
  · obtain ⟨x, hx, hrest⟩ := h.unfinished room t (hin ht).2
    exact ⟨x, (hat ht).trans hx, hrest⟩
  · exact h.own room t u x y (hin ht).2 (hin hu).2 ((hat ht).symm.trans hx)
      ((hat hu).symm.trans hy) hxy
  · obtain ⟨hlt, hroom⟩ := h.handle other ho
    exact ⟨(Registry.length_finish _ _).symm ▸ hlt, fun room ht => hroom room (hin ht).2⟩

/-! ## Steps -/

/-- What a call does: a second handle, a new transfer, the end of one, or neither. -/
theorem step_cases (call : Call) (c : Callers) :
    (∃ r', Revised c.registry r' ∧ step call c = ⟨r', c.handles⟩) ∨
    (∃ room t, t ∈ c.registry.active room ∧
      step call c = ⟨c.registry, c.handles ++ [⟨room, t⟩]⟩) ∨
    (∃ room transferId, isTransferId transferId = true ∧
      c.registry.named room transferId = none ∧
      step call c = ⟨c.registry.register room transferId,
        c.handles ++ [⟨room, c.registry.transfers.length⟩]⟩) ∨
    (∃ handle ∈ c.handles, step call c = ⟨c.registry.finish handle, c.handles⟩) := by
  have hrefl := Revised.refl c.registry
  have hbegin : ∀ (roomId transferId : String) {result},
      c.registry.beginTransfer roomId transferId = result →
      c.given result = c ∨ (isTransferId transferId = true ∧
        c.registry.named roomId transferId = none ∧
        c.given result = ⟨c.registry.register roomId transferId,
          c.handles ++ [⟨roomId, c.registry.transfers.length⟩]⟩) := by
    intro roomId transferId result h
    cases result with
    | error message => exact Or.inl rfl
    | ok result =>
      obtain ⟨hid, hnew, hr, hh⟩ := Registry.beginTransfer_ok h
      refine Or.inr ⟨hid, hnew, ?_⟩
      rw [← hh, ← hr]
      rfl
  have hbind : ∀ (handle : Nat) {f : ActiveTransfer → ActiveTransfer},
      (∀ x, SameTransfer x (f x)) → ∃ r', Revised c.registry r' ∧
        c.onHandle handle (fun r h => r.update h.transfer f) = ⟨r', c.handles⟩ := by
    intro handle f hf
    unfold Callers.onHandle
    cases c.handles[handle]? with
    | none => exact ⟨c.registry, hrefl, rfl⟩
    | some h => exact ⟨_, Revised.update hf h.transfer, rfl⟩
  cases call with
  | beginTransfer roomId transferId =>
    rcases hbegin roomId transferId rfl with h | ⟨hid, hnew, h⟩
    · exact Or.inl ⟨c.registry, hrefl, h⟩
    · exact Or.inr (Or.inr (Or.inl ⟨roomId, transferId, hid, hnew, h⟩))
  | claimTransfer roomId transferId =>
    cases hnamed : c.registry.named roomId transferId with
    | none =>
      have hclaim : c.registry.claimTransfer roomId transferId =
          c.registry.beginTransfer roomId transferId := by
        rw [Registry.claimTransfer, hnamed]
      rcases hbegin roomId transferId rfl with h | ⟨hid, hnew, h⟩
      · exact Or.inl ⟨c.registry, hrefl, (congrArg c.given hclaim).trans h⟩
      · exact Or.inr (Or.inr (Or.inl ⟨roomId, transferId, hid, hnew,
          (congrArg c.given hclaim).trans h⟩))
    | some t =>
      have hclaim : c.registry.claimTransfer roomId transferId =
          .ok (c.registry, ⟨roomId, t⟩) := by
        rw [Registry.claimTransfer, hnamed]
      exact Or.inr (Or.inl ⟨roomId, t, Registry.mem_of_named hnamed, congrArg c.given hclaim⟩)
  | bindHash handle hashHex => exact Or.inl (hbind handle fun _ => ⟨rfl, rfl, id⟩)
  | bindMerkleRoot handle root => exact Or.inl (hbind handle fun _ => ⟨rfl, rfl, id⟩)
  | finish handle =>
    cases hh : c.handles[handle]? with
    | none =>
      refine Or.inl ⟨c.registry, hrefl, ?_⟩
      show c.onHandle handle Registry.finish = _
      rw [Callers.onHandle, hh]
    | some h =>
      refine Or.inr (Or.inr (Or.inr ⟨h, List.mem_of_getElem? hh, ?_⟩))
      show c.onHandle handle Registry.finish = _
      rw [Callers.onHandle, hh]
  | abortTransfer roomId selector =>
    refine Or.inl ?_
    show ∃ r', Revised c.registry r' ∧ (match c.registry.abortTransfer roomId selector with
      | .ok (r, _) => { c with registry := r }
      | .error _ => c) = ⟨r', c.handles⟩
    unfold Registry.abortTransfer
    split_ifs
    · exact ⟨c.registry, hrefl, rfl⟩
    · exact ⟨c.registry, hrefl, rfl⟩
    · exact ⟨c.registry, hrefl, rfl⟩
    · exact ⟨c.registry, hrefl, rfl⟩
    · exact ⟨_, revised_abortEach _ _ _, rfl⟩
  | abortRoomTransfers roomId => exact Or.inl ⟨_, revised_abortEach _ _ _, rfl⟩
  | abortAllTransfers => exact Or.inl ⟨_, revised_abortAllTransfers _, rfl⟩

/-- Every call keeps the invariant. -/
theorem step_ok (call : Call) (h : Ok c) : Ok (step call c) := by
  obtain ⟨r', hr, heq⟩ | ⟨room, t, ht, heq⟩ | ⟨room, transferId, hid, hnew, heq⟩ |
    ⟨handle, hh, heq⟩ := step_cases call c
  · exact heq ▸ h.revised hr
  · exact heq ▸ h.given ht
  · rw [heq]
    refine (h.register hid hnew).given (t := c.registry.transfers.length) ?_
    show c.registry.transfers.length ∈ (c.registry.register room transferId).active room
    rw [Registry.active_register, if_pos rfl]
    exact List.mem_append_right _ (List.mem_singleton_self _)
  · exact heq ▸ h.finish hh

theorem ok_runs (calls : List Call) (h : Ok c) : Ok (runs step calls c) := by
  induction calls generalizing c with
  | nil => exact h
  | cons call calls ih => exact ih (step_ok call h)

/-- The objects of `r` are there later, and what has ended has ended. -/
def Older (r r' : Registry) : Prop :=
  ∀ (t : Nat) (x : ActiveTransfer), r.transfers[t]? = some x → ∃ x', r'.transfers[t]? = some x' ∧
    (x.aborted = true → x'.aborted = true) ∧ (x.finished = true → x'.finished = true)

theorem step_older (call : Call) (c : Callers) : Older c.registry (step call c).registry := by
  intro t x hx
  obtain ⟨r', hr, heq⟩ | ⟨room, u, -, heq⟩ | ⟨room, transferId, -, -, heq⟩ |
    ⟨handle, -, heq⟩ := step_cases call c
  · obtain ⟨x', hx', hsame⟩ := hr.same t x hx
    exact ⟨x', heq ▸ hx', hsame.aborted, fun hf => hsame.finished.trans hf⟩
  · exact ⟨x, heq ▸ hx, id, id⟩
  · refine ⟨x, ?_, id, id⟩
    rw [heq]
    exact (Registry.getElem?_register _ _ (List.getElem?_eq_some_iff.mp hx).1).trans hx
  · rw [heq]
    by_cases ht : t = handle.transfer
    · subst ht
      exact ⟨_, c.registry.finish_self handle hx, id, fun _ => rfl⟩
    · exact ⟨x, (c.registry.finish_other handle ht).trans hx, id, id⟩

theorem runs_older (calls : List Call) (c : Callers) :
    Older c.registry (runs step calls c).registry := by
  induction calls generalizing c with
  | nil => exact fun t x hx => ⟨x, hx, id, id⟩
  | cons call calls ih =>
    intro t x hx
    obtain ⟨y, hy, hya, hyf⟩ := step_older call c t x hx
    obtain ⟨z, hz, hza, hzf⟩ := ih (step call c) t y hy
    exact ⟨z, hz, fun ha => hza (hya ha), fun hf => hzf (hyf hf)⟩

/-! ## The laws -/

/-- A selector that has an identifier at all. -/
def TransferSelector.Given (selector : TransferSelector) : Prop :=
  truthy selector.transferId = true ∨ truthy selector.hashHex = true ∨
    truthy selector.merkleRootHex = true

/-- The first identifier of a selector is the one that the transfer has: the transfer identifier,
else the Merkle root, else the hash of the content. -/
def TransferSelector.Names (selector : TransferSelector) (x : ActiveTransfer) : Prop :=
  selector.Given ∧ selects selector x = true

/-- An active transfer of the room that the selector names. -/
def Registry.Identified (r : Registry) (roomId : String) (selector : TransferSelector) (t : Nat) :
    Prop :=
  t ∈ r.active roomId ∧ ∃ x, r.transfers[t]? = some x ∧ selector.Names x

/-- `r'` is `r` but for the abort of `t`. -/
structure Registry.AbortsOnly (r : Registry) (t : Nat) (r' : Registry) : Prop where
  rooms : r'.activeByRoom = r.activeByRoom
  others : ∀ u, u ≠ t → r'.transfers[u]? = r.transfers[u]?
  aborted : ∃ x x', r.transfers[t]? = some x ∧ r'.transfers[t]? = some x' ∧ x'.aborted = true ∧
    x' = { x with aborted := x'.aborted, reason := x'.reason }

/-- The one that the selector names is aborted and nothing else; nothing is when it names none or
several. -/
structure Registry.SelectionLaw (r : Registry) (roomId : String) (selector : TransferSelector) :
    Prop where
  one : ∀ t, (∀ u, r.Identified roomId selector u ↔ u = t) →
    ∃ r', r.abortTransfer roomId selector = .ok (r', 1) ∧ r.AbortsOnly t r'
  none : (∀ t, ¬ r.Identified roomId selector t) →
    r.abortTransfer roomId selector = .ok (r, 0) ∨
      ∃ message, r.abortTransfer roomId selector = .error message
  several : ∀ t u, t ≠ u → r.Identified roomId selector t → r.Identified roomId selector u →
    r.abortTransfer roomId selector =
      .error "Transfer selector is ambiguous; cancel with the random transfer ID"

/-- Aborted or finished. -/
def Registry.Ended (r : Registry) (t : Nat) : Prop :=
  ∃ x, r.transfers[t]? = some x ∧ (x.aborted = true ∨ x.finished = true)

/-- Finished. -/
def Registry.Finished (r : Registry) (t : Nat) : Prop :=
  ∃ x, r.transfers[t]? = some x ∧ x.finished = true

/-- In the set of a room, with a signal that has not been aborted. -/
def Registry.Live (r : Registry) (t : Nat) : Prop :=
  (∃ room, t ∈ r.active room) ∧ ∃ x, r.transfers[t]? = some x ∧ x.aborted = false

/-- `finish` takes its own transfer out of the registry and keeps all others as they are. -/
structure Registry.FinishLaw (r : Registry) (handle : TransferAbortHandle) : Prop where
  finished : (r.finish handle).Finished handle.transfer
  rooms : ∀ room, (r.finish handle).active room = (r.active room).erase handle.transfer
  gone : ∀ room, handle.transfer ∉ (r.finish handle).active room
  others : ∀ t, t ≠ handle.transfer → (r.finish handle).transfers[t]? = r.transfers[t]? ∧
    ∀ room, t ∈ (r.finish handle).active room ↔ t ∈ r.active room

theorem Registry.mem_matching {roomId : String} {selector : TransferSelector} {t : Nat} :
    t ∈ r.matching roomId selector ↔
      t ∈ r.active roomId ∧ ∃ x, r.transfers[t]? = some x ∧ selects selector x = true := by
  rw [Registry.matching, List.mem_filter, Option.any_eq_true_iff_get]
  refine and_congr_right fun _ => ?_
  constructor
  · rintro ⟨hsome, hsel⟩
    exact ⟨_, (Option.some_get hsome).symm, hsel⟩
  · rintro ⟨x, hx, hsel⟩
    refine ⟨by rw [hx]; rfl, ?_⟩
    simpa only [hx, Option.get_some] using hsel

theorem Registry.identified_iff {roomId : String} {selector : TransferSelector}
    (hgiven : selector.Given) {t : Nat} :
    r.Identified roomId selector t ↔ t ∈ r.matching roomId selector := by
  rw [Registry.mem_matching]
  constructor
  · rintro ⟨ht, x, hx, -, hsel⟩
    exact ⟨ht, x, hx, hsel⟩
  · rintro ⟨ht, x, hx, hsel⟩
    exact ⟨ht, x, hx, hgiven, hsel⟩

/-- The transfer identifier names at most one transfer of the room, and only a valid one any. -/
theorem Ok.selects_transferId (h : Ok c) {roomId transferId : String} {selector : TransferSelector}
    (hsel : selector.transferId = some transferId) {t : Nat}
    (ht : t ∈ c.registry.matching roomId selector) :
    isTransferId transferId = true ∧ ∀ u ∈ c.registry.matching roomId selector, u = t := by
  have hid : ∀ x, selects selector x = true → x.transferId = transferId := by
    intro x hx
    unfold selects at hx
    rw [hsel] at hx
    exact of_decide_eq_true hx
  obtain ⟨hin, x, hx, hxsel⟩ := Registry.mem_matching.mp ht
  obtain ⟨x', hx', -, hvalid⟩ := h.unfinished roomId t hin
  obtain rfl := Option.some.inj (hx.symm.trans hx')
  refine ⟨hid x hxsel ▸ hvalid, fun u hu => ?_⟩
  obtain ⟨huin, y, hy, hysel⟩ := Registry.mem_matching.mp hu
  exact h.own roomId u t y x huin hin hy hx ((hid y hysel).trans (hid x hxsel).symm)

/-- The two texts that the code checks first are no obstacle to a selector that names one. -/
theorem Ok.abortTransfer_of_mem (h : Ok c) {roomId : String} {selector : TransferSelector}
    (hgiven : selector.Given) {t : Nat} (ht : t ∈ c.registry.matching roomId selector) :
    c.registry.abortTransfer roomId selector =
      if selector.transferId = none ∧ 1 < (c.registry.matching roomId selector).length then
        .error "Transfer selector is ambiguous; cancel with the random transfer ID"
      else .ok (Registry.abortEach "Message transfer cancelled"
        (c.registry.matching roomId selector) c.registry,
        (c.registry.matching roomId selector).length) := by
  have hsome : ¬ (!truthy selector.transferId && !truthy selector.hashHex &&
      !truthy selector.merkleRootHex) = true := by
    simp only [Bool.and_eq_true, Bool.not_eq_true', not_and, Bool.not_eq_false]
    rintro ⟨hid, hhash⟩
    rcases hgiven with hg | hg | hg
    · rw [hid] at hg; cases hg
    · rw [hhash] at hg; cases hg
    · exact hg
  have hvalid : ¬ (truthy selector.transferId && !selector.transferId.any isTransferId) = true := by
    simp only [Bool.and_eq_true, Bool.not_eq_true', not_and, Bool.not_eq_false]
    intro hid
    cases hsel : selector.transferId with
    | none => rw [hsel] at hid; cases hid
    | some transferId => exact (h.selects_transferId hsel ht).1
  have hroom : c.registry.activeByRoom.get roomId ≠ none := by
    intro hnone
    have hin := (Registry.mem_matching.mp ht).1
    rw [Registry.active, hnone] at hin
    cases hin
  rw [Registry.abortTransfer, if_neg hsome, if_neg hvalid, if_neg hroom]

theorem Registry.abortsOnly_of (r : Registry) {t : Nat} {x : ActiveTransfer}
    (hx : r.transfers[t]? = some x) (reason : String) :
    r.AbortsOnly t (Registry.abortEach reason [t] r) where
  rooms := rfl
  others _ hu := Registry.getElem?_update_ne _ hu
  aborted := by
    refine ⟨x, abortActive reason x, hx, ?_, abortActive_aborted reason x, ?_⟩
    · show (r.update t (abortActive reason)).transfers[t]? = _
      rw [Registry.getElem?_update, hx]
      simp only [if_true, Option.map_some]
    · unfold abortActive
      split <;> rfl

/-- The selection law holds wherever the invariant does. -/
theorem Ok.selectionLaw (h : Ok c) (roomId : String) (selector : TransferSelector) :
    c.registry.SelectionLaw roomId selector where
  one t hone := by
    obtain ⟨hin, x, hx, hgiven, hsel⟩ := (hone t).mpr rfl
    have hmem : ∀ u, u ∈ c.registry.matching roomId selector ↔ u = t := fun u =>
      (Registry.identified_iff hgiven).symm.trans (hone u)
    have hperm : (c.registry.matching roomId selector).Perm [t] :=
      (List.perm_ext_iff_of_nodup ((h.distinct roomId).filter _) (List.nodup_singleton t)).mpr
        fun u => (hmem u).trans List.mem_singleton.symm
    have hlist : c.registry.matching roomId selector = [t] := List.perm_singleton.mp hperm
    refine ⟨_, ?_, c.registry.abortsOnly_of hx "Message transfer cancelled"⟩
    rw [h.abortTransfer_of_mem hgiven ((hmem t).mpr rfl), hlist]
    exact if_neg fun hmany => Nat.lt_irrefl 1 hmany.2
  none hnone := by
    unfold Registry.abortTransfer
    split_ifs with hsome hvalid hroom hmany
    · exact Or.inr ⟨_, rfl⟩
    · exact Or.inr ⟨_, rfl⟩
    · exact Or.inl rfl
    · exact Or.inr ⟨_, rfl⟩
    · have hgiven : selector.Given := by
        by_contra hnot
        unfold TransferSelector.Given at hnot
        simp only [not_or, Bool.not_eq_true] at hnot
        obtain ⟨hid, hhash, hroot⟩ := hnot
        exact hsome (by rw [hid, hhash, hroot]; rfl)
      have hempty : c.registry.matching roomId selector = [] :=
        List.eq_nil_iff_forall_not_mem.mpr fun t ht =>
          hnone t ((Registry.identified_iff hgiven).mpr ht)
      rw [hempty]
      exact Or.inl rfl
  several t u htu ht hu := by
    have hgiven : selector.Given := by
      obtain ⟨-, -, -, hgiven, -⟩ := ht
      exact hgiven
    have ht := (Registry.identified_iff hgiven).mp ht
    have hu := (Registry.identified_iff hgiven).mp hu
    have hnone : selector.transferId = none := by
      cases hsel : selector.transferId with
      | none => rfl
      | some transferId => exact absurd ((h.selects_transferId hsel hu).2 t ht) htu
    have hmany : 1 < (c.registry.matching roomId selector).length := by
      by_contra hfew
      obtain ⟨v, hv⟩ | hnil : (∃ v, c.registry.matching roomId selector = [v]) ∨
          c.registry.matching roomId selector = [] := by
        rcases hlist : c.registry.matching roomId selector with _ | ⟨v, _ | ⟨w, rest⟩⟩
        · exact Or.inr rfl
        · exact Or.inl ⟨v, rfl⟩
        · rw [hlist] at hfew
          exact absurd (Nat.succ_lt_succ (Nat.succ_pos _)) hfew
      · rw [hv] at ht hu
        exact htu ((List.mem_singleton.mp ht).trans (List.mem_singleton.mp hu).symm)
      · rw [hnil] at ht
        cases ht
    rw [h.abortTransfer_of_mem hgiven ht, if_pos ⟨hnone, hmany⟩]

theorem Ok.finishLaw (h : Ok c) {handle : TransferAbortHandle} (hh : handle ∈ c.handles) :
    c.registry.FinishLaw handle where
  finished :=
    ⟨_, c.registry.finish_self handle (List.getElem?_eq_getElem (h.handle handle hh).1), rfl⟩
  rooms := h.active_finish hh
  gone room hin := by
    rw [h.active_finish hh] at hin
    exact ((h.distinct room).mem_erase_iff.mp hin).1 rfl
  others t ht := by
    refine ⟨c.registry.finish_other handle ht, fun room => ?_⟩
    rw [h.active_finish hh]
    exact List.mem_erase_of_ne ht

/-- A finished transfer is in no set. -/
theorem Ok.notMem_of_finished (h : Ok c) {t : Nat} (hf : c.registry.Finished t) (room : String) :
    t ∉ c.registry.active room := by
  obtain ⟨x, hx, hfinished⟩ := hf
  intro hin
  obtain ⟨y, hy, hopen, -⟩ := h.unfinished room t hin
  obtain rfl := Option.some.inj (hx.symm.trans hy)
  rw [hfinished] at hopen
  cases hopen

/-- After any calls whatever, over any number of rooms and transfers: `abortTransfer` aborts the
one transfer that its selector names and else nothing; what has been aborted or finished is never
again live, and what has been finished is never again in a set; and a call of `finish` concerns
its own transfer only. -/
theorem transfer_abort_registry (calls : List Call) :
    (∀ roomId selector,
      (runs step calls Callers.start).registry.SelectionLaw roomId selector) ∧
    (∀ t, (runs step calls Callers.start).registry.Ended t →
      ∀ later, ¬ (runs step (calls ++ later) Callers.start).registry.Live t) ∧
    (∀ t, (runs step calls Callers.start).registry.Finished t →
      ∀ later room, t ∉ (runs step (calls ++ later) Callers.start).registry.active room) ∧
    (∀ handle ∈ (runs step calls Callers.start).handles,
      (runs step calls Callers.start).registry.FinishLaw handle) := by
  have hok : ∀ calls, Ok (runs step calls Callers.start) := fun calls => ok_runs calls ok_start
  have hlater : ∀ later, Older (runs step calls Callers.start).registry
      (runs step (calls ++ later) Callers.start).registry := by
    intro later
    rw [runs_append]
    exact runs_older later _
  have hfinished : ∀ t, (runs step calls Callers.start).registry.Finished t →
      ∀ later room, t ∉ (runs step (calls ++ later) Callers.start).registry.active room := by
    rintro t ⟨x, hx, hf⟩ later room
    obtain ⟨y, hy, -, hyf⟩ := hlater later t x hx
    exact (hok (calls ++ later)).notMem_of_finished ⟨y, hy, hyf hf⟩ room
  refine ⟨(hok calls).selectionLaw, ?_, hfinished, fun handle => (hok calls).finishLaw⟩
  rintro t ⟨x, hx, ha | hf⟩ later ⟨⟨room, hin⟩, y, hy, hlive⟩
  · obtain ⟨z, hz, hza, -⟩ := hlater later t x hx
    obtain rfl := Option.some.inj (hy.symm.trans hz)
    rw [hza ha] at hlive
    cases hlive
  · exact hfinished t ⟨x, hx, hf⟩ later room hin

end TransferAbort

end P2Party
