import P2Party.Base.OrdMap
import P2Party.Cover.Scheduler
import P2Party.Room.Policy

/-!
# The room slice (`reducers/roomSlice.ts`)

The rooms a client knows, as the reducers keep them. A reducer that throws leaves the state
as it was. What a reducer reads outside its state and payload, the flag in local storage and
the clock, is an argument; `isUUID` belongs to a library and is one too.

- `Room`, `Message`: the records;
- `setRoom`, `deleteRoom`, and the other reducers;
- `Action`, `reduce`, `dispatch`: one action;
- `reduce_key`: every action but `setRoom`, `setRoomPolicy` and `deleteRoom` keeps the url,
  id and policy of every room.
-/

namespace P2Party

open Base

namespace Rooms

/-! ## Records -/

/-- `Channel` (roomSlice.ts:18-21). -/
structure Channel where
  label : String
  peerIds : List String
deriving DecidableEq

/-- `Peer` (roomSlice.ts:23-26). -/
structure Peer where
  peerId : String
  peerPublicKey : String
deriving DecidableEq

/-- `Message` (roomSlice.ts:28-47). -/
structure Message where
  transferId : Option String
  merkleRootHex : String
  sha512Hex : String
  fromPeerId : String
  filename : String
  messageType : Nat
  savedSize : Nat
  totalSize : Nat
  chunksCreated : Nat
  totalChunks : Nat
  channelLabel : String
  timestamp : Nat
  chunksReceivedTotal : Option Nat := none
  chunksReceivedReal : Option Nat := none
  retransmits : Option Nat := none
deriving DecidableEq

/-- The `urls` of an ICE server: one, or several. -/
inductive IceUrls
  | single (url : String)
  | many (urls : List String)
deriving DecidableEq

/-- `RTCIceServer`. -/
structure RTCIceServer where
  urls : IceUrls
  username : Option String := none
  credential : Option String := none
deriving DecidableEq

/-- `RTCConfiguration`, the fields the library uses. -/
structure RTCConfiguration where
  iceServers : Option (List RTCIceServer)
  iceTransportPolicy : Option String := none
  iceCandidatePoolSize : Option Nat := none
deriving DecidableEq

/-- `defaultRTCConfig` (roomSlice.ts:197-215). -/
def defaultRTCConfig : RTCConfiguration where
  iceServers := some [{ urls := .single "stun:stun.p2party.com:3478" }]
  iceTransportPolicy := some "all"
  iceCandidatePoolSize := some 2

/-- `PeerHandshakeFailureReason` (roomSlice.ts:152-156). -/
inductive PeerHandshakeFailureReason
  | pinMismatch
  | pinThrottled
  | policy
  | transport
deriving DecidableEq

/-- The states of a handshake (roomSlice.ts:159). -/
inductive HandshakeProgress
  | authenticating
  | authenticated
  | failed
deriving DecidableEq

/-- `PeerHandshakeStatus` (roomSlice.ts:158-163). -/
structure PeerHandshakeStatus where
  status : HandshakeProgress
  reason : Option PeerHandshakeFailureReason
  retryAfter : Option Nat
deriving DecidableEq

/-- `Room` (roomSlice.ts:170-195). -/
structure Room where
  url : String
  id : String
  policy : RoomPolicyV1
  connectingToPeers : Bool := false
  connectedToPeers : Bool := false
  canBeConnectionRelay : Bool := true
  onlyConnectWithKnownAddresses : Bool := false
  rtcConfig : RTCConfiguration := defaultRTCConfig
  peers : List Peer := []
  channels : List Channel := []
  messages : List Message := []
  coverStatusByPeer : Option (OrdMap String Cover.CoverSchedulerStatus) := none
  handshakeStatusByPeer : Option (OrdMap String PeerHandshakeStatus) := none
deriving DecidableEq

/-- What a reducer reads outside its state and payload: whether local storage holds "true"
under `url + "-onlyConnectWithKnownPeers"`, and the clock. -/
structure Ambient where
  onlyKnownPeers : String → Bool
  now : Nat

/-! ## Lists as arrays -/

/-- `length` of a JavaScript string, in UTF-16 units. -/
def jsLength (s : String) : Nat := (s.toList.map fun c => if c.toNat < 0x10000 then 1 else 2).sum

/-- Change the first room a test finds. -/
def updateFirst (test : Room → Bool) (change : Room → Room) : List Room → List Room
  | [] => []
  | room :: rooms => if test room then change room :: rooms else room :: updateFirst test change rooms

/-- The reducers' `findIndex((r) => r.id === roomId)` and the change behind it. -/
def onRoom (roomId : String) (change : Room → Room) (rooms : List Room) : List Room :=
  updateFirst (fun r => r.id == roomId) change rooms

/-- `findLastIndex`. -/
def findLastIdx? {α : Type} (test : α → Bool) (as : List α) : Option Nat :=
  (as.reverse.findIdx? test).map fun i => as.length - 1 - i

/-! ## Rooms -/

/-- `SetRoomArgs` (roomSlice.ts:57-65). -/
structure SetRoomArgs where
  url : String
  id : String
  canBeConnectionRelay : Option Bool := none
  onlyConnectWithKnownPeers : Option Bool := none
  rtcConfig : Option RTCConfiguration := none
  policy : Option RoomPolicyV1 := none

/-- `assertRoomPolicyUnchanged` (roomSlice.ts:219-226). -/
def assertRoomPolicyUnchanged (current requested : RoomPolicyV1) : Except JsError Unit := do
  let candidate ← canonicalizeRoomPolicyV1 requested
  let equal ← roomPoliciesEqualV1 current candidate
  demand (equal = true) (.error "roomSlice: room policy is immutable after creation")

/-- The fields `setRoom` writes to a room it found (roomSlice.ts:249-261, 288-300). -/
def Room.assign (ambient : Ambient) (args : SetRoomArgs) (id : String) (room : Room) : Room :=
  { room with
    url := args.url
    id := id
    canBeConnectionRelay := args.canBeConnectionRelay.getD room.canBeConnectionRelay
    rtcConfig := args.rtcConfig.getD room.rtcConfig
    onlyConnectWithKnownAddresses :=
      args.onlyConnectWithKnownPeers.getD (ambient.onlyKnownPeers args.url) }

/-- The room `setRoom` creates (roomSlice.ts:263-279, 302-318). -/
def newRoom (ambient : Ambient) (args : SetRoomArgs) (id : String) (policy : RoomPolicyV1) : Room where
  url := args.url
  id := id
  canBeConnectionRelay := args.canBeConnectionRelay.getD true
  onlyConnectWithKnownAddresses :=
    args.onlyConnectWithKnownPeers.getD (ambient.onlyKnownPeers args.url)
  rtcConfig := args.rtcConfig.getD defaultRTCConfig
  policy := policy

/-- One branch of `setRoom`: the room a test finds is assigned, or a new one is pushed. -/
def setRoomWhere (ambient : Ambient) (args : SetRoomArgs) (id : String) (test : Room → Bool)
    (rooms : List Room) : Except JsError (List Room) :=
  match rooms.find? test with
  | some room => do
    match args.policy with
    | some policy => assertRoomPolicyUnchanged room.policy policy
    | none => pure ()
    return updateFirst test (Room.assign ambient args id) rooms
  | none => do
    let policy ← canonicalizeRoomPolicyV1 (args.policy.getD DEFAULT_ROOM_POLICY_V1)
    return rooms ++ [newRoom ambient args id policy]

variable (isUUID : String → Bool)

/-- `setRoom` (roomSlice.ts:232-320). -/
def setRoom (ambient : Ambient) (args : SetRoomArgs) (rooms : List Room) : Except JsError (List Room) :=
  if jsLength args.url = 64 ∧ isUUID args.id = true then
    setRoomWhere ambient args args.id (fun r => r.url == args.url || r.id == args.id) rooms
  else if jsLength args.url = 64 then
    setRoomWhere ambient args "" (fun r => r.url == args.url) rooms
  else .ok rooms

/-- `setRoomPolicy` (roomSlice.ts:322-333). -/
def setRoomPolicy (roomContext : String) (policy : RoomPolicyV1) (rooms : List Room) :
    Except JsError (List Room) :=
  match rooms.find? (fun r => r.url == roomContext || r.id == roomContext) with
  | some room => do
    assertRoomPolicyUnchanged room.policy policy
    return rooms
  | none => .ok rooms

/-- `deleteRoom` (roomSlice.ts:792-819). -/
def deleteRoom (context : String) (rooms : List Room) : Except JsError (List Room) :=
  let test := fun r : Room => r.url == context || r.id == context
  match rooms.find? test with
  | some room => do
    let policy ← canonicalizeRoomPolicyV1 room.policy
    return updateFirst test (fun r => { url := r.url, id := "", policy := policy }) rooms
  | none => .ok rooms

/-! ## Peers and channels -/

/-- `setPeer` (roomSlice.ts:369-383). -/
def setPeer (peerId peerPublicKey : String) (room : Room) : Room :=
  if room.peers.any (·.peerId == peerId) then room
  else { room with peers := room.peers ++ [⟨peerId, peerPublicKey⟩] }

/-- The peer's entry of a record, dropped unless it satisfies a test. -/
def dropEntry {ν : Type} (peerId : String) (keep : ν → Bool) (record : Option (OrdMap String ν)) :
    Option (OrdMap String ν) :=
  record.map fun entries =>
    match entries.get peerId with
    | some v => if keep v then entries else entries.delete peerId
    | none => entries

/-- `deletePeer` (roomSlice.ts:385-415) in one room: a failed handshake stays visible. -/
def deletePeer (peerId : String) (room : Room) : Room :=
  { room with
    peers := room.peers.eraseIdx (room.peers.findIdx (·.peerId == peerId))
    coverStatusByPeer := dropEntry peerId (fun _ => false) room.coverStatusByPeer
    handshakeStatusByPeer := dropEntry peerId (fun h => h.status == .failed) room.handshakeStatusByPeer }

/-- `setChannel` (roomSlice.ts:448-474). -/
def setChannel (label peerId : String) (room : Room) : Room :=
  match room.channels.findIdx? (·.label == label) with
  | some i => { room with channels := room.channels.modify i fun c =>
      if c.peerIds.contains peerId then c else { c with peerIds := c.peerIds ++ [peerId] } }
  | none => { room with channels := room.channels ++ [⟨label, [peerId]⟩] }

/-- The peer leaves a channel; an empty channel goes. -/
def leaveChannel (peerId : String) (c : Channel) : Option Channel :=
  if c.peerIds.contains peerId then
    let peerIds := c.peerIds.erase peerId
    if peerIds.isEmpty then none else some { c with peerIds }
  else some c

/-- `deleteChannel` (roomSlice.ts:476-524) in one room. -/
def deleteChannel (peerId label : Option String) (room : Room) : Room :=
  match label.filter (· ≠ ""), peerId.filter (· ≠ "") with
  | some label, none =>
    { room with channels := room.channels.eraseIdx (room.channels.findIdx (·.label == label)) }
  | none, some peerId => { room with channels := room.channels.filterMap (leaveChannel peerId) }
  | some label, some peerId =>
    match room.channels.findIdx? (fun c => c.label == label && c.peerIds.contains peerId) with
    | some i => { room with channels := room.channels.take i ++
        ((room.channels[i]?.bind (leaveChannel peerId)).toList ++ room.channels.drop (i + 1)) }
    | none => room
  | none, none => room

/-- What the loop over `iceServers[i].urls[j]` sees: the urls, or the characters of a single
url. -/
def IceUrls.units : IceUrls → List String
  | .single url => url.toList.map fun c => String.ofList [c]
  | .many urls => urls

/-- The urls of the servers a room has. -/
def existingUrls (config : RTCConfiguration) : List String :=
  (config.iceServers.getD []).flatMap fun server =>
    match server.urls with
    | .single url => [url]
    | .many urls => urls

/-- `setIceServers` (roomSlice.ts:526-552). -/
def setIceServers (iceServers : List RTCIceServer) (room : Room) : Room :=
  let fresh := iceServers.filter fun server =>
    server.urls.units.any fun url => !(existingUrls room.rtcConfig).contains url
  { room with rtcConfig := { room.rtcConfig with
      iceServers := room.rtcConfig.iceServers.map (· ++ fresh) } }

/-! ## Messages -/

/-- `SetMessageArgs` (roomSlice.ts:81-96), less the room. -/
structure SetMessageArgs where
  transferId : Option String
  merkleRootHex : String
  sha512Hex : String
  chunkSize : Nat
  totalSize : Nat
  chunksCreated : Option Nat
  totalChunks : Option Nat
  timestamp : Option Nat
  fromPeerId : String
  filename : String
  messageType : Nat
  channelLabel : String

/-- The message `setMessage` pushes. -/
def SetMessageArgs.message (args : SetMessageArgs) (now : Nat) : Message where
  transferId := args.transferId
  merkleRootHex := args.merkleRootHex
  sha512Hex := args.sha512Hex
  channelLabel := args.channelLabel
  filename := if args.filename = "" then "txt" else args.filename
  messageType := args.messageType
  fromPeerId := args.fromPeerId
  timestamp := args.timestamp.getD now
  savedSize := args.chunkSize
  totalSize := args.totalSize
  chunksCreated := args.chunksCreated.getD 0
  totalChunks := args.totalChunks.getD 0

/-- The fields that must be there for a new message (roomSlice.ts:587-592). -/
def completeEnough (channelLabel fromPeerId : String) (messageType totalSize : Nat) : Bool :=
  channelLabel != "" && fromPeerId != "" && isUUID fromPeerId && messageType != 0 && totalSize != 0

/-- The update of a message that is there (roomSlice.ts:634-666). -/
def Message.progress (args : SetMessageArgs) (m : Message) : Message :=
  let m := if jsLength args.merkleRootHex = 128 ∧ m.merkleRootHex = "" then
      { m with merkleRootHex := args.merkleRootHex } else m
  let m := if args.totalSize > 0 ∧ m.totalSize ≠ args.totalSize then
      { m with totalSize := args.totalSize } else m
  let m := if args.chunkSize > 0 ∧ m.savedSize + args.chunkSize ≤ m.totalSize then
      { m with savedSize := m.savedSize + args.chunkSize } else m
  match args.chunksCreated with
  | some created =>
    if created ≠ 0 ∧ created ≤ m.totalChunks then { m with chunksCreated := created + 1 } else m
  | none => m

/-- `setMessage` (roomSlice.ts:554-668). -/
def setMessage (now : Nat) (args : SetMessageArgs) (room : Room) : Room :=
  let test := fun m : Message =>
    match args.transferId with
    | some _ => m.transferId == args.transferId
    | none => m.merkleRootHex == args.merkleRootHex ||
        (m.sha512Hex == args.sha512Hex && m.merkleRootHex == "")
  match findLastIdx? test room.messages with
  | none =>
    if completeEnough isUUID args.channelLabel args.fromPeerId args.messageType args.totalSize then
      { room with messages := room.messages ++ [args.message now] }
    else room
  | some i =>
    match room.messages[i]? with
    | none => room
    | some m =>
      if args.timestamp ≠ some m.timestamp ∧ m.sha512Hex = args.sha512Hex ∧ m.savedSize = m.totalSize then
        { room with messages := room.messages ++ [args.message now] }
      else { room with messages := room.messages.modify i (Message.progress args) }

/-- `SetMessageAllChunksArgs` (roomSlice.ts:98-110), less the room. -/
structure SetMessageAllChunksArgs where
  transferId : Option String
  merkleRootHex : String
  sha512Hex : String
  fromPeerId : String
  filename : String
  messageType : Nat
  totalSize : Nat
  channelLabel : String
  timestamp : Nat

/-- The message `setMessageAllChunks` pushes. -/
def SetMessageAllChunksArgs.message (args : SetMessageAllChunksArgs) : Message where
  transferId := args.transferId
  merkleRootHex := args.merkleRootHex
  sha512Hex := args.sha512Hex
  channelLabel := args.channelLabel
  filename := if args.filename = "" then "txt" else args.filename
  messageType := args.messageType
  fromPeerId := args.fromPeerId
  timestamp := args.timestamp
  savedSize := args.totalSize
  totalSize := args.totalSize
  chunksCreated := 0
  totalChunks := 0

/-- `setMessageAllChunks` (roomSlice.ts:670-746). -/
def setMessageAllChunks (args : SetMessageAllChunksArgs) (room : Room) : Room :=
  match findLastIdx? (fun m => m.merkleRootHex == args.merkleRootHex) room.messages with
  | none =>
    if completeEnough isUUID args.channelLabel args.fromPeerId args.messageType args.totalSize then
      { room with messages := room.messages ++ [args.message] }
    else room
  | some i =>
    match room.messages[i]? with
    | none => room
    | some m =>
      if m.timestamp < args.timestamp then { room with messages := room.messages ++ [args.message] }
      else { room with messages := room.messages.modify i fun m => { m with savedSize := args.totalSize } }

/-- A transfer id: 64 lower-case hex digits. -/
def isTransferId (s : String) : Bool := s.length == 64 && s.toList.all isHexDigit

/-- `deleteMessage` (roomSlice.ts:748-788) in its room; an empty selector counts as absent. -/
def deleteMessage (transferId merkleRootHex hashHex : Option String) (room : Room) : Room :=
  let transferId := transferId.filter (· ≠ "")
  let merkleRootHex := merkleRootHex.filter (· ≠ "")
  let hashHex := hashHex.filter (· ≠ "")
  if transferId.any (fun t => !isTransferId t) || merkleRootHex.any (fun m => jsLength m != 128) ||
      hashHex.any (fun h => jsLength h != 128) then room
  else
    match transferId, merkleRootHex, hashHex with
    | some t, _, _ =>
      let index := room.messages.findIdx fun m => m.transferId == some t
      { room with messages := room.messages.eraseIdx index }
    | none, some root, _ =>
      let index := room.messages.findIdx fun m => m.merkleRootHex == root
      { room with messages := room.messages.eraseIdx index }
    | none, none, some hash =>
      match findLastIdx? (fun m : Message => m.sha512Hex == hash) room.messages with
      | some i => { room with messages := room.messages.eraseIdx i }
      | none => room
    | none, none, none => room

/-- One more frame, or one more retransmission (roomSlice.ts:838-845). -/
def Message.counted (real retransmit : Bool) (m : Message) : Message :=
  if retransmit then { m with retransmits := some (m.retransmits.getD 0 + 1) }
  else
    { m with
      chunksReceivedTotal := some (m.chunksReceivedTotal.getD 0 + 1)
      chunksReceivedReal :=
        if real then some (m.chunksReceivedReal.getD 0 + 1) else m.chunksReceivedReal }

/-- `incrementMessageStats` (roomSlice.ts:821-846) in its room. -/
def incrementMessageStats (merkleRootHex sha512Hex : Option String) (real retransmit : Bool)
    (room : Room) : Room :=
  match findLastIdx? (fun m : Message => merkleRootHex == some m.merkleRootHex ||
      sha512Hex == some m.sha512Hex) room.messages with
  | none => room
  | some i => { room with messages := room.messages.modify i (Message.counted real retransmit) }

/-! ## Actions -/

/-- The actions of the slice. -/
inductive Action
  | setRoom (args : SetRoomArgs)
  | setRoomPolicy (roomContext : String) (policy : RoomPolicyV1)
  | setConnectingToPeers (roomId : String) (connectingToPeers : Bool)
  | setConnectedToPeers (roomId : String) (connectedToPeers : Bool)
  | setConnectionRelay (roomId : String) (canBeConnectionRelay : Bool)
  | setOnlyConnectWithKnownPeers (roomId : String) (onlyConnectWithKnownPeers : Bool)
  | setPeer (roomId peerId peerPublicKey : String)
  | setPeerCoverStatus (roomId peerId : String) (status : Cover.CoverSchedulerStatus)
  | setPeerHandshakeStatus (roomId peerId : String) (status : PeerHandshakeStatus)
  | setChannel (roomId label peerId : String)
  | setIceServers (roomId : String) (iceServers : List RTCIceServer)
  | setMessage (roomId : String) (args : SetMessageArgs)
  | setMessageAllChunks (roomId : String) (args : SetMessageAllChunksArgs)
  | incrementMessageStats (roomId : String) (merkleRootHex sha512Hex : Option String)
      (real retransmit : Bool)
  | deletePeer (peerId : String) (roomId : Option String)
  | deleteChannel (roomId peerId label : Option String)
  | deleteMessage (roomId : String) (transferId merkleRootHex hashHex : Option String)
  | deleteRoom (context : String)

/-- A change in every room, or in those of one id. -/
def onRooms (roomId : Option String) (change : Room → Room) (rooms : List Room) : List Room :=
  rooms.map fun r => if roomId.all (r.id == ·) then change r else r

/-- One reducer. -/
def reduce (ambient : Ambient) (rooms : List Room) : Action → Except JsError (List Room)
  | .setRoom args => setRoom isUUID ambient args rooms
  | .setRoomPolicy roomContext policy => setRoomPolicy roomContext policy rooms
  | .deleteRoom context => deleteRoom context rooms
  | .setConnectingToPeers roomId connectingToPeers =>
    .ok (onRoom roomId (fun r => { r with connectingToPeers }) rooms)
  | .setConnectedToPeers roomId connectedToPeers =>
    .ok (onRoom roomId (fun r => { r with connectingToPeers := false, connectedToPeers }) rooms)
  | .setConnectionRelay roomId canBeConnectionRelay =>
    .ok (onRoom roomId (fun r => { r with canBeConnectionRelay }) rooms)
  | .setOnlyConnectWithKnownPeers roomId onlyKnown =>
    .ok (onRoom roomId (fun r => { r with onlyConnectWithKnownAddresses := onlyKnown }) rooms)
  | .setPeer roomId peerId peerPublicKey => .ok (onRoom roomId (setPeer peerId peerPublicKey) rooms)
  | .setPeerCoverStatus roomId peerId status =>
    .ok (onRoom roomId (fun r => { r with
      coverStatusByPeer := some ((r.coverStatusByPeer.getD OrdMap.empty).set peerId status) }) rooms)
  | .setPeerHandshakeStatus roomId peerId status =>
    .ok (onRoom roomId (fun r => { r with
      handshakeStatusByPeer := some ((r.handshakeStatusByPeer.getD OrdMap.empty).set peerId status) }) rooms)
  | .setChannel roomId label peerId => .ok (onRoom roomId (setChannel label peerId) rooms)
  | .setIceServers roomId iceServers => .ok (onRoom roomId (setIceServers iceServers) rooms)
  | .setMessage roomId args => .ok (onRoom roomId (setMessage isUUID ambient.now args) rooms)
  | .setMessageAllChunks roomId args => .ok (onRoom roomId (setMessageAllChunks isUUID args) rooms)
  | .incrementMessageStats roomId merkleRootHex sha512Hex real retransmit =>
    .ok (onRoom roomId (incrementMessageStats merkleRootHex sha512Hex real retransmit) rooms)
  | .deletePeer peerId roomId => .ok (onRooms roomId (deletePeer peerId) rooms)
  | .deleteChannel roomId peerId label => .ok (onRooms roomId (deleteChannel peerId label) rooms)
  | .deleteMessage roomId transferId merkleRootHex hashHex =>
    .ok (onRoom roomId (deleteMessage transferId merkleRootHex hashHex) rooms)

/-- Dispatch an action: a reducer that throws changes nothing. -/
def dispatch (ambient : Ambient) (rooms : List Room) (action : Action) : List Room :=
  match reduce isUUID ambient rooms action with
  | .ok rooms => rooms
  | .error _ => rooms

/-! ## What the other reducers keep -/

/-- What identifies a room: its url, its id and its policy. -/
def Room.key (r : Room) : String × String × RoomPolicyV1 := (r.url, r.id, r.policy)

theorem updateFirst_key {test : Room → Bool} {change : Room → Room}
    (h : ∀ r, (change r).key = r.key) (rooms : List Room) :
    (updateFirst test change rooms).map Room.key = rooms.map Room.key := by
  induction rooms with
  | nil => rfl
  | cons r rooms ih =>
    rw [updateFirst]
    split
    · rw [List.map_cons, List.map_cons, h]
    · rw [List.map_cons, List.map_cons, ih]

theorem onRooms_key {roomId : Option String} {change : Room → Room}
    (h : ∀ r, (change r).key = r.key) (rooms : List Room) :
    (onRooms roomId change rooms).map Room.key = rooms.map Room.key := by
  unfold onRooms
  rw [List.map_map]
  refine List.map_congr_left fun r _ => ?_
  show (if _ then change r else r).key = r.key
  split
  · exact h r
  · rfl

theorem setPeer_key (peerId peerPublicKey : String) (r : Room) :
    (setPeer peerId peerPublicKey r).key = r.key := by
  unfold setPeer
  split <;> rfl

theorem setChannel_key (label peerId : String) (r : Room) :
    (setChannel label peerId r).key = r.key := by
  unfold setChannel
  split <;> rfl

theorem deleteChannel_key (peerId label : Option String) (r : Room) :
    (deleteChannel peerId label r).key = r.key := by
  unfold deleteChannel
  split
  · rfl
  · rfl
  · split <;> rfl
  · rfl

theorem setMessage_key (now : Nat) (args : SetMessageArgs) (r : Room) :
    (setMessage isUUID now args r).key = r.key := by
  unfold setMessage
  dsimp only
  split
  · split <;> rfl
  · split
    · rfl
    · split <;> rfl

theorem setMessageAllChunks_key (args : SetMessageAllChunksArgs) (r : Room) :
    (setMessageAllChunks isUUID args r).key = r.key := by
  unfold setMessageAllChunks
  split
  · split <;> rfl
  · split
    · rfl
    · split <;> rfl

theorem deleteMessage_key (transferId merkleRootHex hashHex : Option String) (r : Room) :
    (deleteMessage transferId merkleRootHex hashHex r).key = r.key := by
  unfold deleteMessage
  dsimp only
  split
  · rfl
  · split
    · rfl
    · rfl
    · split <;> rfl
    · rfl

theorem incrementMessageStats_key (merkleRootHex sha512Hex : Option String) (real retransmit : Bool)
    (r : Room) : (incrementMessageStats merkleRootHex sha512Hex real retransmit r).key = r.key := by
  unfold incrementMessageStats
  split <;> rfl

/-- The actions that touch the identity of a room. -/
def Action.touchesKey : Action → Bool
  | .setRoom _ => true
  | .setRoomPolicy _ _ => true
  | .deleteRoom _ => true
  | _ => false

/-- Every other action keeps the identity of every room. -/
theorem reduce_key {ambient : Ambient} {rooms : List Room} {action : Action}
    (h : action.touchesKey = false) :
    ∃ rooms', reduce isUUID ambient rooms action = .ok rooms' ∧
      rooms'.map Room.key = rooms.map Room.key := by
  cases action with
  | setRoom args => cases h
  | setRoomPolicy roomContext policy => cases h
  | deleteRoom context => cases h
  | setConnectingToPeers roomId _ => exact ⟨_, rfl, updateFirst_key (by intro r; rfl) rooms⟩
  | setConnectedToPeers roomId _ => exact ⟨_, rfl, updateFirst_key (by intro r; rfl) rooms⟩
  | setConnectionRelay roomId _ => exact ⟨_, rfl, updateFirst_key (by intro r; rfl) rooms⟩
  | setOnlyConnectWithKnownPeers roomId _ => exact ⟨_, rfl, updateFirst_key (by intro r; rfl) rooms⟩
  | setPeer roomId peerId key => exact ⟨_, rfl, updateFirst_key (setPeer_key peerId key) rooms⟩
  | setPeerCoverStatus roomId peerId _ => exact ⟨_, rfl, updateFirst_key (by intro r; rfl) rooms⟩
  | setPeerHandshakeStatus roomId peerId _ => exact ⟨_, rfl, updateFirst_key (by intro r; rfl) rooms⟩
  | setChannel roomId label peerId =>
    exact ⟨_, rfl, updateFirst_key (setChannel_key label peerId) rooms⟩
  | setIceServers roomId _ => exact ⟨_, rfl, updateFirst_key (by intro r; rfl) rooms⟩
  | setMessage roomId args =>
    exact ⟨_, rfl, updateFirst_key (setMessage_key isUUID ambient.now args) rooms⟩
  | setMessageAllChunks roomId args =>
    exact ⟨_, rfl, updateFirst_key (setMessageAllChunks_key isUUID args) rooms⟩
  | incrementMessageStats roomId root hash real retransmit =>
    exact ⟨_, rfl, updateFirst_key (incrementMessageStats_key root hash real retransmit) rooms⟩
  | deletePeer peerId roomId => exact ⟨_, rfl, onRooms_key (by intro r; rfl) rooms⟩
  | deleteChannel roomId peerId label =>
    exact ⟨_, rfl, onRooms_key (deleteChannel_key peerId label) rooms⟩
  | deleteMessage roomId transferId root hash =>
    exact ⟨_, rfl, updateFirst_key (deleteMessage_key transferId root hash) rooms⟩

end Rooms

end P2Party
