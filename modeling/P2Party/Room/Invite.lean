import P2Party.Base.Exec
import P2Party.Base.HexUnits
import P2Party.Base.Regroup
import P2Party.Cryptography.LibCrypto
import P2Party.Room.Wordlist
import Mathlib.Data.List.DropRight

/-!
# Room capabilities (`roomInvite.ts`)

A room capability is 32 random bytes. It is written as unpadded base64url, as a versioned fragment
around that, as hexadecimal digits, or as 24 words of 11 bits each, the last of them with a checksum.

`normalize` is `String.prototype.normalize("NFKD")` and `toLowerCase` is
`String.prototype.toLowerCase`; both need tables of all of Unicode and are parameters.

- `encodeRoomCapabilityBase64Url`, `decodeRoomCapabilityBase64Url`;
- `encodeRoomInviteFragment`, `decodeRoomInviteFragment`, `decodeRoomCapability`;
- `encodeRoomCapabilityWords`, `decodeRoomCapabilityWords`.
-/

namespace P2Party

open Base

namespace RoomInvite

/-- `ROOM_CAPABILITY_BYTES` (roomInvite.ts:3). -/
abbrev ROOM_CAPABILITY_BYTES : Nat := 32

/-- `ROOM_CAPABILITY_HEX_CHARS` (roomInvite.ts:4). -/
abbrev ROOM_CAPABILITY_HEX_CHARS : Nat := ROOM_CAPABILITY_BYTES * 2

/-- `ROOM_INVITE_WORDS` (roomInvite.ts:6). -/
abbrev ROOM_INVITE_WORDS : Nat := 24

/-- `ROOM_INVITE_PREFIX` (roomInvite.ts:8): `v1.`. -/
def ROOM_INVITE_PREFIX : JsString := [0x76, 0x31, 0x2e]

/-- `BASE64URL_ALPHABET` (roomInvite.ts:11-12). -/
def BASE64URL_ALPHABET : JsString :=
  (textEncode "ABCDEFGHIJKLMNOPQRSTUVWXYZabcdefghijklmnopqrstuvwxyz0123456789-_").map UInt8.toUInt16

/-- `CHECKSUM_DOMAIN` (roomInvite.ts:15-17). -/
def CHECKSUM_DOMAIN : Bytes := textEncode "p2party/room-invite/checksum/v1" ++ [0]

/-- `requireCapability` (roomInvite.ts:26-32). -/
def requireCapability (capability : Bytes) : Except JsError Bytes := do
  demand (capability.length = ROOM_CAPABILITY_BYTES) (.error "Room capability must be exactly 32 bytes")
  return capability

/-! ## Hexadecimal -/

/-- `bytesToHex` (roomInvite.ts:44-48). -/
def bytesToHex (bytes : Bytes) : JsString := hexUnits bytes

/-- `HEX_PATTERN` (roomInvite.ts:13). -/
def HEX_PATTERN (hex : JsString) : Bool :=
  decide (hex.length = ROOM_CAPABILITY_HEX_CHARS) && hex.all isHexUnit

/-- `hexToBytes` (roomInvite.ts:50-57). -/
def hexToBytes (hex : JsString) : Except JsError Bytes := do
  demand (HEX_PATTERN hex = true) (.error "Room capability hex must contain exactly 64 hex digits")
  return hexPairs hex

/-! ## Base64url -/

/-- Three bytes in a number (roomInvite.ts:69-72). -/
def chunkOf (first second third : Nat) : Nat := first <<< 16 ||| second <<< 8 ||| third

/-- The indices into the alphabet, three bytes at a time (roomInvite.ts:67-77). -/
def sextets : Bytes → List Nat
  | [] => []
  | [first] =>
    let chunk := chunkOf first.toNat 0 0
    [(chunk >>> 18) &&& 0x3f, (chunk >>> 12) &&& 0x3f]
  | [first, second] =>
    let chunk := chunkOf first.toNat second.toNat 0
    [(chunk >>> 18) &&& 0x3f, (chunk >>> 12) &&& 0x3f, (chunk >>> 6) &&& 0x3f]
  | first :: second :: third :: rest =>
    let chunk := chunkOf first.toNat second.toNat third.toNat
    [(chunk >>> 18) &&& 0x3f, (chunk >>> 12) &&& 0x3f, (chunk >>> 6) &&& 0x3f, chunk &&& 0x3f] ++
      sextets rest

/-- `BASE64URL_ALPHABET[index]`. -/
def alphabetAt (index : Nat) : UInt16 := BASE64URL_ALPHABET.getD index 0

/-- `encodeRoomCapabilityBase64Url` (roomInvite.ts:62-79). -/
def encodeRoomCapabilityBase64Url (capability : Bytes) : Except JsError JsString := do
  let bytes ← requireCapability capability
  return (sextets bytes).map alphabetAt

/-- A unit in `[A-Za-z0-9_-]`. -/
def isBase64Url (unit : UInt16) : Bool :=
  decide (0x41 ≤ unit.toNat ∧ unit.toNat ≤ 0x5a ∨ 0x61 ≤ unit.toNat ∧ unit.toNat ≤ 0x7a ∨
    0x30 ≤ unit.toNat ∧ unit.toNat ≤ 0x39 ∨ unit.toNat = 0x5f ∨ unit.toNat = 0x2d)

/-- `BASE64URL_PATTERN` (roomInvite.ts:14). -/
def BASE64URL_PATTERN (encoded : JsString) : Bool :=
  decide (encoded.length = 43) && encoded.all isBase64Url

/-- `decodeRoomCapabilityBase64Url` (roomInvite.ts:81-114). -/
def decodeRoomCapabilityBase64Url (encoded : JsString) : Except JsError Bytes := do
  demand (BASE64URL_PATTERN encoded = true)
    (.error "Room capability must be exactly 43 unpadded base64url characters")
  let finalValue := BASE64URL_ALPHABET.idxOf (encoded.getLast?.getD 0)
  demand (finalValue &&& 0x03 = 0) (.error "Room capability base64url encoding is not canonical")
  let regrouped := regroup 6 8 (encoded.map fun character => BASE64URL_ALPHABET.idxOf character)
  let output := regrouped.output.map UInt8.ofNat
  demand (output.length = ROOM_CAPABILITY_BYTES ∧
      encodeRoomCapabilityBase64Url output = .ok encoded)
    (.error "Room capability base64url encoding is not canonical")
  return output

/-! ## Fragments -/

/-- `encodeRoomInviteFragment` (roomInvite.ts:134-135). -/
def encodeRoomInviteFragment (capability : Bytes) : Except JsError JsString := do
  let encoded ← encodeRoomCapabilityBase64Url capability
  return ROOM_INVITE_PREFIX ++ encoded

/-- `decodeRoomInviteFragment` (roomInvite.ts:137-146). -/
def decodeRoomInviteFragment (fragment : JsString) : Except JsError Bytes := do
  let withoutHash := if fragment.head? = some 0x23 then fragment.drop 1 else fragment
  demand (ROOM_INVITE_PREFIX.isPrefixOf withoutHash = true) (.error "Unsupported room invite version")
  decodeRoomCapabilityBase64Url (withoutHash.drop ROOM_INVITE_PREFIX.length)

/-- `decodeRoomCapability` (roomInvite.ts:117-128). -/
def decodeRoomCapability (encoded : JsString) : Except JsError Bytes :=
  if ROOM_INVITE_PREFIX.isPrefixOf encoded = true ∨ (0x23 :: ROOM_INVITE_PREFIX).isPrefixOf encoded = true then
    decodeRoomInviteFragment encoded
  else if encoded.length = ROOM_CAPABILITY_HEX_CHARS then hexToBytes encoded
  else decodeRoomCapabilityBase64Url encoded

/-! ## Words -/

/-- White space and line ends, the units of `\s` and of `trim`. -/
def isSpace (unit : UInt16) : Bool :=
  decide (0x09 ≤ unit.toNat ∧ unit.toNat ≤ 0x0d ∨ 0x2000 ≤ unit.toNat ∧ unit.toNat ≤ 0x200a) ||
    [0x20, 0xa0, 0x1680, 0x2028, 0x2029, 0x202f, 0x205f, 0x3000, 0xfeff].elem unit.toNat

/-- `trim`. -/
def trim (text : JsString) : JsString := (text.dropWhile isSpace).rdropWhile isSpace

/-- A unit before the first of the parts. -/
def consFirst (unit : UInt16) : List JsString → List JsString
  | [] => [[unit]]
  | first :: rest => (unit :: first) :: rest

/-- `split(/\s+/u)`; the flag says whether a separator has begun. -/
def splitSpaces : Bool → JsString → List JsString
  | _, [] => [[]]
  | separator, unit :: rest =>
    if isSpace unit = true then
      if separator = true then splitSpaces true rest else [] :: splitSpaces true rest
    else consFirst unit (splitSpaces false rest)

/-- `join(" ")`. -/
def joinSpaces : List JsString → JsString
  | [] => []
  | [word] => word
  | word :: words => word ++ 0x20 :: joinSpaces words

/-- `bytesToWordIndexes` (roomInvite.ts:156-172). -/
def bytesToWordIndexes (bytes : Bytes) : Except JsError (List Nat) := do
  let regrouped := regroup 8 11 (bytes.map UInt8.toNat)
  demand (regrouped.availableBits = 0) (.error "Room invite word encoding is not byte-aligned")
  return regrouped.output

/-- `wordIndexesToBytes` (roomInvite.ts:174-192). -/
def wordIndexesToBytes (indexes : List Nat) : Except JsError Bytes := do
  let regrouped := regroup 11 8 indexes
  demand (regrouped.availableBits = 0 ∧ regrouped.output.length = ROOM_CAPABILITY_BYTES + 1)
    (.error "Room invite word encoding is not canonical")
  return regrouped.output.map UInt8.ofNat

/-- `wordlist[index]`. -/
def wordAt (index : Nat) : JsString := wordlist.getD index []

/-- `wordIndexes.get(word)` (roomInvite.ts:22-24), or the error for a word that is not listed. -/
def wordIndex (word : JsString) : Except JsError Nat :=
  match wordlist.idxOf? word with
  | some index => .ok index
  | none => .error (.error ("Unknown room invite word: " ++ String.ofList (JsString.scalarValues word)))

section

variable (sha256 : Bytes → Bytes) (normalize toLowerCase : JsString → JsString)

/-- `roomInviteChecksum` (roomInvite.ts:148-154). -/
def roomInviteChecksum (capability : Bytes) : UInt8 := (sha256 (CHECKSUM_DOMAIN ++ capability)).headD 0

/-- `encodeRoomCapabilityWords` (roomInvite.ts:194-205). -/
def encodeRoomCapabilityWords (capability : Bytes) : Except JsError JsString := do
  let bytes ← requireCapability capability
  let indexes ← bytesToWordIndexes (bytes ++ [roomInviteChecksum sha256 bytes])
  demand (indexes.length = ROOM_INVITE_WORDS)
    (.error "Room invite word encoding has an unexpected length")
  return joinSpaces (indexes.map wordAt)

/-- The words of a text (roomInvite.ts:212-213). -/
def wordsOf (encoded : JsString) : List JsString :=
  let normalized := toLowerCase (trim (normalize encoded))
  if normalized.length = 0 then [] else splitSpaces false normalized

/-- `decodeRoomCapabilityWords` (roomInvite.ts:207-227). -/
def decodeRoomCapabilityWords (encoded : JsString) : Except JsError Bytes := do
  let words := wordsOf normalize toLowerCase encoded
  demand (words.length = ROOM_INVITE_WORDS) (.error "Room invite must contain exactly 24 words")
  let indexes ← words.mapM wordIndex
  let decoded ← wordIndexesToBytes indexes
  let capability := decoded.take ROOM_CAPABILITY_BYTES
  demand (decoded.getD ROOM_CAPABILITY_BYTES 0 = roomInviteChecksum sha256 capability)
    (.error "Room invite checksum is invalid")
  return capability

end

end RoomInvite

end P2Party
