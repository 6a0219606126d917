import P2Party.Base.Exec
import P2Party.Base.HexUnits
import P2Party.Base.JsText
import P2Party.Cryptography.LibCrypto

/-!
# Labels of message channels (`utils/channelLabel.ts`)

The label of a message channel has the name of the channel and the Merkle root of the message,
both in hexadecimal: the name as 32 bytes of UTF-8 padded with zeros, the root as 64 bytes. A
label without a separator is the name of a plain channel.

The name goes through `TextEncoder` and `TextDecoder` on its way. The first replaces a surrogate
without its partner; the second drops a leading byte-order mark.

- `compileChannelMessageLabel`, `decompileChannelMessageLabel`: as in the source;
- `decompile_compile`: what a label is read back to;
- `labelOf_eq_iff`: which names and roots have the same label;
- `channel_label_round_trip`: exactly which names and roots come back.
-/

namespace P2Party

open Base JsString

/-! ## Hexadecimal strings (`utils/uint8array.ts`) -/

/-- `hexToUint8Array` (uint8array.ts:76-104). -/
def hexToUint8Array (hexString : JsString) : Except JsError Bytes := do
  let hexString := if hexString.take 2 = [0x30, 0x78] then hexString.drop 2 else hexString
  demand (hexString ≠ []) (.error "No hex characters in string")
  match hexString.find? fun unit => !isHexUnit unit with
  | some bad =>
    throw (.error ("Found non-hex characters " ++ String.ofList [single bad]))
  | none =>
    return hexPairs (if hexString.length % 2 ≠ 0 then 0x30 :: hexString else hexString)

/-- What `uint8ArrayToHex` writes is read back. -/
theorem hexToUint8Array_hexUnits {bs : Bytes} (h : bs ≠ []) :
    hexToUint8Array (hexUnits bs) = .ok bs := by
  have hmarker : ¬ (hexUnits bs).take 2 = [0x30, 0x78] := by
    intro htake
    have hmem : (0x78 : UInt16) ∈ hexUnits bs :=
      List.mem_of_mem_take (htake ▸ List.mem_cons_of_mem _ List.mem_cons_self)
    exact notMem_hexUnits (by decide) hmem
  have hlength := length_hexUnits bs
  have hne : hexUnits bs ≠ [] := by
    intro h0
    rw [h0, List.length_nil] at hlength
    exact h (List.eq_nil_of_length_eq_zero (by omega))
  have hfind : (hexUnits bs).find? (fun unit => !isHexUnit unit) = none := by
    refine List.find?_eq_none.mpr fun unit hunit => ?_
    rw [isHexUnit_of_lower (isLowerHexUnit_of_mem_hexUnits hunit)]
    decide
  have heven : ¬ (hexUnits bs).length % 2 ≠ 0 := by omega
  unfold hexToUint8Array
  rw [if_neg hmarker, demand_bind, if_pos hne, hfind]
  show Except.ok (hexPairs (if (hexUnits bs).length % 2 ≠ 0 then _ else _)) = _
  rw [if_neg heven, hexPairs_hexUnits]

/-! ## Labels -/

namespace ChannelLabel

/-- `LABEL_ELEMENTS`. -/
abbrev LABEL_ELEMENTS : Nat := 2

/-- `LABEL_SERIALIZED_LEN`: the name and the root. -/
abbrev LABEL_SERIALIZED_LEN : Nat := 32 + 64

/-- `LABEL_STRING_LEN`. -/
abbrev LABEL_STRING_LEN : Nat := LABEL_SERIALIZED_LEN * 2 + 1

/-- `LABEL_ELEMENTS_SEPARATOR`, which is `~`. -/
abbrev LABEL_ELEMENTS_SEPARATOR : UInt16 := 0x7e

/-- `crypto_hash_sha512_BYTES`. -/
abbrev crypto_hash_sha512_BYTES : Nat := 64

/-- `merkleRoot: string | Uint8Array`. -/
inductive MerkleRoot
  | hex (string : JsString)
  | bytes (array : Bytes)

/-- `/^[0-9a-f]{128}$/`. -/
def isRootHex (string : JsString) : Bool := string.length == 128 && string.all isLowerHexUnit

/-- `compileChannelMessageLabel` (channelLabel.ts:16-81). -/
def compileChannelMessageLabel (channelLabel : JsString) (merkleRoot : MerkleRoot) :
    Except JsError JsString := do
  let nameBytes := encode channelLabel
  demand (¬ (nameBytes.length ≤ 0 ∨ nameBytes.length > 32))
    (.error "Channel label must be between 1 and 32 UTF-8 bytes")
  match merkleRoot with
  | .hex string =>
    demand (isRootHex string = true)
      (.error "Merkle root hex should be 128 canonical lowercase characters")
  | .bytes array =>
    demand (array.length = crypto_hash_sha512_BYTES) (.error "Merkle root should be 64 bytes")
  let namePadded := LibCrypto.pad 32 nameBytes
  let label := hexUnits namePadded ++ [LABEL_ELEMENTS_SEPARATOR]
  match merkleRoot with
  | .hex string => return label ++ string
  | .bytes array => return label ++ hexUnits array

/-- What `decompileChannelMessageLabel` resolves to. -/
structure DecompiledLabel where
  channelLabel : JsString
  merkleRootHex : JsString
  merkleRoot : Bytes
deriving DecidableEq

/-- `/^[0-9a-f]{64}~[0-9a-f]{128}$/`. -/
def isCanonicalLabel (label : JsString) : Bool :=
  label.length == 193 && (label.take 64).all isLowerHexUnit &&
    label[64]? == some LABEL_ELEMENTS_SEPARATOR && (label.drop 65).all isLowerHexUnit

/-- `decompileChannelMessageLabel` (channelLabel.ts:83-145). -/
def decompileChannelMessageLabel (channelMessageLabel : JsString) : Except JsError DecompiledLabel := do
  let split := channelMessageLabel.splitOn LABEL_ELEMENTS_SEPARATOR
  if split.length = 1 then return ⟨channelMessageLabel, [], []⟩
  demand (¬ (split.length ≠ LABEL_ELEMENTS ∨ channelMessageLabel.length ≠ LABEL_STRING_LEN))
    (.error s!"Channel message label needs exactly {LABEL_ELEMENTS} bounded components.")
  demand (isCanonicalLabel channelMessageLabel = true)
    (.error "Channel message label must use canonical lowercase hex")
  let channelLabelUint8 ← hexToUint8Array (split.getD 0 [])
  demand (channelLabelUint8.length = 32) (.error "Channel label is not 32 bytes long.")
  let channelLabel := dropTrailing (decode channelLabelUint8)
  let merkleRoot ← hexToUint8Array (split.getD 1 [])
  demand (merkleRoot.length = crypto_hash_sha512_BYTES) (.error "Merkle root has invalid length")
  return ⟨channelLabel, split.getD 1 [], merkleRoot⟩

/-! ## Compiled labels -/

/-- The label of a name and a root. -/
def labelOf (name : JsString) (root : Bytes) : JsString :=
  hexUnits (LibCrypto.pad 32 (encode name)) ++ LABEL_ELEMENTS_SEPARATOR :: hexUnits root

/-- A name of 1 to 32 bytes of UTF-8 that does not end with a zero. -/
structure ChannelName (name : JsString) : Prop where
  nonempty : 1 ≤ (encode name).length
  fits : (encode name).length ≤ 32
  last : name.getLast? ≠ some 0

variable {name name' : JsString} {root root' : Bytes}

theorem isRootHex_hexUnits (hroot : root.length = 64) : isRootHex (hexUnits root) = true := by
  rw [isRootHex, Bool.and_eq_true, beq_iff_eq, length_hexUnits, hroot, List.all_eq_true]
  exact ⟨rfl, fun unit hunit => isLowerHexUnit_of_mem_hexUnits hunit⟩

/-- A root gives the same label as bytes and in hexadecimal. -/
theorem compile_eq (hname : ChannelName name) (hroot : root.length = 64) :
    compileChannelMessageLabel name (.bytes root) = .ok (labelOf name root) ∧
      compileChannelMessageLabel name (.hex (hexUnits root)) = .ok (labelOf name root) := by
  have hsize : ¬ ((encode name).length ≤ 0 ∨ (encode name).length > 32) := by
    have := hname.nonempty
    have := hname.fits
    omega
  constructor
  · unfold compileChannelMessageLabel
    rw [demand_bind, if_pos hsize]
    dsimp only
    rw [demand_bind, if_pos hroot]
    exact congrArg Except.ok (List.append_assoc _ _ _)
  · unfold compileChannelMessageLabel
    rw [demand_bind, if_pos hsize]
    dsimp only
    rw [demand_bind, if_pos (isRootHex_hexUnits hroot)]
    exact congrArg Except.ok (List.append_assoc _ _ _)

theorem length_labelOf (hroot : root.length = 64) : (labelOf name root).length = LABEL_STRING_LEN := by
  rw [labelOf, List.length_append, List.length_cons, length_hexUnits, length_hexUnits,
    LibCrypto.length_pad, hroot]
  rfl

theorem splitOn_labelOf (name : JsString) (root : Bytes) :
    (labelOf name root).splitOn LABEL_ELEMENTS_SEPARATOR =
      [hexUnits (LibCrypto.pad 32 (encode name)), hexUnits root] := by
  have hsep : ∀ bs : Bytes, LABEL_ELEMENTS_SEPARATOR ∉ hexUnits bs :=
    fun bs => notMem_hexUnits (by decide)
  rw [labelOf, List.splitOn_append_cons_self, List.splitOn_eq_singleton (hsep _),
    List.splitOn_eq_singleton (hsep _)]
  rfl

theorem isCanonicalLabel_labelOf (hroot : root.length = 64) :
    isCanonicalLabel (labelOf name root) = true := by
  have hfirst : (hexUnits (LibCrypto.pad 32 (encode name))).length = 64 := by
    rw [length_hexUnits, LibCrypto.length_pad]
  have hlower : ∀ bs : Bytes, (hexUnits bs).all isLowerHexUnit = true := fun bs =>
    List.all_eq_true.mpr fun unit hunit => isLowerHexUnit_of_mem_hexUnits hunit
  have htake : (labelOf name root).take 64 = hexUnits (LibCrypto.pad 32 (encode name)) :=
    List.take_left' hfirst
  have hdrop : (labelOf name root).drop 64 = LABEL_ELEMENTS_SEPARATOR :: hexUnits root :=
    List.drop_left' hfirst
  have hsep : (labelOf name root)[64]? = some LABEL_ELEMENTS_SEPARATOR := by
    rw [← List.head?_drop, hdrop]
    rfl
  have hrest : (labelOf name root).drop 65 = hexUnits root := by
    rw [← List.tail_drop, hdrop]
    rfl
  rw [isCanonicalLabel, length_labelOf hroot, htake, hsep, hrest, hlower, hlower]
  rfl

/-- The name that is read back. -/
def readName (name : JsString) : JsString :=
  dropTrailing (if name.head? = some markUnit then (toWellFormed name).tail else toWellFormed name)

theorem ne_nil_of_name (hname : ChannelName name) : name ≠ [] := by
  rintro rfl
  exact absurd hname.nonempty (by decide)

theorem pad_name (hname : ChannelName name) : LibCrypto.pad 32 (encode name) =
    encode name ++ List.replicate (32 - (encode name).length) 0 := by
  rw [LibCrypto.pad, List.take_append, List.take_of_length_le hname.fits, List.take_replicate,
    Nat.min_eq_left (Nat.sub_le _ _)]

/-- What a label is read back to. -/
theorem decompile_compile (hname : ChannelName name) (hroot : root.length = 64) :
    decompileChannelMessageLabel (labelOf name root) = .ok ⟨readName name, hexUnits root, root⟩ := by
  have hne : LibCrypto.pad 32 (encode name) ≠ [] := fun h0 => by
    have := LibCrypto.length_pad 32 (encode name)
    rw [h0] at this
    cases this
  have hrootne : root ≠ [] := by
    rintro rfl
    cases hroot
  have hread : dropTrailing (decode (LibCrypto.pad 32 (encode name))) = readName name := by
    rw [pad_name hname, decode_encode_zeros (ne_nil_of_name hname), dropTrailing_zeros]
    rfl
  have hsplit := splitOn_labelOf name root
  have hone : ¬ ((labelOf name root).splitOn LABEL_ELEMENTS_SEPARATOR).length = 1 := by
    rw [hsplit]
    exact Nat.succ_ne_self 1
  have hshape : ¬ (((labelOf name root).splitOn LABEL_ELEMENTS_SEPARATOR).length ≠ LABEL_ELEMENTS ∨
      (labelOf name root).length ≠ LABEL_STRING_LEN) := by
    rw [hsplit, length_labelOf hroot]
    exact not_or.mpr ⟨not_not.mpr rfl, not_not.mpr rfl⟩
  have hfirst : hexToUint8Array (((labelOf name root).splitOn LABEL_ELEMENTS_SEPARATOR).getD 0 []) =
      .ok (LibCrypto.pad 32 (encode name)) := by
    rw [hsplit]
    exact hexToUint8Array_hexUnits hne
  have hrootHex : ((labelOf name root).splitOn LABEL_ELEMENTS_SEPARATOR).getD 1 [] = hexUnits root := by
    rw [hsplit]
    rfl
  unfold decompileChannelMessageLabel
  rw [if_neg hone, demand_bind, if_pos hshape, demand_bind, if_pos (isCanonicalLabel_labelOf hroot),
    hfirst, ok_bind, demand_bind, if_pos (LibCrypto.length_pad 32 _), hrootHex,
    hexToUint8Array_hexUnits hrootne, ok_bind, demand_bind, if_pos hroot, hread]
  rfl

/-- A name comes back when it is text and does not begin with a byte-order mark. -/
theorem readName_eq_iff (hname : ChannelName name) :
    readName name = name ↔ isWellFormed name = true ∧ name.head? ≠ some markUnit := by
  by_cases hmark : name.head? = some markUnit
  · constructor
    · intro h
      have hshort : (readName name).length ≤ (toWellFormed name).tail.length := by
        rw [readName, if_pos hmark]
        exact length_dropTrailing_le _
      have hpos := List.length_pos_iff.mpr (ne_nil_of_name hname)
      rw [h, List.length_tail, length_toWellFormed] at hshort
      omega
    · intro h
      exact absurd hmark h.2
  · have hlast : (toWellFormed name).getLast? ≠ some 0 :=
      fun h => hname.last ((getLast?_toWellFormed name).mp h)
    rw [readName, if_neg hmark, dropTrailing_of_getLast? hlast, toWellFormed_eq_self_iff]
    exact ⟨fun h => ⟨h, hmark⟩, fun h => h.1⟩

/-- Names and roots with the same label. -/
theorem labelOf_eq_iff (hname : ChannelName name) (hname' : ChannelName name') :
    labelOf name root = labelOf name' root' ↔
      toWellFormed name = toWellFormed name' ∧ root = root' := by
  constructor
  · intro h
    obtain ⟨hnames, hroots⟩ := List.append_inj h (by
      rw [length_hexUnits, length_hexUnits, LibCrypto.length_pad, LibCrypto.length_pad])
    refine ⟨?_, hexUnits_injective (List.cons.inj hroots).2⟩
    have hpad := hexUnits_injective hnames
    rw [pad_name hname, pad_name hname'] at hpad
    have hlast : ∀ {n : JsString}, ChannelName n → (toWellFormed n).getLast? ≠ some 0 :=
      fun hn h0 => hn.last ((getLast?_toWellFormed _).mp h0)
    have htext := congrArg dropTrailing (toWellFormed_of_encode hpad)
    rwa [dropTrailing_zeros, dropTrailing_zeros, dropTrailing_of_getLast? (hlast hname),
      dropTrailing_of_getLast? (hlast hname')] at htext
  · rintro ⟨hnames, rfl⟩
    rw [labelOf, labelOf, ← encode_toWellFormed name, hnames, encode_toWellFormed]

/-- **A name and a root come back from their label, which no other name and root have, exactly when
the name is text and does not begin with a byte-order mark, and the other name is not the same
text.** Labels have one length. -/
theorem channel_label_round_trip (hname : ChannelName name) (hroot : root.length = 64)
    (hname' : ChannelName name') (hroot' : root'.length = 64) :
    ∃ label label', compileChannelMessageLabel name (.bytes root) = .ok label ∧
      compileChannelMessageLabel name (.hex (hexUnits root)) = .ok label ∧
      compileChannelMessageLabel name' (.bytes root') = .ok label' ∧
      label.length = LABEL_STRING_LEN ∧
      ((decompileChannelMessageLabel label = .ok ⟨name, hexUnits root, root⟩ ∧
          (label = label' → name = name' ∧ root = root')) ↔
        isWellFormed name = true ∧ name.head? ≠ some markUnit ∧
          (root = root' → toWellFormed name' = name → name' = name)) := by
  obtain ⟨hcompile, hhex⟩ := compile_eq hname hroot
  refine ⟨labelOf name root, labelOf name' root', hcompile, hhex, (compile_eq hname' hroot').1,
    length_labelOf hroot, ?_⟩
  have hback : decompileChannelMessageLabel (labelOf name root) = .ok ⟨name, hexUnits root, root⟩ ↔
      isWellFormed name = true ∧ name.head? ≠ some markUnit := by
    rw [decompile_compile hname hroot, ← readName_eq_iff hname]
    simp
  rw [hback, labelOf_eq_iff hname hname', and_assoc]
  refine and_congr_right fun htext => and_congr_right fun _ => ?_
  rw [toWellFormed_eq_self_iff.mpr htext]
  constructor
  · intro h hroots hnames
    exact (h ⟨hnames.symm, hroots⟩).1.symm
  · rintro h ⟨hnames, hroots⟩
    exact ⟨(h hroots hnames.symm).symm, hroots⟩

/-- The names `chat` and `file`. -/
theorem channel_label_round_trip_chat :
    ∃ label label',
      compileChannelMessageLabel [0x63, 0x68, 0x61, 0x74] (.bytes (List.replicate 64 1)) = .ok label ∧
      compileChannelMessageLabel [0x63, 0x68, 0x61, 0x74] (.hex (hexUnits (List.replicate 64 1))) =
        .ok label ∧
      compileChannelMessageLabel [0x66, 0x69, 0x6c, 0x65] (.bytes (List.replicate 64 1)) = .ok label' ∧
      label.length = LABEL_STRING_LEN ∧
      ((decompileChannelMessageLabel label =
          .ok ⟨[0x63, 0x68, 0x61, 0x74], hexUnits (List.replicate 64 1), List.replicate 64 1⟩ ∧
          (label = label' → ([0x63, 0x68, 0x61, 0x74] : JsString) = [0x66, 0x69, 0x6c, 0x65] ∧
            List.replicate 64 (1 : UInt8) = List.replicate 64 1)) ↔
        isWellFormed [0x63, 0x68, 0x61, 0x74] = true ∧
          List.head? ([0x63, 0x68, 0x61, 0x74] : JsString) ≠ some markUnit ∧
          (List.replicate 64 (1 : UInt8) = List.replicate 64 1 →
            toWellFormed [0x66, 0x69, 0x6c, 0x65] = [0x63, 0x68, 0x61, 0x74] →
              ([0x66, 0x69, 0x6c, 0x65] : JsString) = [0x63, 0x68, 0x61, 0x74])) :=
  channel_label_round_trip ⟨by decide +kernel, by decide +kernel, by decide⟩ List.length_replicate
    ⟨by decide +kernel, by decide +kernel, by decide⟩ List.length_replicate

/-- A name that begins with a byte-order mark comes back without it. -/
theorem channel_label_loses_mark :
    ChannelName [0xfeff, 0x61] ∧ ∃ label,
      compileChannelMessageLabel [0xfeff, 0x61] (.bytes (List.replicate 64 0)) = .ok label ∧
      decompileChannelMessageLabel label =
        .ok ⟨[0x61], hexUnits (List.replicate 64 0), List.replicate 64 0⟩ ∧
      ([0x61] : JsString) ≠ [0xfeff, 0x61] := by
  have hname : ChannelName [0xfeff, 0x61] := ⟨by decide +kernel, by decide +kernel, by decide⟩
  have hread : readName [0xfeff, 0x61] = [0x61] := by decide
  refine ⟨hname, labelOf [0xfeff, 0x61] (List.replicate 64 0),
    (compile_eq hname List.length_replicate).1, ?_, by decide⟩
  rw [decompile_compile hname List.length_replicate, hread]

end ChannelLabel

end P2Party
