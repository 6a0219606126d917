import P2Party.Base.BitText
import P2Party.Messages.Merkle
import P2Party.Room.InviteCodec
import Mathlib.Tactic.IntervalCases

/-!
# Mnemonics (`cryptography/mnemonic.ts`)

Entropy is written in words: its bits and behind them a few bits of its hash, eleven for a word. A
mnemonic is valid when the bits of its words are so divided.

`normalize` is `String.prototype.normalize("NFKD")` and `digest` is SHA-512; of the first only that it
leaves ASCII as it is is needed, of the second the length of a hash.

- `Spells`: words that spell entropy;
- `spells_of_generateMnemonic`: those that are generated do;
- `validateMnemonic_iff`: those that are accepted are those that do;
- `Spells.unique`: no words spell two entropies;
- `mnemonic_checksum`: all together.
-/

namespace P2Party

open Base

namespace Mnemonic

open RoomInvite

/-! ## The code -/

/-- The strengths there are (mnemonic.ts:128). -/
def STRENGTHS : List ℕ := [128, 160, 192, 224, 256, 288, 320, 352, 384, 416, 448, 480, 512]

/-- `bytes.reduce((str, byte) => str + byte.toString(2).padStart(8, "0"), "")`. -/
def bytesText (bytes : Bytes) : List Char :=
  bytes.foldl (fun str byte => str ++ binaryText 8 byte.toNat) []

/-- `bits.match(/(.{1,width})/g)`, whose elements are then mapped: `null` has none. -/
def matchPieces (width : ℕ) (bits : List Char) : Except JsError (List (List Char)) :=
  if bits = [] then .error (.typeError "Cannot read properties of null (reading 'map')")
  else .ok (pieces width bits)

/-- The bits of a word (mnemonic.ts:173-181). -/
def wordText (word : JsString) : Except JsError (List Char) :=
  match wordlist.idxOf? word with
  | none => .error (.error "Could not find word in wordlist.")
  | some index => .ok (binaryText 11 index)

section

variable (normalize : JsString → JsString) (digest : Bytes → Bytes)

/-- `generateMnemonic` (mnemonic.ts:107-163), with the entropy that is drawn. -/
def generateMnemonic (strength : ℕ) (entropy : RandomBytes (strength / 8)) : Except JsError JsString := do
  demand (strength % 32 = 0) (.typeError "Mnemonic strength needs to be multiple of 32.")
  demand (strength ∈ STRENGTHS) (.error "Wrong mnemonic strength")
  let entropyBits := bytesText entropy.val
  let CS := strength / 32
  let checksumBits := (bytesText (digest entropy.val)).take CS
  let bits := entropyBits ++ checksumBits
  let chunks ← matchPieces 11 bits
  let words := chunks.map fun binary => wordAt (parseBinary binary)
  return joinSpaces words

/-- `mnemonicToEntropy` (mnemonic.ts:165-221). -/
def mnemonicToEntropy (mnemonic : JsString) : Except JsError Bool := do
  let words := (normalize mnemonic).splitOn 0x20
  demand (words.length % 3 = 0) (.error "Number of words in mnemonic must be multiple of three.")
  let texts ← words.mapM wordText
  let bits := texts.flatten
  let dividerIndex := bits.length / 33 * 32
  let entropyBits := bits.take dividerIndex
  let checksumBits := bits.drop dividerIndex
  let entropyBitsMatched ← matchPieces 8 entropyBits
  let entropy := entropyBitsMatched.map parseBinary
  demand (¬entropy.length < 16) (.error "Entropy length too small (less than 128 bits).")
  demand (¬entropy.length > 64) (.error "Entropy length too large (more than 512 bits).")
  let CS := entropy.length / 4
  let entropyArray := entropy.map UInt8.ofNat
  let newChecksum := (bytesText (digest entropyArray)).take CS
  demand (¬newChecksum ≠ checksumBits) (.error "Invalid checksum.")
  return true

/-- `validateMnemonic` (mnemonic.ts:223-229). -/
def validateMnemonic (mnemonic : JsString) : Bool :=
  match mnemonicToEntropy normalize digest mnemonic with
  | .ok valid => valid
  | .error _ => false

/-! ## What a mnemonic says -/

/-- The bits of bytes. -/
def bitsOfBytes (bytes : Bytes) : List Bool := bytes.flatMap fun byte => bitsOf 8 byte.toNat

/-- Listed words whose bits are those of entropy of a strength that there is, and behind them the
first bits of its hash. -/
structure Spells (words : List JsString) (entropy : Bytes) : Prop where
  strength : entropy.length * 8 ∈ STRENGTHS
  listed : ∀ word ∈ words, word ∈ wordlist
  bits : (words.flatMap fun word => bitsOf 11 (wordlist.idxOf word)) =
    bitsOfBytes entropy ++ (bitsOfBytes (digest entropy)).take (entropy.length / 4)

end

/-! ## Texts are bits -/

theorem bytesText_eq (bytes : Bytes) : bytesText bytes = (bitsOfBytes bytes).map bitChar := by
  have hloop : ∀ str : List Char,
      bytes.foldl (fun str byte => str ++ binaryText 8 byte.toNat) str =
        str ++ (bitsOfBytes bytes).map bitChar := by
    induction bytes with
    | nil =>
      intro str
      exact (List.append_nil str).symm
    | cons byte bytes ih =>
      intro str
      rw [List.foldl_cons, ih, binaryText_eq (by decide) byte.toNat_lt, List.append_assoc, ← List.map_append]
      rfl
  exact hloop []

@[simp] theorem length_bitsOfBytes (bytes : Bytes) : (bitsOfBytes bytes).length = 8 * bytes.length :=
  length_flatMap_bitsOf 8 UInt8.toNat bytes

theorem bitsOfBytes_inj {a b : Bytes} (hlength : a.length = b.length) (h : bitsOfBytes a = bitsOfBytes b) :
    a = b :=
  flatMap_bitsOf_inj hlength (fun _ _ => UInt8.toNat_inj.mp) (fun x => x.toNat_lt) h

/-- Bits in eights are those of bytes. -/
theorem exists_bitsOfBytes (count : ℕ) {bits : List Bool} (h : bits.length = 8 * count) :
    ∃ bytes : Bytes, bytes.length = count ∧ bitsOfBytes bytes = bits := by
  obtain ⟨parts, hcount, hparts, rfl⟩ := exists_flatten count h
  refine ⟨parts.map fun part => UInt8.ofNat (bitsValue part), by rw [List.length_map, hcount], ?_⟩
  rw [bitsOfBytes, List.flatMap_map, List.flatMap_def]
  refine congrArg List.flatten ((List.map_congr_left fun part hpart => ?_).trans (List.map_id parts))
  have hlt : bitsValue part < 2 ^ 8 := hparts part hpart ▸ bitsValue_lt part
  rw [UInt8.toNat_ofNat_of_lt' hlt, ← hparts part hpart, bitsOf_bitsValue]
  rfl

/-- The bytes come out of the text of their bits. -/
theorem pieces_bytes (bytes : Bytes) :
    (pieces 8 ((bitsOfBytes bytes).map bitChar)).map parseBinary = bytes.map UInt8.toNat := by
  rw [pieces_map, bitsOfBytes, List.flatMap_def, pieces_flatten (by decide), List.map_map, List.map_map]
  · refine List.map_congr_left fun byte _ => ?_
    rw [Function.comp_apply, Function.comp_apply, parseBinary_map, bitsValue_bitsOf byte.toNat_lt]
  · intro part hpart
    obtain ⟨byte, -, rfl⟩ := List.mem_map.mp hpart
    exact length_bitsOf 8 _

theorem mem_STRENGTHS {strength : ℕ} : strength ∈ STRENGTHS ↔ ∃ k, 4 ≤ k ∧ k ≤ 16 ∧ strength = 32 * k := by
  constructor
  · intro h
    simp only [STRENGTHS, List.mem_cons, List.not_mem_nil, or_false] at h
    exact ⟨strength / 32, by omega, by omega, by omega⟩
  · rintro ⟨k, hlow, hhigh, rfl⟩
    interval_cases k <;> decide

/-! ## Words are bits -/

/-- The bits of words. -/
def bitsOfWords (words : List JsString) : List Bool := words.flatMap fun word => bitsOf 11 (wordlist.idxOf word)

@[simp] theorem length_bitsOfWords (words : List JsString) : (bitsOfWords words).length = 11 * words.length :=
  length_flatMap_bitsOf 11 wordlist.idxOf words

theorem idxOf_lt {word : JsString} (h : word ∈ wordlist) : wordlist.idxOf word < 2 ^ 11 := by
  have hlt := List.idxOf_lt_length_iff.mpr h
  rwa [length_wordlist] at hlt

theorem idxOf_wordAt {index : ℕ} (h : index < 2 ^ 11) : wordlist.idxOf (wordAt index) = index := by
  have hlt : index < wordlist.length := by rwa [length_wordlist]
  rw [wordAt, List.getD_eq_getElem _ _ hlt]
  exact nodup_wordlist.idxOf_getElem index hlt

/-- A word that is listed gives its bits, and no other gives any. -/
theorem wordText_eq_ok {word : JsString} {text : List Char} :
    wordText word = .ok text ↔
      word ∈ wordlist ∧ text = (bitsOf 11 (wordlist.idxOf word)).map bitChar := by
  rw [wordText]
  cases hfound : wordlist.idxOf? word with
  | none =>
    have hnot := List.idxOf?_eq_none_iff.mp hfound
    exact iff_of_false nofun fun h => hnot h.1
  | some index =>
    obtain ⟨hlt, hword, -⟩ := List.idxOf?_eq_some_iff.mp hfound
    have hmem : word ∈ wordlist := hword ▸ List.getElem_mem hlt
    have hindex : wordlist.idxOf word = index := by
      rw [← hword]
      exact nodup_wordlist.idxOf_getElem index hlt
    rw [hindex, and_iff_right hmem, ← binaryText_eq (by decide) (hindex ▸ idxOf_lt hmem)]
    exact ⟨fun h => (Except.ok.inj h).symm, fun h => congrArg _ h.symm⟩

/-- The texts of words that are listed are put together to the text of their bits. -/
theorem mapM_wordText {words : List JsString} (h : ∀ word ∈ words, word ∈ wordlist) :
    ∃ texts, words.mapM wordText = .ok texts ∧ texts.flatten = (bitsOfWords words).map bitChar := by
  induction words with
  | nil => exact ⟨[], rfl, rfl⟩
  | cons word words ih =>
    obtain ⟨texts, htexts, hflatten⟩ := ih fun w hw => h w (List.mem_cons_of_mem _ hw)
    have hword := wordText_eq_ok.mpr ⟨h word List.mem_cons_self, rfl⟩
    refine ⟨(bitsOf 11 (wordlist.idxOf word)).map bitChar :: texts, ?_, ?_⟩
    · rw [List.mapM_cons, hword, ok_bind, htexts, ok_bind]
      rfl
    · rw [List.flatten_cons, hflatten, ← List.map_append]
      rfl

theorem listed_of_mapM {words : List JsString} {texts : List (List Char)}
    (h : words.mapM wordText = .ok texts) : ∀ word ∈ words, word ∈ wordlist := by
  intro word hword
  have hmap := mapM_eq_ok h
  have hmem : wordText word ∈ texts.map (.ok : _ → Except JsError _) := hmap ▸ List.mem_map_of_mem hword
  obtain ⟨text, -, htext⟩ := List.mem_map.mp hmem
  exact (wordText_eq_ok.mp htext.symm).1

section

variable {normalize : JsString → JsString} {digest : Bytes → Bytes} {mnemonic : JsString}
  {words : List JsString} {entropy : Bytes}

/-! ## What is accepted -/

/-- When it comes to the entropy, its length and its hash decide. -/
theorem mnemonicToEntropy_iff {k : ℕ} (hwords : (normalize mnemonic).splitOn 0x20 = words)
    (hlisted : ∀ word ∈ words, word ∈ wordlist) (hk : words.length = 3 * k) (hpos : 0 < k)
    (hentropy : bitsOfBytes entropy = (bitsOfWords words).take (32 * k)) :
    mnemonicToEntropy normalize digest mnemonic = .ok true ↔
      16 ≤ entropy.length ∧ entropy.length ≤ 64 ∧
        (bitsOfBytes (digest entropy)).take (entropy.length / 4) = (bitsOfWords words).drop (32 * k) := by
  obtain ⟨texts, htexts, hflatten⟩ := mapM_wordText hlisted
  have hbits : (bitsOfWords words).length = 33 * k := by
    rw [length_bitsOfWords, hk]
    omega
  have hdivider : texts.flatten.length / 33 * 32 = 32 * k := by
    rw [hflatten, List.length_map, hbits]
    omega
  have htake : texts.flatten.take (32 * k) = (bitsOfBytes entropy).map bitChar := by
    rw [hflatten, ← List.map_take, hentropy]
  have hdrop : texts.flatten.drop (32 * k) = ((bitsOfWords words).drop (32 * k)).map bitChar := by
    rw [hflatten, ← List.map_drop]
  have hsome : (bitsOfBytes entropy).map bitChar ≠ [] := by
    rw [← List.length_pos_iff, List.length_map, hentropy, List.length_take, hbits]
    omega
  have harray : (entropy.map UInt8.toNat).map UInt8.ofNat = entropy := by
    rw [List.map_map]
    exact (List.map_congr_left fun byte _ => UInt8.ofNat_toNat).trans (List.map_id entropy)
  have hcount : (pieces 8 ((bitsOfBytes entropy).map bitChar)).length = entropy.length := by
    have h := congrArg List.length (pieces_bytes entropy)
    rwa [List.length_map, List.length_map] at h
  have hthree : words.length % 3 = 0 := by omega
  rw [mnemonicToEntropy, hwords, demand_of hthree, ok_bind, htexts, ok_bind]
  simp only [hdivider, htake, hdrop, matchPieces, if_neg hsome, ok_bind, pieces_bytes, harray,
    List.length_map, hcount, bytesText_eq, ← List.map_take, except_bind_eq_ok, demand_eq_ok, exists_const,
    except_pure_eq_ok, and_true, not_not, Nat.not_lt, gt_iff_lt, ne_eq,
    bitChar_injective.list_map.eq_iff]

/-- **Accepted is what spells entropy**, and nothing else. -/
theorem validateMnemonic_iff (hdigest : ∀ data, (digest data).length = 64) :
    validateMnemonic normalize digest mnemonic = true ↔
      ∃ entropy, Spells digest ((normalize mnemonic).splitOn 0x20) entropy := by
  have hvalid : validateMnemonic normalize digest mnemonic = true ↔
      mnemonicToEntropy normalize digest mnemonic = .ok true := by
    rw [validateMnemonic]
    cases mnemonicToEntropy normalize digest mnemonic with
    | error e => exact iff_of_false nofun nofun
    | ok valid => exact ⟨fun h => congrArg _ h, fun h => Except.ok.inj h⟩
  rw [hvalid]
  generalize hwords : (normalize mnemonic).splitOn 0x20 = words
  constructor
  · intro h
    have hrun := h
    rw [mnemonicToEntropy, hwords] at hrun
    simp only [except_bind_eq_ok, demand_eq_ok, exists_const] at hrun
    obtain ⟨hthree, texts, htexts, -⟩ := hrun
    have hlisted := listed_of_mapM htexts
    have hne : words ≠ [] := hwords ▸ List.splitOn_ne_nil _ _
    have hlen : 0 < words.length := List.length_pos_iff.mpr hne
    obtain ⟨k, hk⟩ : ∃ k, words.length = 3 * k := ⟨words.length / 3, by omega⟩
    have hbitsLength : ((bitsOfWords words).take (32 * k)).length = 8 * (4 * k) := by
      rw [List.length_take, length_bitsOfWords, hk]
      omega
    obtain ⟨entropy, hcount, hentropy⟩ := exists_bitsOfBytes (4 * k) hbitsLength
    obtain ⟨hlow, hhigh, hhash⟩ := (mnemonicToEntropy_iff hwords hlisted hk (by omega) hentropy).mp h
    refine ⟨entropy, mem_STRENGTHS.mpr ⟨k, by omega, by omega, by omega⟩, hlisted, ?_⟩
    rw [hhash, hentropy]
    exact (List.take_append_drop _ _).symm
  · rintro ⟨entropy, hstrength, hlisted, hbits⟩
    obtain ⟨k, hlow, hhigh, hk⟩ := mem_STRENGTHS.mp hstrength
    have hcount : entropy.length = 4 * k := by omega
    have hwordsBits : bitsOfWords words =
        bitsOfBytes entropy ++ (bitsOfBytes (digest entropy)).take (entropy.length / 4) := hbits
    have hlength : words.length = 3 * k := by
      have h := congrArg List.length hwordsBits
      rw [length_bitsOfWords, List.length_append, List.length_take, length_bitsOfBytes, length_bitsOfBytes,
        hdigest, hcount] at h
      omega
    have hsplit : 32 * k = (bitsOfBytes entropy).length := by
      rw [length_bitsOfBytes, hcount]
      omega
    have hentropy : bitsOfBytes entropy = (bitsOfWords words).take (32 * k) := by
      rw [hwordsBits, hsplit, List.take_left]
    refine (mnemonicToEntropy_iff hwords hlisted hlength (by omega) hentropy).mpr ⟨by omega, by omega, ?_⟩
    rw [hwordsBits, hsplit, List.drop_left]

/-- **Words spell no two entropies.** -/
theorem Spells.unique (hdigest : ∀ data, (digest data).length = 64) {entropy' : Bytes}
    (h : Spells digest words entropy) (h' : Spells digest words entropy') : entropy = entropy' := by
  obtain ⟨k, hlow, hhigh, hk⟩ := mem_STRENGTHS.mp h.strength
  obtain ⟨k', hlow', hhigh', hk'⟩ := mem_STRENGTHS.mp h'.strength
  have hbits := h.bits.symm.trans h'.bits
  have hlength := congrArg List.length hbits
  rw [List.length_append, List.length_append, List.length_take, List.length_take, length_bitsOfBytes,
    length_bitsOfBytes, length_bitsOfBytes, length_bitsOfBytes, hdigest, hdigest] at hlength
  have hsame : entropy.length = entropy'.length := by omega
  refine bitsOfBytes_inj hsame (List.append_inj_left hbits ?_)
  rw [length_bitsOfBytes, length_bitsOfBytes, hsame]

/-! ## What is generated -/

theorem splitOn_joinSpaces (hne : words ≠ []) (h : Words words) : (joinSpaces words).splitOn 0x20 = words := by
  have hintercalate : ∀ ws : List JsString, joinSpaces ws = [0x20].intercalate ws := by
    intro ws
    induction ws with
    | nil => rfl
    | cons word ws ih =>
      cases ws with
      | nil => exact (List.append_nil word).symm
      | cons next ws =>
        rw [List.intercalate_cons_cons, ← ih]
        exact (List.append_assoc word [0x20] _).symm
  rw [hintercalate, List.splitOn_intercalate _ ?_ hne]
  intro word hword hspace
  exact absurd ((h word hword).2 0x20 hspace) (by decide)

/-- What is generated spells the entropy. -/
theorem spells_of_generateMnemonic (hdigest : ∀ data, (digest data).length = 64) {strength : ℕ}
    (hstrength : strength ∈ STRENGTHS) (entropy : RandomBytes (strength / 8)) :
    ∃ words, generateMnemonic digest strength entropy = .ok (joinSpaces words) ∧ words ≠ [] ∧
      Words words ∧ Spells digest words entropy.val := by
  obtain ⟨k, hlow, hhigh, rfl⟩ := mem_STRENGTHS.mp hstrength
  have hcount : entropy.val.length = 4 * k := entropy.property.trans (by omega)
  let bits := bitsOfBytes entropy.val ++ (bitsOfBytes (digest entropy.val)).take k
  have hbits : bits.length = 11 * (3 * k) := by
    show (_ ++ _ : List Bool).length = _
    rw [List.length_append, List.length_take, length_bitsOfBytes, length_bitsOfBytes, hdigest, hcount]
    omega
  obtain ⟨parts, hparts, hwidth, hflatten⟩ := exists_flatten (3 * k) hbits
  have hlt : ∀ part ∈ parts, bitsValue part < 2 ^ 11 := fun part hpart => hwidth part hpart ▸ bitsValue_lt part
  have hfits : DigitsFit 11 (parts.map bitsValue) := by
    intro index hindex
    obtain ⟨part, hpart, rfl⟩ := List.mem_map.mp hindex
    exact hlt part hpart
  refine ⟨(parts.map bitsValue).map wordAt, ?_, ?_, words_map_wordAt hfits, ?_, ?_, ?_⟩
  · have hsome : bits.map bitChar ≠ [] := by
      rw [← List.length_pos_iff, List.length_map, hbits]
      omega
    have htext : bytesText entropy.val ++ (bytesText (digest entropy.val)).take (32 * k / 32) =
        bits.map bitChar := by
      rw [bytesText_eq, bytesText_eq, ← List.map_take, ← List.map_append, Nat.mul_div_cancel_left k (by decide)]
    have hpieces : pieces 11 (bits.map bitChar) = parts.map (List.map bitChar) := by
      rw [pieces_map, ← hflatten, pieces_flatten (by decide) hwidth]
    rw [generateMnemonic, demand_of (Nat.mul_mod_right 32 k), ok_bind, demand_of hstrength, ok_bind]
    simp only [htext, matchPieces, if_neg hsome, ok_bind, hpieces, List.map_map, Function.comp_def,
      parseBinary_map]
    rfl
  · rw [← List.length_pos_iff, List.length_map, List.length_map, hparts]
    omega
  · rw [hcount, Nat.mul_right_comm]
    exact hstrength
  · intro word hword
    obtain ⟨index, hindex, rfl⟩ := List.mem_map.mp hword
    exact mem_wordlist_wordAt (hfits index hindex)
  · have hk : entropy.val.length / 4 = k := by omega
    rw [hk]
    show _ = bits
    rw [← hflatten, List.flatMap_map, List.flatMap_map, List.flatMap_def]
    refine congrArg List.flatten ((List.map_congr_left fun part hpart => ?_).trans (List.map_id parts))
    rw [idxOf_wordAt (hlt part hpart), ← hwidth part hpart, bitsOf_bitsValue]
    rfl

end

/-- **A mnemonic carries its checksum**: one that is generated is valid, what is valid are the words of
entropy and a part of its hash, and they say which entropy. -/
theorem mnemonic_checksum (normalize : JsString → JsString) (digest : Bytes → Bytes)
    (hnormalize : ∀ text : JsString, (∀ unit ∈ text, unit.toNat < 0x80) → normalize text = text)
    (hdigest : ∀ data, (digest data).length = 64) :
    (∀ strength ∈ STRENGTHS, ∀ entropy : RandomBytes (strength / 8), ∃ mnemonic,
      generateMnemonic digest strength entropy = .ok mnemonic ∧
      validateMnemonic normalize digest mnemonic = true ∧
      Spells digest ((normalize mnemonic).splitOn 0x20) entropy.val) ∧
    (∀ mnemonic, validateMnemonic normalize digest mnemonic = true ↔
      ∃ entropy, Spells digest ((normalize mnemonic).splitOn 0x20) entropy) ∧
    ∀ words entropy entropy', Spells digest words entropy → Spells digest words entropy' →
      entropy = entropy' := by
  refine ⟨?_, fun mnemonic => validateMnemonic_iff hdigest, fun words entropy entropy' => Spells.unique hdigest⟩
  intro strength hstrength entropy
  obtain ⟨words, hgenerate, hne, hwords, hspells⟩ := spells_of_generateMnemonic hdigest hstrength entropy
  have hascii : ∀ unit ∈ joinSpaces words, unit.toNat < 0x80 := by
    intro unit hunit
    rcases mem_joinSpaces hwords hunit with hletter | rfl
    · simp only [isLetter, decide_eq_true_eq] at hletter
      omega
    · decide
  have hsplit : (normalize (joinSpaces words)).splitOn 0x20 = words := by
    rw [hnormalize _ hascii, splitOn_joinSpaces hne hwords]
  refine ⟨joinSpaces words, hgenerate, (validateMnemonic_iff hdigest).mpr ⟨entropy.val, ?_⟩, ?_⟩
  · rw [hsplit]
    exact hspells
  · rw [hsplit]
    exact hspells

/-- The SHA-512 hash of sixteen zero bytes. -/
def zeroDigest : Bytes :=
  [0x0b, 0x6c, 0xba, 0xc8, 0x38, 0xdf, 0xe7, 0xf4, 0x7e, 0xa1, 0xbd, 0x0d, 0xf0, 0x0e, 0xc2,
    0x82, 0xfd, 0xf4, 0x55, 0x10, 0xc9, 0x21, 0x61, 0x07, 0x2c, 0xcf, 0xb8, 0x40, 0x35, 0x39,
    0x0c, 0x4d, 0xa7, 0x43, 0xd9, 0xc3, 0xb9, 0x54, 0xea, 0xa1, 0xb0, 0xf8, 0x6f, 0xc9, 0x86,
    0x1b, 0x23, 0xcc, 0x6c, 0x86, 0x67, 0xab, 0x23, 0x2c, 0x11, 0xc6, 0x86, 0x43, 0x2e, 0xbb,
    0x5c, 0x8c, 0x3f, 0x27]

/-- Entropy of sixteen zero bytes. -/
theorem mnemonic_checksum_zero :
    ∃ mnemonic, generateMnemonic (fun _ => zeroDigest) 128 ⟨List.replicate 16 0, rfl⟩ = .ok mnemonic ∧
      validateMnemonic id (fun _ => zeroDigest) mnemonic = true ∧
      ∀ entropy, Spells (fun _ => zeroDigest) (mnemonic.splitOn 0x20) entropy →
        entropy = List.replicate 16 0 := by
  obtain ⟨hgenerated, -, hunique⟩ := mnemonic_checksum id (fun _ => zeroDigest) (fun _ _ => rfl) fun _ => rfl
  obtain ⟨mnemonic, hgenerate, hvalid, hspells⟩ := hgenerated 128 (by decide) ⟨List.replicate 16 0, rfl⟩
  exact ⟨mnemonic, hgenerate, hvalid, fun entropy h => hunique _ _ _ h hspells⟩

end Mnemonic

end P2Party
