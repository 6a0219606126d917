import P2Party.Room.Invite
import P2Party.Base.Codec

/-!
# The encodings of a room capability agree

Both the base64url and the word form regroup the bits of the capability, so they are compared by
the number that their digits spell: base64url has two zero bits at the end, and the words have the
checksum. A text decodes to a capability exactly if its characters, or its words, are those that
the capability is encoded as.

- `sextets_spec`: the number that the base64url digits spell;
- `decodeRoomCapabilityBase64Url_iff`: what base64url decodes to what;
- `splitSpaces_joinSpaces`, `wordIndex_eq_ok`: the words of a text;
- `decodeRoomCapabilityWords_eq_ok`: what words decode to what;
- `room_capability_encodings`: all forms.
-/

namespace P2Party

open Base

namespace RoomInvite

variable {capability bytes : Bytes} {encoded : JsString}

/-! ## Bytes as digits -/

/-- The number that bytes spell. -/
def bytesValue (bytes : Bytes) : Nat := digitsValue 8 (bytes.map UInt8.toNat)

theorem digitsFit_bytes (bytes : Bytes) : DigitsFit 8 (bytes.map UInt8.toNat) := by
  intro d hd
  obtain ⟨byte, -, rfl⟩ := List.mem_map.mp hd
  exact byte.toNat_lt

theorem map_ofNat_toNat (bytes : Bytes) : (bytes.map UInt8.toNat).map UInt8.ofNat = bytes := by
  rw [List.map_map]
  exact (List.map_congr_left fun byte _ => UInt8.ofNat_toNat).trans (List.map_id _)

theorem map_toNat_ofNat {digits : List Nat} (h : DigitsFit 8 digits) :
    (digits.map UInt8.ofNat).map UInt8.toNat = digits := by
  rw [List.map_map]
  refine (List.map_congr_left ?_).trans (List.map_id _)
  intro d hd
  exact UInt8.toNat_ofNat_of_lt' (h d hd)

/-! ## Base64url -/

theorem chunkOf_eq {first second third : Nat} (hsecond : second < 256) (hthird : third < 256) :
    chunkOf first second third = first * 65536 + second * 256 + third := by
  have hshift : first <<< 16 ||| second <<< 8 = (first <<< 8 ||| second) <<< 8 := by
    rw [Nat.shiftLeft_or_distrib, ← Nat.shiftLeft_add]
  rw [chunkOf, hshift, ← Nat.shiftLeft_add_eq_or_of_lt (show third < 2 ^ 8 from hthird),
    ← Nat.shiftLeft_add_eq_or_of_lt (show second < 2 ^ 8 from hsecond)]
  simp only [Nat.shiftLeft_eq]
  omega

/-- The sextet of a chunk that ends at a bit. -/
theorem sextet_eq (chunk shift : Nat) : (chunk >>> shift) &&& 0x3f = chunk / 2 ^ shift % 64 := by
  rw [Nat.shiftRight_eq_div_pow]
  exact Nat.and_two_pow_sub_one_eq_mod _ 6

theorem sextet_last (chunk : Nat) : chunk &&& 0x3f = chunk % 64 := Nat.and_two_pow_sub_one_eq_mod _ 6

/-- How many zero bits base64url adds. -/
def padding (n : Nat) : Nat := (6 - 8 * n % 6) % 6

theorem padding_add_three (n : Nat) : padding (n + 3) = padding n := by
  unfold padding
  omega

theorem digitsValue_one (width a : Nat) : digitsValue width [a] = a := by
  simp [digitsValue]

theorem digitsValue_two (width a b : Nat) : digitsValue width [a, b] = a * 2 ^ width + b := by
  rw [show [a, b] = [a] ++ [b] from rfl, digitsValue_concat, digitsValue_one]

theorem digitsValue_three (width a b c : Nat) :
    digitsValue width [a, b, c] = (a * 2 ^ width + b) * 2 ^ width + c := by
  rw [show [a, b, c] = [a, b] ++ [c] from rfl, digitsValue_concat, digitsValue_two]

theorem digitsValue_four (width a b c d : Nat) :
    digitsValue width [a, b, c, d] = ((a * 2 ^ width + b) * 2 ^ width + c) * 2 ^ width + d := by
  rw [show [a, b, c, d] = [a, b, c] ++ [d] from rfl, digitsValue_concat, digitsValue_three]

/-- The base64url digits fit, and spell the number of the bytes with the padding after it. -/
theorem sextets_spec (bytes : Bytes) :
    DigitsFit 6 (sextets bytes) ∧
      6 * (sextets bytes).length = 8 * bytes.length + padding bytes.length ∧
      digitsValue 6 (sextets bytes) = bytesValue bytes * 2 ^ padding bytes.length := by
  induction bytes using sextets.induct with
  | case1 => exact ⟨nofun, rfl, rfl⟩
  | case2 first =>
    have hfirst := first.toNat_lt
    have hchunk : chunkOf first.toNat 0 0 = first.toNat * 65536 := by
      rw [chunkOf_eq (by decide) (by decide), Nat.zero_mul, Nat.add_zero]
    have hpadding : padding [first].length = 4 := by simp [padding]
    rw [hpadding, sextets, hchunk]
    refine ⟨?_, rfl, ?_⟩
    · simp only [DigitsFit, sextet_eq, List.mem_cons, List.not_mem_nil, or_false]
      omega
    · simp only [sextet_eq, bytesValue, List.map_cons, List.map_nil, digitsValue_one, digitsValue_two]
      omega
  | case3 first second =>
    have hfirst := first.toNat_lt
    have hsecond := second.toNat_lt
    have hchunk : chunkOf first.toNat second.toNat 0 = first.toNat * 65536 + second.toNat * 256 := by
      rw [chunkOf_eq hsecond (by decide), Nat.add_zero]
    have hpadding : padding [first, second].length = 2 := by simp [padding]
    rw [hpadding, sextets, hchunk]
    refine ⟨?_, rfl, ?_⟩
    · simp only [DigitsFit, sextet_eq, List.mem_cons, List.not_mem_nil, or_false]
      omega
    · simp only [sextet_eq, bytesValue, List.map_cons, List.map_nil, digitsValue_two, digitsValue_three]
      omega
  | case4 first second third rest ih =>
    obtain ⟨hfits, hlength, hvalue⟩ := ih
    have hfirst := first.toNat_lt
    have hsecond := second.toNat_lt
    have hthird := third.toNat_lt
    have hchunk : chunkOf first.toNat second.toNat third.toNat =
        first.toNat * 65536 + second.toNat * 256 + third.toNat := chunkOf_eq hsecond hthird
    rw [sextets]
    generalize chunkOf first.toNat second.toNat third.toNat = chunk at hchunk ⊢
    simp only [List.length_cons, padding_add_three]
    refine ⟨DigitsFit.append ?_ hfits, ?_, ?_⟩
    · simp only [DigitsFit, sextet_last, List.mem_cons, List.not_mem_nil, or_false]
      omega
    · simp only [List.length_append, List.length_cons, List.length_nil]
      omega
    · -- Both sides split after the first group, whose value is the chunk.
      have hgroup : digitsValue 6 [(chunk >>> 18) &&& 0x3f, (chunk >>> 12) &&& 0x3f,
          (chunk >>> 6) &&& 0x3f, chunk &&& 0x3f] = chunk := by
        rw [digitsValue_four, sextet_eq, sextet_eq, sextet_eq, sextet_last]
        omega
      have hbytes : bytesValue (first :: second :: third :: rest) =
          chunk * 2 ^ (8 * rest.length) + bytesValue rest := by
        have happend := @digitsValue_append 8 [first.toNat, second.toNat, third.toNat]
          (rest.map UInt8.toNat)
        rw [digitsValue_three, List.length_map] at happend
        rw [hchunk]
        refine Eq.trans happend ?_
        rw [bytesValue]
        ring
      rw [digitsValue_append, hgroup, hlength, hvalue, hbytes, Nat.pow_add]
      ring

theorem alphabet_spec : ∀ index < 64,
    BASE64URL_ALPHABET.idxOf (alphabetAt index) = index ∧ isBase64Url (alphabetAt index) = true := by
  decide +kernel

theorem requireCapability_eq_ok : requireCapability capability = .ok bytes ↔
    capability.length = ROOM_CAPABILITY_BYTES ∧ capability = bytes := by
  simp only [requireCapability, except_bind_eq_ok, demand_eq_ok, exists_const, except_pure_eq_ok]

theorem encodeRoomCapabilityBase64Url_eq_ok :
    encodeRoomCapabilityBase64Url capability = .ok encoded ↔
      capability.length = ROOM_CAPABILITY_BYTES ∧ (sextets capability).map alphabetAt = encoded := by
  simp only [encodeRoomCapabilityBase64Url, except_bind_eq_ok, requireCapability_eq_ok,
    except_pure_eq_ok]
  constructor
  · rintro ⟨bytes, ⟨hlength, rfl⟩, h⟩
    exact ⟨hlength, h⟩
  · rintro ⟨hlength, h⟩
    exact ⟨capability, ⟨hlength, rfl⟩, h⟩

theorem length_sextets (h : capability.length = 32) : (sextets capability).length = 43 := by
  obtain ⟨-, hlength, -⟩ := sextets_spec capability
  rw [h, show padding 32 = 2 from rfl] at hlength
  omega

theorem digitsValue_sextets (h : capability.length = 32) :
    digitsValue 6 (sextets capability) = bytesValue capability * 2 ^ 2 := by
  obtain ⟨-, -, hvalue⟩ := sextets_spec capability
  rwa [h] at hvalue

/-- The indices of an encoding are its digits. -/
theorem map_idxOf_encoded (capability : Bytes) :
    ((sextets capability).map alphabetAt).map (fun character => BASE64URL_ALPHABET.idxOf character) =
      sextets capability := by
  rw [List.map_map]
  refine (List.map_congr_left ?_).trans (List.map_id _)
  intro index hindex
  exact (alphabet_spec index ((sextets_spec capability).1 index hindex)).1

theorem isBase64Url_of_mem {unit : UInt16} (h : unit ∈ (sextets capability).map alphabetAt) :
    isBase64Url unit = true := by
  obtain ⟨index, hindex, rfl⟩ := List.mem_map.mp h
  exact (alphabet_spec index ((sextets_spec capability).1 index hindex)).2

/-- The last digit of an encoding has two zero bits. -/
theorem final_sextet (h : capability.length = 32) :
    BASE64URL_ALPHABET.idxOf (((sextets capability).map alphabetAt).getLast?.getD 0) &&& 0x03 = 0 := by
  have hlength := length_sextets h
  have hvalue := digitsValue_sextets h
  have hne : sextets capability ≠ [] := by
    intro hnil
    rw [hnil] at hlength
    cases hlength
  have hsplit : (sextets capability).dropLast ++ [(sextets capability).getLast hne] =
      sextets capability := List.dropLast_append_getLast hne
  rw [← hsplit, digitsValue_concat] at hvalue
  have hfits : (sextets capability).getLast hne < 64 :=
    (sextets_spec capability).1 _ (List.getLast_mem hne)
  rw [List.getLast?_map, List.getLast?_eq_some_getLast hne, Option.map_some, Option.getD_some,
    (alphabet_spec _ hfits).1]
  have hmod : (sextets capability).getLast hne &&& 0x03 = (sextets capability).getLast hne % 4 :=
    Nat.and_two_pow_sub_one_eq_mod _ 2
  rw [hmod]
  omega

/-- **A text decodes from base64url exactly if it is what the capability is encoded as.** -/
theorem decodeRoomCapabilityBase64Url_iff :
    decodeRoomCapabilityBase64Url encoded = .ok capability ↔
      encodeRoomCapabilityBase64Url capability = .ok encoded := by
  simp only [decodeRoomCapabilityBase64Url, except_bind_eq_ok, demand_eq_ok, exists_const,
    except_pure_eq_ok]
  constructor
  · rintro ⟨-, -, ⟨-, hencode⟩, rfl⟩
    exact hencode
  · intro h
    obtain ⟨hlength, rfl⟩ := encodeRoomCapabilityBase64Url_eq_ok.mp h
    have hregroup : regroup 6 8 (sextets capability) = ⟨0, 2, capability.map UInt8.toNat⟩ := by
      refine regroup_eq (sextets_spec capability).1 (digitsFit_bytes capability) (by decide) (by decide)
        ?_ (digitsValue_sextets hlength)
      rw [length_sextets hlength, List.length_map, hlength, show 6 * 43 = 8 * 32 + 2 from rfl]
    have hpattern : BASE64URL_PATTERN ((sextets capability).map alphabetAt) = true := by
      simp only [BASE64URL_PATTERN, List.length_map, length_sextets hlength, decide_true, Bool.true_and]
      exact List.all_eq_true.mpr fun unit hunit => isBase64Url_of_mem hunit
    rw [map_idxOf_encoded, hregroup, map_ofNat_toNat]
    exact ⟨hpattern, final_sextet hlength, ⟨hlength, h⟩, rfl⟩

/-! ## Hexadecimal and fragments -/

theorem hexToBytes_bytesToHex (h : capability.length = ROOM_CAPABILITY_BYTES) :
    hexToBytes (bytesToHex capability) = .ok capability := by
  have hpattern : HEX_PATTERN (hexUnits capability) = true := by
    rw [HEX_PATTERN, length_hexUnits, h, Bool.and_eq_true]
    exact ⟨rfl, List.all_eq_true.mpr fun unit hunit =>
      isHexUnit_of_lower (isLowerHexUnit_of_mem_hexUnits hunit)⟩
  rw [bytesToHex, hexToBytes, demand_of hpattern, hexPairs_hexUnits]
  rfl

/-- A fragment, with or without its hash sign, decodes as what follows its version. -/
theorem decodeRoomInviteFragment_append (encoded : JsString) :
    decodeRoomInviteFragment (ROOM_INVITE_PREFIX ++ encoded) = decodeRoomCapabilityBase64Url encoded ∧
      decodeRoomInviteFragment (0x23 :: (ROOM_INVITE_PREFIX ++ encoded)) =
        decodeRoomCapabilityBase64Url encoded :=
  ⟨rfl, rfl⟩

theorem decodeRoomCapability_append (encoded : JsString) :
    decodeRoomCapability (ROOM_INVITE_PREFIX ++ encoded) = decodeRoomCapabilityBase64Url encoded ∧
      decodeRoomCapability (0x23 :: (ROOM_INVITE_PREFIX ++ encoded)) =
        decodeRoomCapabilityBase64Url encoded :=
  ⟨rfl, rfl⟩

/-- A text without a full stop has no version. -/
theorem decodeRoomCapability_of_notMem (h : (0x2e : UInt16) ∉ encoded) :
    decodeRoomCapability encoded =
      if encoded.length = ROOM_CAPABILITY_HEX_CHARS then hexToBytes encoded
      else decodeRoomCapabilityBase64Url encoded := by
  rw [decodeRoomCapability, if_neg]
  rintro (hstart | hstart)
  · exact h ((List.isPrefixOf_iff_prefix.mp hstart).subset (by decide))
  · exact h ((List.isPrefixOf_iff_prefix.mp hstart).subset (by decide))

theorem decodeRoomCapability_bytesToHex (h : capability.length = ROOM_CAPABILITY_BYTES) :
    decodeRoomCapability (bytesToHex capability) = .ok capability := by
  have hstop : (0x2e : UInt16) ∉ bytesToHex capability := notMem_hexUnits (by decide)
  rw [decodeRoomCapability_of_notMem hstop, if_pos (by rw [bytesToHex, length_hexUnits, h, Nat.mul_comm]),
    hexToBytes_bytesToHex h]

theorem decodeRoomCapability_base64Url (h : encodeRoomCapabilityBase64Url capability = .ok encoded) :
    decodeRoomCapability encoded = .ok capability := by
  obtain ⟨hlength, rfl⟩ := encodeRoomCapabilityBase64Url_eq_ok.mp h
  have hstop : (0x2e : UInt16) ∉ (sextets capability).map alphabetAt := by
    intro hmem
    exact absurd (isBase64Url_of_mem hmem) (by decide)
  have hshort : ((sextets capability).map alphabetAt).length ≠ ROOM_CAPABILITY_HEX_CHARS := by
    rw [List.length_map, length_sextets hlength]
    decide
  rw [decodeRoomCapability_of_notMem hstop, if_neg hshort]
  exact decodeRoomCapabilityBase64Url_iff.mpr h

/-! ## Words -/

theorem wordIndex_eq_ok {word : JsString} {index : Nat} :
    wordIndex word = .ok index ↔ index < wordlist.length ∧ wordAt index = word := by
  unfold wordIndex wordAt
  constructor
  · intro h
    split at h
    · rename_i found hfound
      cases h
      obtain ⟨hlt, heq, -⟩ := List.idxOf?_eq_some_iff.mp hfound
      exact ⟨hlt, by rw [List.getD_eq_getElem _ _ hlt, heq]⟩
    · cases h
  · rintro ⟨hlt, rfl⟩
    rw [List.getD_eq_getElem _ _ hlt]
    have hfound : wordlist.idxOf? wordlist[index] = some index := by
      refine List.idxOf?_eq_some_iff.mpr ⟨hlt, rfl, ?_⟩
      intro j hj heq
      exact absurd (nodup_wordlist.getElem_inj_iff.mp heq) (by omega)
    rw [hfound]

theorem mem_wordlist_wordAt {index : Nat} (h : index < 2048) : wordAt index ∈ wordlist := by
  have hlt : index < wordlist.length := by rwa [length_wordlist]
  rw [wordAt, List.getD_eq_getElem _ _ hlt]
  exact List.getElem_mem hlt

/-- The indices of words are those with these words. -/
theorem mapM_wordIndex_eq_ok {words : List JsString} {indexes : List Nat} :
    words.mapM wordIndex = .ok indexes ↔ DigitsFit 11 indexes ∧ indexes.map wordAt = words := by
  induction words generalizing indexes with
  | nil =>
    constructor
    · intro h
      cases h
      exact ⟨nofun, rfl⟩
    · rintro ⟨-, hwords⟩
      rw [List.map_eq_nil_iff.mp hwords]
      rfl
  | cons word words ih =>
    simp only [List.mapM_cons, except_bind_eq_ok, except_pure_eq_ok, ih, wordIndex_eq_ok,
      length_wordlist]
    constructor
    · rintro ⟨index, ⟨hlt, rfl⟩, indexes, ⟨hfits, rfl⟩, rfl⟩
      exact ⟨List.forall_mem_cons.mpr ⟨hlt, hfits⟩, rfl⟩
    · rintro ⟨hfits, hwords⟩
      cases indexes with
      | nil => cases hwords
      | cons index indexes =>
        obtain ⟨hlt, hfits⟩ := List.forall_mem_cons.mp hfits
        obtain ⟨rfl, rfl⟩ := List.cons.inj hwords
        exact ⟨index, ⟨hlt, rfl⟩, indexes, ⟨hfits, rfl⟩, rfl⟩

/-- 33 bytes are 24 indices, which spell the same number. -/
theorem bytesToWordIndexes_spec (h : bytes.length = 33) :
    ∃ indexes, bytesToWordIndexes bytes = .ok indexes ∧ indexes.length = 24 ∧ DigitsFit 11 indexes ∧
      digitsValue 11 indexes = bytesValue bytes := by
  obtain ⟨hfits, htotal, hbits, hend⟩ :=
    regroup_spec (show 0 < 11 by decide) (digitsFit_bytes bytes)
  simp only [Regrouping.bits, List.length_map, h] at hbits
  have havailable : (regroup 8 11 (bytes.map UInt8.toNat)).availableBits = 0 := by omega
  have hlength : (regroup 8 11 (bytes.map UInt8.toNat)).output.length = 24 := by omega
  have haccumulator := hfits.accumulator
  rw [havailable] at haccumulator
  refine ⟨_, by rw [bytesToWordIndexes, demand_of havailable]; rfl, hlength, hfits.output, ?_⟩
  rw [Regrouping.total, havailable, Nat.lt_one_iff.mp haccumulator] at htotal
  simpa [bytesValue] using htotal

/-- The indices of 33 bytes are those that decode to them. -/
theorem wordIndexesToBytes_eq_ok {indexes : List Nat} (hfits : DigitsFit 11 indexes)
    (hlength : indexes.length = 24) :
    wordIndexesToBytes indexes = .ok bytes ↔ bytesToWordIndexes bytes = .ok indexes ∧ bytes.length = 33 := by
  constructor
  · intro h
    simp only [wordIndexesToBytes, except_bind_eq_ok, demand_eq_ok, exists_const, except_pure_eq_ok] at h
    obtain ⟨⟨havailable, hcount⟩, rfl⟩ := h
    obtain ⟨hout, htotal, -, -⟩ := regroup_spec (show 0 < 8 by decide) hfits
    have haccumulator := hout.accumulator
    rw [havailable] at haccumulator
    rw [Regrouping.total, havailable, Nat.lt_one_iff.mp haccumulator] at htotal
    have hregroup : regroup 8 11 (regroup 11 8 indexes).output = ⟨0, 0, indexes⟩ := by
      refine regroup_eq hout.output hfits (by decide) (by decide) ?_ (by simpa using htotal)
      rw [hcount, hlength]
      rfl
    refine ⟨?_, by rw [List.length_map, hcount]⟩
    rw [bytesToWordIndexes, map_toNat_ofNat hout.output, hregroup]
    rfl
  · rintro ⟨h, hbytes⟩
    obtain ⟨indexes', hindexes', -, -, hvalue⟩ := bytesToWordIndexes_spec hbytes
    obtain rfl := Except.ok.inj (h.symm.trans hindexes')
    have hregroup : regroup 11 8 indexes = ⟨0, 0, bytes.map UInt8.toNat⟩ := by
      refine regroup_eq hfits (digitsFit_bytes bytes) (by decide) (by decide) ?_ (by simpa [bytesValue] using hvalue)
      rw [List.length_map, hlength, hbytes]
    rw [wordIndexesToBytes, hregroup]
    simp only [List.length_map, hbytes, demand_of, and_self, map_ofNat_toNat]
    rfl

/-! ## The words of a text -/

/-- `toLowerCase` of an ASCII unit. -/
def asciiLower (unit : UInt16) : UInt16 :=
  if 0x41 ≤ unit.toNat ∧ unit.toNat ≤ 0x5a then unit + 0x20 else unit

theorem isLetter_bounds {unit : UInt16} (h : isLetter unit = true) :
    0x61 ≤ unit.toNat ∧ unit.toNat ≤ 0x7a := by
  simpa [isLetter] using h

theorem isSpace_of_isLetter {unit : UInt16} (h : isLetter unit = true) : isSpace unit = false := by
  have hbounds := isLetter_bounds h
  simp only [isSpace, Bool.or_eq_false_iff, decide_eq_false_iff_not, List.elem_eq_mem, List.mem_cons,
    List.not_mem_nil, or_false]
  constructor <;> omega

/-- Words as they are listed: not empty, and of letters. -/
def Words (words : List JsString) : Prop :=
  ∀ word ∈ words, word ≠ [] ∧ ∀ unit ∈ word, isLetter unit = true

theorem words_map_wordAt {indexes : List Nat} (h : DigitsFit 11 indexes) :
    Words (indexes.map wordAt) := by
  intro word hword
  obtain ⟨index, hindex, rfl⟩ := List.mem_map.mp hword
  exact letters_of_mem_wordlist (mem_wordlist_wordAt (h index hindex))

theorem splitSpaces_of_letters {word : JsString} (h : ∀ unit ∈ word, isLetter unit = true) :
    splitSpaces false word = [word] := by
  induction word with
  | nil => rfl
  | cons unit word ih =>
    obtain ⟨hunit, hword⟩ := List.forall_mem_cons.mp h
    rw [splitSpaces, isSpace_of_isLetter hunit, if_neg nofun, ih hword]
    rfl

theorem splitSpaces_append {word : JsString} (h : ∀ unit ∈ word, isLetter unit = true)
    (rest : JsString) :
    splitSpaces false (word ++ 0x20 :: rest) = word :: splitSpaces true rest := by
  induction word with
  | nil => rfl
  | cons unit word ih =>
    obtain ⟨hunit, hword⟩ := List.forall_mem_cons.mp h
    rw [List.cons_append, splitSpaces, isSpace_of_isLetter hunit, if_neg nofun, ih hword]
    rfl

variable {words : List JsString}

/-- Joined words begin with a letter. -/
theorem joinSpaces_eq_cons (hne : words ≠ []) (h : Words words) :
    ∃ first rest, joinSpaces words = first :: rest ∧ isLetter first = true := by
  obtain ⟨word, words, rfl⟩ := List.exists_cons_of_ne_nil hne
  obtain ⟨hword, hletters⟩ := h word List.mem_cons_self
  obtain ⟨first, rest, rfl⟩ := List.exists_cons_of_ne_nil hword
  have hfirst := hletters first List.mem_cons_self
  cases words with
  | nil => exact ⟨first, rest, rfl, hfirst⟩
  | cons next words => exact ⟨first, _, rfl, hfirst⟩

/-- Joined words end with a letter. -/
theorem joinSpaces_eq_concat (hne : words ≠ []) (h : Words words) :
    ∃ rest last, joinSpaces words = rest ++ [last] ∧ isLetter last = true := by
  induction words with
  | nil => exact absurd rfl hne
  | cons word words ih =>
    cases words with
    | nil =>
      obtain ⟨hword, hletters⟩ := h word List.mem_cons_self
      refine ⟨word.dropLast, word.getLast hword, ?_, hletters _ (List.getLast_mem hword)⟩
      exact (List.dropLast_append_getLast hword).symm
    | cons next words =>
      obtain ⟨rest, last, hrest, hlast⟩ := ih nofun fun w hw => h w (List.mem_cons_of_mem _ hw)
      refine ⟨word ++ 0x20 :: rest, last, ?_, hlast⟩
      rw [joinSpaces, hrest]
      · simp
      · exact nofun

/-- Splitting inverts joining. -/
theorem splitSpaces_joinSpaces (hne : words ≠ []) (h : Words words) :
    splitSpaces false (joinSpaces words) = words := by
  induction words with
  | nil => exact absurd rfl hne
  | cons word words ih =>
    have hletters := (h word List.mem_cons_self).2
    cases words with
    | nil => exact splitSpaces_of_letters hletters
    | cons next words =>
      have hwords : Words (next :: words) := fun w hw => h w (List.mem_cons_of_mem _ hw)
      have hjoin : joinSpaces (word :: next :: words) = word ++ 0x20 :: joinSpaces (next :: words) := rfl
      rw [hjoin, splitSpaces_append hletters]
      -- After the separator comes a letter, so that it does not matter that one has begun.
      obtain ⟨first, rest, hfirst, hletter⟩ := joinSpaces_eq_cons (List.cons_ne_nil _ _) hwords
      have hflag : splitSpaces true (joinSpaces (next :: words)) =
          splitSpaces false (joinSpaces (next :: words)) := by
        rw [hfirst]
        simp only [splitSpaces, isSpace_of_isLetter hletter, Bool.false_eq_true, if_false]
      rw [hflag, ih nofun hwords]

theorem trim_joinSpaces (hne : words ≠ []) (h : Words words) :
    trim (joinSpaces words) = joinSpaces words := by
  obtain ⟨first, rest, hfirst, hletter⟩ := joinSpaces_eq_cons hne h
  have hdrop : (joinSpaces words).dropWhile isSpace = joinSpaces words := by
    rw [hfirst, List.dropWhile_cons, isSpace_of_isLetter hletter]
    rfl
  obtain ⟨rest', last, hlast, hletter'⟩ := joinSpaces_eq_concat hne h
  rw [trim, hdrop, hlast, List.rdropWhile_concat, isSpace_of_isLetter hletter']
  rfl

/-- Joined words have only letters and spaces. -/
theorem mem_joinSpaces (h : Words words) {unit : UInt16} (hunit : unit ∈ joinSpaces words) :
    isLetter unit = true ∨ unit = 0x20 := by
  induction words with
  | nil => cases hunit
  | cons word words ih =>
    have hletters := (h word List.mem_cons_self).2
    cases words with
    | nil => exact .inl (hletters unit hunit)
    | cons next words =>
      rcases List.mem_append.mp hunit with hunit | hunit
      · exact .inl (hletters unit hunit)
      · rcases List.mem_cons.mp hunit with rfl | hunit
        · exact .inr rfl
        · exact ih (fun w hw => h w (List.mem_cons_of_mem _ hw)) hunit

theorem length_withChecksum (h : capability.length = ROOM_CAPABILITY_BYTES) (checksum : UInt8) :
    (capability ++ [checksum]).length = 33 := by
  rw [List.length_append, h]
  rfl

theorem bytesToWordIndexes_fits {checksum : UInt8} {indexes : List Nat}
    (h : capability.length = ROOM_CAPABILITY_BYTES)
    (hindexes : bytesToWordIndexes (capability ++ [checksum]) = .ok indexes) :
    indexes.length = 24 ∧ DigitsFit 11 indexes := by
  obtain ⟨indexes', hindexes', hcount, hfits, -⟩ := bytesToWordIndexes_spec (length_withChecksum h checksum)
  obtain rfl := Except.ok.inj (hindexes.symm.trans hindexes')
  exact ⟨hcount, hfits⟩

section

variable {sha256 : Bytes → Bytes} {normalize toLowerCase : JsString → JsString} {text : JsString}

/-- The words of joined words. -/
theorem wordsOf_joinSpaces
    (hnormalize : ∀ text : JsString, (∀ unit ∈ text, unit.toNat < 0x80) → normalize text = text)
    (hlower : ∀ text : JsString, (∀ unit ∈ text, unit.toNat < 0x80) →
      toLowerCase text = text.map asciiLower)
    (hne : words ≠ []) (h : Words words) : wordsOf normalize toLowerCase (joinSpaces words) = words := by
  have hascii : ∀ unit ∈ joinSpaces words, unit.toNat < 0x80 := by
    intro unit hunit
    rcases mem_joinSpaces h hunit with hletter | rfl
    · have hbounds := isLetter_bounds hletter
      omega
    · decide
  have hmap : (joinSpaces words).map asciiLower = joinSpaces words := by
    refine (List.map_congr_left ?_).trans (List.map_id _)
    intro unit hunit
    refine if_neg ?_
    rcases mem_joinSpaces h hunit with hletter | rfl
    · have hbounds := isLetter_bounds hletter
      omega
    · decide
  obtain ⟨first, rest, hfirst, -⟩ := joinSpaces_eq_cons hne h
  have hlength : (joinSpaces words).length ≠ 0 := by
    rw [hfirst]
    exact Nat.succ_ne_zero _
  rw [wordsOf, hnormalize _ hascii, trim_joinSpaces hne h, hlower _ hascii, hmap]
  simp only [if_neg hlength]
  exact splitSpaces_joinSpaces hne h

/-- What the words of a capability are. -/
theorem encodeRoomCapabilityWords_eq_ok :
    encodeRoomCapabilityWords sha256 capability = .ok text ↔
      capability.length = ROOM_CAPABILITY_BYTES ∧
      ∃ indexes, bytesToWordIndexes (capability ++ [roomInviteChecksum sha256 capability]) = .ok indexes ∧
        joinSpaces (indexes.map wordAt) = text := by
  simp only [encodeRoomCapabilityWords, except_bind_eq_ok, requireCapability_eq_ok, demand_eq_ok,
    exists_const, except_pure_eq_ok]
  constructor
  · rintro ⟨bytes, ⟨hlength, rfl⟩, indexes, hindexes, -, htext⟩
    exact ⟨hlength, indexes, hindexes, htext⟩
  · rintro ⟨hlength, indexes, hindexes, htext⟩
    have hcount := (bytesToWordIndexes_fits hlength hindexes).1
    exact ⟨capability, ⟨hlength, rfl⟩, indexes, hindexes, hcount, htext⟩

/-- A text decodes exactly if its words are those of the capability and its checksum. -/
theorem decodeRoomCapabilityWords_eq_ok :
    decodeRoomCapabilityWords sha256 normalize toLowerCase text = .ok capability ↔
      capability.length = ROOM_CAPABILITY_BYTES ∧
      ∃ indexes, bytesToWordIndexes (capability ++ [roomInviteChecksum sha256 capability]) = .ok indexes ∧
        indexes.map wordAt = wordsOf normalize toLowerCase text := by
  simp only [decodeRoomCapabilityWords, except_bind_eq_ok, demand_eq_ok, exists_const,
    except_pure_eq_ok, mapM_wordIndex_eq_ok]
  constructor
  · rintro ⟨hcount, indexes, ⟨hfits, hwords⟩, decoded, hdecoded, hchecksum, rfl⟩
    have hlength : indexes.length = 24 := by
      rwa [← hwords, List.length_map] at hcount
    obtain ⟨hindexes, hbytes⟩ := (wordIndexesToBytes_eq_ok hfits hlength).mp hdecoded
    have htake : (decoded.take ROOM_CAPABILITY_BYTES).length = ROOM_CAPABILITY_BYTES := by
      rw [List.length_take, hbytes]
      rfl
    have hsplit : decoded = decoded.take ROOM_CAPABILITY_BYTES ++ [decoded.getD ROOM_CAPABILITY_BYTES 0] := by
      have hlt : ROOM_CAPABILITY_BYTES < decoded.length := by
        rw [hbytes]
        decide
      rw [List.getD_eq_getElem _ _ hlt, List.take_append_getElem]
      exact (List.take_of_length_le (by rw [hbytes])).symm
    refine ⟨htake, indexes, ?_, hwords⟩
    rw [← hchecksum, ← hsplit]
    exact hindexes
  · rintro ⟨hlength, indexes, hindexes, hwords⟩
    have hbytes := length_withChecksum hlength (roomInviteChecksum sha256 capability)
    obtain ⟨hcount, hfits⟩ := bytesToWordIndexes_fits hlength hindexes
    refine ⟨?_, indexes, ⟨hfits, hwords⟩, capability ++ [roomInviteChecksum sha256 capability],
      (wordIndexesToBytes_eq_ok hfits hcount).mpr ⟨hindexes, hbytes⟩, ?_, ?_⟩
    · rw [← hwords, List.length_map, hcount]
    · rw [List.getD_eq_getElem _ _ (by rw [hbytes]; decide), List.take_left' hlength]
      exact List.getElem_concat_length hlength.symm _
    · exact List.take_left' hlength

end

/-! ## All forms -/

/-- **The encodings of a room capability agree.** Every capability of 32 bytes has a base64url form, a
fragment and words, which decode to it as its hexadecimal form does; a text decodes from base64url
exactly if it is what the capability is encoded as; a text decodes from words exactly if it has the
words that the capability is encoded as; and listed words whose checksum does not match their bytes
are rejected. -/
theorem room_capability_encodings (sha256 : Bytes → Bytes) (normalize toLowerCase : JsString → JsString)
    (hnormalize : ∀ text : JsString, (∀ unit ∈ text, unit.toNat < 0x80) → normalize text = text)
    (hlower : ∀ text : JsString, (∀ unit ∈ text, unit.toNat < 0x80) →
      toLowerCase text = text.map asciiLower) :
    (∀ capability : Bytes, capability.length = ROOM_CAPABILITY_BYTES →
      ∃ base64Url fragment words,
        encodeRoomCapabilityBase64Url capability = .ok base64Url ∧
        encodeRoomInviteFragment capability = .ok fragment ∧
        encodeRoomCapabilityWords sha256 capability = .ok words ∧
        decodeRoomCapabilityBase64Url base64Url = .ok capability ∧
        decodeRoomInviteFragment fragment = .ok capability ∧
        decodeRoomCapabilityWords sha256 normalize toLowerCase words = .ok capability ∧
        hexToBytes (bytesToHex capability) = .ok capability ∧
        ∀ form ∈ [base64Url, fragment, 0x23 :: fragment, bytesToHex capability],
          decodeRoomCapability form = .ok capability) ∧
    (∀ encoded capability, decodeRoomCapabilityBase64Url encoded = .ok capability ↔
      encodeRoomCapabilityBase64Url capability = .ok encoded) ∧
    (∀ text capability, decodeRoomCapabilityWords sha256 normalize toLowerCase text = .ok capability ↔
      ∃ words, encodeRoomCapabilityWords sha256 capability = .ok words ∧
        wordsOf normalize toLowerCase text = wordsOf normalize toLowerCase words) ∧
    ∀ text indexes decoded, wordsOf normalize toLowerCase text = indexes.map wordAt →
      indexes.length = ROOM_INVITE_WORDS → (∀ index ∈ indexes, index < wordlist.length) →
      wordIndexesToBytes indexes = .ok decoded →
      decoded.getD ROOM_CAPABILITY_BYTES 0 ≠
        roomInviteChecksum sha256 (decoded.take ROOM_CAPABILITY_BYTES) →
      decodeRoomCapabilityWords sha256 normalize toLowerCase text =
        .error (.error "Room invite checksum is invalid") := by
  -- The words of an encoding are the words that were joined.
  have hwordsOf : ∀ {capability text}, encodeRoomCapabilityWords sha256 capability = .ok text →
      ∃ indexes, bytesToWordIndexes (capability ++ [roomInviteChecksum sha256 capability]) = .ok indexes ∧
        wordsOf normalize toLowerCase text = indexes.map wordAt := by
    intro capability text h
    obtain ⟨hlength, indexes, hindexes, rfl⟩ := encodeRoomCapabilityWords_eq_ok.mp h
    obtain ⟨hcount, hfits⟩ := bytesToWordIndexes_fits hlength hindexes
    refine ⟨indexes, hindexes, wordsOf_joinSpaces hnormalize hlower ?_ (words_map_wordAt hfits)⟩
    intro hnil
    rw [List.map_eq_nil_iff.mp hnil] at hcount
    cases hcount
  have hiff : ∀ text capability,
      decodeRoomCapabilityWords sha256 normalize toLowerCase text = .ok capability ↔
      ∃ words, encodeRoomCapabilityWords sha256 capability = .ok words ∧
        wordsOf normalize toLowerCase text = wordsOf normalize toLowerCase words := by
    intro text capability
    rw [decodeRoomCapabilityWords_eq_ok]
    constructor
    · rintro ⟨hlength, indexes, hindexes, hwords⟩
      have hencode := encodeRoomCapabilityWords_eq_ok.mpr ⟨hlength, indexes, hindexes, rfl⟩
      obtain ⟨indexes', hindexes', hwords'⟩ := hwordsOf hencode
      obtain rfl := Except.ok.inj (hindexes.symm.trans hindexes')
      exact ⟨_, hencode, by rw [← hwords, hwords']⟩
    · rintro ⟨words, hencode, hwords⟩
      obtain ⟨hlength, -⟩ := encodeRoomCapabilityWords_eq_ok.mp hencode
      obtain ⟨indexes, hindexes, hwords'⟩ := hwordsOf hencode
      exact ⟨hlength, indexes, hindexes, by rw [hwords, hwords']⟩
  refine ⟨?_, fun _ _ => decodeRoomCapabilityBase64Url_iff, hiff, ?_⟩
  · intro capability hlength
    have hencode := encodeRoomCapabilityBase64Url_eq_ok.mpr ⟨hlength, rfl⟩
    have hdecode := decodeRoomCapabilityBase64Url_iff.mpr hencode
    obtain ⟨indexes, hindexes, -⟩ :=
      bytesToWordIndexes_spec (length_withChecksum hlength (roomInviteChecksum sha256 capability))
    have hwords := encodeRoomCapabilityWords_eq_ok.mpr ⟨hlength, indexes, hindexes, rfl⟩
    refine ⟨_, ROOM_INVITE_PREFIX ++ (sextets capability).map alphabetAt, _, hencode, ?_, hwords, hdecode,
      ?_, (hiff _ _).mpr ⟨_, hwords, rfl⟩, hexToBytes_bytesToHex hlength, ?_⟩
    · rw [encodeRoomInviteFragment, hencode]
      rfl
    · rw [(decodeRoomInviteFragment_append _).1]
      exact hdecode
    · intro form hform
      simp only [List.mem_cons, List.not_mem_nil, or_false] at hform
      rcases hform with rfl | rfl | rfl | rfl
      · exact decodeRoomCapability_base64Url hencode
      · rw [(decodeRoomCapability_append _).1]
        exact hdecode
      · rw [(decodeRoomCapability_append _).2]
        exact hdecode
      · exact decodeRoomCapability_bytesToHex hlength
  · intro text indexes decoded hwords hcount hlisted hdecoded hchecksum
    have hfits : DigitsFit 11 indexes := by
      intro index hindex
      have hlt := hlisted index hindex
      rwa [length_wordlist] at hlt
    have hmapM : (wordsOf normalize toLowerCase text).mapM wordIndex = .ok indexes :=
      mapM_wordIndex_eq_ok.mpr ⟨hfits, hwords.symm⟩
    have hlength : (wordsOf normalize toLowerCase text).length = ROOM_INVITE_WORDS := by
      rw [hwords, List.length_map, hcount]
    simp only [decodeRoomCapabilityWords, demand_bind, if_pos hlength, hmapM, hdecoded, ok_bind,
      if_neg hchecksum]

/-- ASCII text as a string of the language. -/
def asciiUnits (text : String) : JsString := text.toList.map fun c => UInt16.ofNat c.toNat

/-- The capability of the bytes from 0 on. -/
def countingCapability : Bytes := (List.range 32).map UInt8.ofNat

/-- The first byte of SHA-256 of the checksum domain and the counting capability. -/
def countingDigest (_ : Bytes) : Bytes := 169 :: List.replicate 31 0

/-- Its base64url and its words, with tables that know ASCII only. -/
theorem room_capability_encodings_counting :
    decodeRoomCapabilityBase64Url (asciiUnits "AAECAwQFBgcICQoLDA0ODxAREhMUFRYXGBkaGxwdHh8") =
      .ok countingCapability ∧
    decodeRoomCapabilityWords countingDigest id (List.map asciiLower) (asciiUnits
      ("abandon amount liar amount expire adjust cage candy arch gather drum bullet absurd " ++
        "math era live bid rhythm alien crouch range attend journey vivid")) =
      .ok countingCapability := by
  obtain ⟨-, hbase64Url, hwords, -⟩ := room_capability_encodings countingDigest id
    (List.map asciiLower) (fun _ _ => rfl) (fun _ _ => rfl)
  refine ⟨(hbase64Url _ _).mpr (by decide +kernel), (hwords _ _).mpr ⟨_, ?_, rfl⟩⟩
  decide +kernel

end RoomInvite

end P2Party
