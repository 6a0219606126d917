import P2Party.Base.Utf8Cut
import P2Party.Messages.Metadata

/-!
# What a name goes through (`utils/metadata.ts`)

A name is cut after 256 bytes, padded with zeros, decoded, and sanitised. A cut inside a
character leaves a replacement character, and the decoder drops a leading byte-order mark; the
date is written as a signed number and read as an unsigned one. Names are strings without lone
surrogates: `File.name` has none, and where `substring(0, 255)` leaves half a pair, `takeUnits` has the
replacement character the encoder writes for it.

- `sanitized`: the characters of a sanitised name;
- `receivedName`, `receivedName_eq`: the name that is read;
- `metadata_codec`: exactly which metadata comes back with its name cut to whole characters and
  sanitised, and exactly which received names come back unchanged.
-/

namespace P2Party

open Base

/-! ## Sanitised names -/

/-- The character that stands for another in a name. -/
def safeChar (c : Char) : Char := if isUnsafeChar c then '_' else c

/-- The characters of a sanitised name. -/
def sanitized (cs : List Char) : List Char := (cs.map safeChar).filter fun c => !isControlChar c

theorem sanitized_append (cs ds : List Char) : sanitized (cs ++ ds) = sanitized cs ++ sanitized ds := by
  rw [sanitized, List.map_append, List.filter_append]
  rfl

theorem sanitized_zeros (n : Nat) : sanitized (List.replicate n (Char.ofNat 0)) = [] := by
  rw [sanitized, List.map_replicate, List.filter_eq_nil_iff]
  intro c hc
  rw [List.eq_of_mem_replicate hc]
  decide

theorem stripTrailingZeros_zeros (cs : List Char) :
    ∃ n, cs = stripTrailingZeros cs ++ List.replicate n (Char.ofNat 0) := by
  refine ⟨(cs.reverse.takeWhile (· == Char.ofNat 0)).length, ?_⟩
  have hzeros : cs.reverse.takeWhile (· == Char.ofNat 0) =
      List.replicate (cs.reverse.takeWhile (· == Char.ofNat 0)).length (Char.ofNat 0) :=
    List.eq_replicate_iff.mpr ⟨rfl, fun c hc => eq_of_beq (List.all_eq_true.mp List.all_takeWhile c hc)⟩
  have hsplit := List.takeWhile_append_dropWhile (p := fun c => c == Char.ofNat 0) (l := cs.reverse)
  rw [stripTrailingZeros, ← List.reverse_replicate, ← hzeros, ← List.reverse_append, hsplit, List.reverse_reverse]

/-- The zeros a name ends with are control characters, which are dropped anyway. -/
theorem sanitizeName_eq (cs : List Char) : sanitizeName cs = String.ofList (sanitized cs) := by
  obtain ⟨n, hn⟩ := stripTrailingZeros_zeros cs
  have hsame : sanitized cs = sanitized (stripTrailingZeros cs) := by
    conv_lhs => rw [hn]
    rw [sanitized_append, sanitized_zeros, List.append_nil]
  rw [hsame]
  rfl

/-- A character no pass touches. -/
def Clean (c : Char) : Prop := isUnsafeChar c = false ∧ isControlChar c = false

instance (c : Char) : Decidable (Clean c) := inferInstanceAs (Decidable (_ ∧ _))

theorem clean_safeChar {c : Char} (h : isControlChar (safeChar c) = false) : Clean (safeChar c) := by
  refine ⟨?_, h⟩
  unfold safeChar
  split
  · decide
  · rename_i hsafe
    exact Bool.not_eq_true _ ▸ hsafe

theorem clean_sanitized {cs : List Char} {c : Char} (h : c ∈ sanitized cs) : Clean c := by
  obtain ⟨hmem, hkept⟩ := List.mem_filter.mp h
  obtain ⟨d, -, rfl⟩ := List.mem_map.mp hmem
  exact clean_safeChar (by simpa using hkept)

theorem sanitized_of_clean {cs : List Char} (h : ∀ c ∈ cs, Clean c) : sanitized cs = cs := by
  have hmap : cs.map safeChar = cs := by
    refine (List.map_congr_left fun c hc => ?_).trans (List.map_id cs)
    rw [safeChar, (h c hc).1]
    rfl
  rw [sanitized, hmap, List.filter_eq_self]
  intro c hc
  rw [(h c hc).2]
  rfl

theorem clean_replacement : Clean replacement := by decide

/-! ## The name that is read -/

/-- The characters a name decodes to once its bytes are cut. -/
def cutName (cs : List Char) : List Char :=
  fitting NAME_LEN cs ++ if CutInside NAME_LEN cs then [replacement] else []

/-- The name that is read for a name that was written. -/
def receivedName (name : String) : String := sanitizeName (utf8Decode (nameField name))

theorem withoutMark_zeros (cs : List Char) (n : Nat) :
    withoutMark (cs ++ List.replicate n (Char.ofNat 0)) = withoutMark cs ++ List.replicate n (Char.ofNat 0) := by
  cases cs with
  | nil =>
    rw [List.nil_append, withoutMark_of_ne]
    · rfl
    · cases n with
      | zero => exact (Option.some_ne_none _).symm
      | succ n => exact fun h => absurd (Option.some.inj h) (by decide)
  | cons c cs =>
    by_cases hc : c = byteOrderMark
    · rw [hc, List.cons_append, withoutMark_cons, withoutMark_cons]
    · have hne : ∀ ds : List Char, (c :: ds).head? ≠ some byteOrderMark := fun ds h => hc (Option.some.inj h)
      rw [List.cons_append, withoutMark_of_ne (hne _), withoutMark_of_ne (hne _), List.cons_append]

theorem receivedName_eq (name : String) :
    receivedName name = String.ofList (sanitized (withoutMark (cutName name.toList))) := by
  have hencode := textEncode_eq_encodeChars name
  rw [receivedName, sanitizeName_eq, nameField, LibCrypto.pad, hencode]
  congr 1
  by_cases hlen : (encodeChars name.toList).length ≤ NAME_LEN
  · -- the whole name is written, and zeros behind it
    have hcut : ¬ CutInside NAME_LEN name.toList := by
      rw [CutInside, fitting_eq_self hlen, Nat.min_eq_right hlen]
      exact not_not.mpr rfl
    have hpadded : (encodeChars (name.toList ++
        List.replicate (NAME_LEN - (encodeChars name.toList).length) (Char.ofNat 0))).length = NAME_LEN := by
      rw [encodeChars_append, encodeChars_zeros, List.length_append, List.length_replicate]
      omega
    have hdecode := utf8Decode_take NAME_LEN (name.toList ++
      List.replicate (NAME_LEN - (encodeChars name.toList).length) (Char.ofNat 0))
    rw [List.take_of_length_le (Nat.le_of_eq hpadded), if_neg, List.append_nil,
      fitting_eq_self (Nat.le_of_eq hpadded), withoutMark_zeros, encodeChars_append, encodeChars_zeros] at hdecode
    · rw [List.take_append, List.take_of_length_le hlen, List.take_replicate, Nat.min_eq_left (Nat.sub_le _ _),
        hdecode, sanitized_append, sanitized_zeros, List.append_nil, cutName,
        if_neg hcut, List.append_nil, fitting_eq_self hlen]
    · rw [CutInside, fitting_eq_self (Nat.le_of_eq hpadded), hpadded, Nat.min_self]
      exact not_not.mpr rfl
  · rw [List.take_append_of_le_length (Nat.le_of_not_le hlen), utf8Decode_take]
    rfl

/-! ## The characters that are lost or gained -/

theorem eq_of_append_eq_cons {c d : Char} {cs : List Char} (h : cs ++ [c] = d :: cs) : d = c := by
  have hcount := congrArg (List.count c) h
  rw [List.count_append, List.count_singleton_self, List.count_cons] at hcount
  by_contra hne
  rw [if_neg (by simpa using hne)] at hcount
  omega

theorem fitting_head {cs : List Char} (h : cs.head? = some byteOrderMark) :
    ∃ rest, fitting NAME_LEN cs = byteOrderMark :: rest := by
  cases cs with
  | nil => cases h
  | cons c cs =>
    obtain rfl : c = byteOrderMark := Option.some.inj h
    rw [fitting, if_pos (show byteOrderMark.utf8Size ≤ NAME_LEN by decide)]
    exact ⟨_, rfl⟩

theorem withoutMark_cutName {cs : List Char} (h : cs.head? ≠ some byteOrderMark) :
    withoutMark (cutName cs) = cutName cs := by
  refine withoutMark_of_ne ?_
  unfold cutName
  cases cs with
  | nil =>
    rw [show fitting NAME_LEN [] = [] from rfl, List.nil_append]
    split
    · exact fun hhead => absurd (Option.some.inj hhead) (by decide)
    · exact h
  | cons c cs =>
    rw [fitting]
    split
    · exact h
    · rw [List.nil_append]
      split
      · exact fun hhead => absurd (Option.some.inj hhead) (by decide)
      · exact (Option.some_ne_none _).symm

/-- A name is read as the whole characters that were written, unless the mark is dropped or a
character is cut. -/
theorem sanitized_cut_iff (cs : List Char) :
    sanitized (withoutMark (cutName cs)) = sanitized (fitting NAME_LEN cs) ↔
      cs.head? ≠ some byteOrderMark ∧ ¬ CutInside NAME_LEN cs := by
  have hlast : sanitized [replacement] = [replacement] := by decide
  constructor
  · intro h
    by_cases hmark : cs.head? = some byteOrderMark
    · -- the mark is gone; a replacement character at the end cannot stand for it
      obtain ⟨rest, hfit⟩ := fitting_head hmark
      have hfirst : sanitized (byteOrderMark :: rest) = byteOrderMark :: sanitized rest :=
        sanitized_append [byteOrderMark] rest
      rw [cutName, hfit, List.cons_append, withoutMark_cons, sanitized_append, hfirst] at h
      split at h
      · rw [hlast] at h
        exact absurd (eq_of_append_eq_cons h) (by decide)
      · have hlength := congrArg List.length h
        rw [List.length_append, List.length_cons, show sanitized [] = [] from rfl, List.length_nil] at hlength
        omega
    · refine ⟨hmark, fun hcut => ?_⟩
      rw [withoutMark_cutName hmark, cutName, if_pos hcut, sanitized_append, hlast] at h
      have hlength := congrArg List.length h
      rw [List.length_append, List.length_singleton] at hlength
      omega
  · rintro ⟨hmark, hcut⟩
    rw [withoutMark_cutName hmark, cutName, if_neg hcut, List.append_nil]

/-- What a sanitised name must be to come back unchanged. -/
structure ComesBack (cs : List Char) : Prop where
  mark : cs.head? ≠ some byteOrderMark
  length : (encodeChars cs).length ≤ NAME_LEN ∨
    CutInside NAME_LEN cs ∧ cs = fitting NAME_LEN cs ++ [replacement]

theorem sanitized_again_iff {cs : List Char} (hclean : ∀ c ∈ cs, Clean c) :
    sanitized (withoutMark (cutName cs)) = cs ↔ ComesBack cs := by
  have hfit : ∀ c ∈ fitting NAME_LEN cs, Clean c := fun c hc => hclean c ((prefix_fitting _ _).subset hc)
  have hcutClean : ∀ c ∈ cutName cs, Clean c := by
    intro c hc
    rcases List.mem_append.mp hc with hold | hnew
    · exact hfit c hold
    · split at hnew
      · rw [List.mem_singleton.mp hnew]
        exact clean_replacement
      · cases hnew
  constructor
  · intro h
    by_cases hmark : cs.head? = some byteOrderMark
    · -- one character is lost, and at most one is gained in the place of what is cut
      exfalso
      obtain ⟨rest, hrest⟩ := fitting_head hmark
      have hsub : ∀ c ∈ rest ++ (if CutInside NAME_LEN cs then [replacement] else []), Clean c := by
        intro c hc
        refine hcutClean c ?_
        rw [cutName, hrest, List.cons_append]
        exact List.mem_cons_of_mem _ hc
      rw [cutName, hrest, List.cons_append, withoutMark_cons, sanitized_of_clean hsub] at h
      have hlength := congrArg List.length h
      have hprefix := prefix_fitting NAME_LEN cs
      rw [hrest] at hprefix
      have hle := hprefix.length_le
      rw [List.length_append] at hlength
      rw [List.length_cons] at hle
      split at hlength
      · rename_i hcut
        rw [List.length_singleton] at hlength
        have hsame := hprefix.eq_of_length (by rw [List.length_cons]; exact hlength)
        rw [CutInside, hrest, hsame] at hcut
        have hbound := length_fitting_le NAME_LEN cs
        rw [hrest, hsame] at hbound
        exact hcut (Nat.min_eq_right hbound).symm
      · rw [List.length_nil] at hlength
        omega
    · rw [withoutMark_cutName hmark, sanitized_of_clean hcutClean] at h
      refine ⟨hmark, ?_⟩
      by_cases hcut : CutInside NAME_LEN cs
      · rw [cutName, if_pos hcut] at h
        exact .inr ⟨hcut, h.symm⟩
      · rw [cutName, if_neg hcut, List.append_nil] at h
        exact .inl (h ▸ length_fitting_le NAME_LEN cs)
  · rintro ⟨hmark, hlength⟩
    rw [withoutMark_cutName hmark, sanitized_of_clean hcutClean, cutName]
    rcases hlength with hle | ⟨hcut, heq⟩
    · rw [if_neg, List.append_nil, fitting_eq_self hle]
      rw [CutInside, fitting_eq_self hle, Nat.min_eq_right hle]
      exact not_not.mpr rfl
    · rw [if_pos hcut]
      exact heq.symm

/-! ## The codec -/

/-- What a `Date` may hold: no time, or one within its range. -/
def Metadata.HasDate (m : Metadata) : Prop :=
  ∀ time ∈ m.date, -8640000000000000 ≤ time ∧ time ≤ 8640000000000000

/-- Metadata comes back as it was sent, with its name cut to the longest prefix of whole
characters within 256 bytes and sanitised. -/
def ReadsBack (m : Metadata) : Prop :=
  ∃ bytes, serializeMetadata m = .ok bytes ∧
    deserializeMetadata bytes = .ok { m with name := sanitizeName (fitting NAME_LEN m.name.toList) }

/-- Whatever metadata it is sent with, a name comes back as it was sent. -/
def Unchanged (name : String) : Prop :=
  ∀ m : Metadata, assertMetadataV1 m = .ok () → m.HasDate → m.name = name →
    ∃ bytes m', serializeMetadata m = .ok bytes ∧ deserializeMetadata bytes = .ok m' ∧ m'.name = name

variable {m : Metadata} {time : Int}

theorem fieldsFit_of_valid (h : assertMetadataV1 m = .ok ()) : FieldsFit m := by
  obtain ⟨hschema, htype, hhash, htotal, -, hstart, hend, hindex, -⟩ := assertMetadataV1_eq_ok.mp h
  simp only [MAX_SAFE_INTEGER] at hstart hend hindex
  simp only [MAX_MESSAGE_SIZE] at htotal
  exact ⟨by omega, by omega, hhash, by omega, by omega, by omega, by omega⟩

/-- A time of a `Date` is read as it was written unless it lies before 1970. -/
theorem newDate_wrapped (hrange : -8640000000000000 ≤ time ∧ time ≤ 8640000000000000) :
    newDate (time % 2 ^ 64).toNat = some time ↔ 0 ≤ time := by
  unfold newDate
  constructor
  · intro h
    split at h
    · exact Option.some.inj h ▸ Int.natCast_nonneg _
    · cases h
  · intro h
    have hsame : ((time % 2 ^ 64).toNat : Int) = time := by omega
    rw [if_pos (by omega), hsame]

/-- What valid metadata becomes on the way. -/
theorem codec_of_valid (h : assertMetadataV1 m = .ok ()) :
    ∃ time ∈ m.date, serializeMetadata m = .ok (metadataBytes m (time % 2 ^ 64).toNat) ∧
      deserializeMetadata (metadataBytes m (time % 2 ^ 64).toNat) =
        .ok { m with date := newDate (time % 2 ^ 64).toNat, name := receivedName m.name } := by
  have hfits := fieldsFit_of_valid h
  obtain ⟨-, -, -, -, ⟨time, htime, -⟩, -⟩ := assertMetadataV1_eq_ok.mp h
  have hdate : m.date = some time := htime
  refine ⟨time, htime, ?_, deserializeMetadata_bytes hfits (by omega)⟩
  unfold serializeMetadata
  rw [hdate]
  simp only [LibCrypto.pad_of_length hfits.hash]
  rfl

theorem ofList_inj {cs ds : List Char} : String.ofList cs = String.ofList ds ↔ cs = ds := by
  constructor
  · intro h
    have := congrArg String.toList h
    rwa [String.toList_ofList, String.toList_ofList] at this
  · rintro rfl
    rfl

theorem readsBack_iff (h : assertMetadataV1 m = .ok ()) (hdate : m.HasDate) :
    ReadsBack m ↔ (∀ time ∈ m.date, 0 ≤ time) ∧ m.name.toList.head? ≠ some byteOrderMark ∧
      ¬ CutInside NAME_LEN m.name.toList := by
  obtain ⟨time, htime, hserialize, hdeserialize⟩ := codec_of_valid h
  have hsome : m.date = some time := htime
  have hname : receivedName m.name = sanitizeName (fitting NAME_LEN m.name.toList) ↔
      m.name.toList.head? ≠ some byteOrderMark ∧ ¬ CutInside NAME_LEN m.name.toList := by
    rw [receivedName_eq, sanitizeName_eq, ofList_inj]
    exact sanitized_cut_iff m.name.toList
  have htimeBack := newDate_wrapped (hdate time htime)
  constructor
  · rintro ⟨bytes, hbytes, hread⟩
    rw [hserialize] at hbytes
    cases hbytes
    rw [hdeserialize] at hread
    have hsame := Metadata.mk.inj (Except.ok.inj hread)
    refine ⟨fun t ht => ?_, hname.mp hsame.2.2.2.2.2.1⟩
    have hback := hsame.2.2.2.2.1
    rw [hsome] at hback ht
    cases ht
    exact htimeBack.mp hback
  · rintro ⟨hpositive, hcut⟩
    refine ⟨_, hserialize, ?_⟩
    rw [hdeserialize, htimeBack.mpr (hpositive time htime), hname.mpr hcut, ← hsome]

theorem unchanged_iff (name : String) : Unchanged name ↔ receivedName name = name := by
  constructor
  · intro h
    obtain ⟨bytes, m', hbytes, hread, hname⟩ := h ⟨1, 1, List.replicate HASH_BYTES 0, 1, some 0, name, 0, 1, 0⟩
      rfl (fun _ ht => Option.some.inj ht ▸ ⟨by decide, by decide⟩) rfl
    obtain ⟨time, -, hserialize, hdeserialize⟩ := @codec_of_valid
      ⟨1, 1, List.replicate HASH_BYTES 0, 1, some 0, name, 0, 1, 0⟩ rfl
    rw [hserialize] at hbytes
    cases hbytes
    rw [hdeserialize] at hread
    cases hread
    exact hname
  · intro h m hvalid _ hname
    obtain ⟨time, -, hserialize, hdeserialize⟩ := codec_of_valid hvalid
    exact ⟨_, _, hserialize, hdeserialize, by rw [hname]; exact h⟩

/-- **The metadata codec.** Metadata that passes the check comes back, its name cut and sanitised,
exactly when its date is not before 1970, its name does not begin with a byte-order mark and its
name is not cut inside a character; and a received name comes back unchanged exactly when it does
not begin with the mark and has at most 256 bytes, or loses nothing but part of a replacement
character at its end. -/
theorem metadata_codec (m : Metadata) (buffer : Bytes) (received : Metadata) :
    (assertMetadataV1 m = .ok () → m.HasDate →
      (ReadsBack m ↔ (∀ time ∈ m.date, 0 ≤ time) ∧ m.name.toList.head? ≠ some byteOrderMark ∧
        ¬ CutInside NAME_LEN m.name.toList)) ∧
      (deserializeMetadata buffer = .ok received →
        (Unchanged received.name ↔ ComesBack received.name.toList)) := by
  refine ⟨readsBack_iff, fun hread => ?_⟩
  obtain ⟨_, -, hread⟩ := except_bind_eq_ok.mp hread
  have hname : received.name = sanitizeName (utf8Decode (slice buffer 89 NAME_LEN)) :=
    congrArg Metadata.name (Except.ok.inj hread).symm
  have hclean : ∀ c ∈ received.name.toList, Clean c := by
    rw [hname, sanitizeName_eq, String.toList_ofList]
    exact fun c => clean_sanitized
  rw [unchanged_iff, ← sanitized_again_iff hclean, receivedName_eq]
  constructor
  · intro h
    have := congrArg String.toList h
    rwa [String.toList_ofList] at this
  · intro h
    rw [h, String.ofList_toList]

/-- Metadata of a message of a given time and name. -/
def sampleMetadata (time : Int) (name : String) : Metadata :=
  ⟨1, 1, List.replicate HASH_BYTES 0, 1, some time, name, 0, 1, 0⟩

/-- A short message of 1970 comes back, and its name as often as it is sent. -/
theorem metadata_codec_message : ReadsBack (sampleMetadata 0 "message") ∧ Unchanged "message" := by
  have hdate : (sampleMetadata 0 "message").HasDate := by
    rintro time ⟨⟩
    exact ⟨by decide, by decide⟩
  have hreads : ReadsBack (sampleMetadata 0 "message") := by
    refine ((metadata_codec (sampleMetadata 0 "message") [] (sampleMetadata 0 "message")).1 rfl hdate).mpr ⟨?_, by decide, by decide⟩
    rintro time ⟨⟩
    exact Int.le_refl 0
  obtain ⟨bytes, hbytes, hread⟩ := hreads
  have hname : sanitizeName (fitting NAME_LEN (sampleMetadata 0 "message").name.toList) = "message" := by decide
  have hagain := (metadata_codec (sampleMetadata 0 "message") bytes _).2 hread
  dsimp only at hagain
  rw [hname] at hagain
  exact ⟨⟨bytes, hbytes, hread⟩, hagain.mpr ⟨by decide, .inl (by decide)⟩⟩

/-- A message of the last millisecond of 1969 has no date when it is read. -/
theorem metadata_before_1970 : assertMetadataV1 (sampleMetadata (-1) "message") = .ok () ∧
    (sampleMetadata (-1) "message").HasDate ∧ ¬ ReadsBack (sampleMetadata (-1) "message") := by
  refine ⟨rfl, ?_, ?_⟩
  · rintro time ⟨⟩
    exact ⟨by decide, by decide⟩
  · rintro ⟨bytes, hbytes, hread⟩
    obtain ⟨time, htime, hserialize, hdeserialize⟩ := @codec_of_valid (sampleMetadata (-1) "message") rfl
    cases htime
    rw [hserialize] at hbytes
    cases hbytes
    rw [hdeserialize] at hread
    exact absurd (congrArg Metadata.date (Except.ok.inj hread)) (by decide)

end P2Party
