import P2Party.Base.Utf8

/-!
# UTF-8 texts that are cut

Encoded characters decode to themselves, whatever follows. Bytes that end inside a character
decode to the whole characters in front of it and one replacement character.

- `encodeChars`: the bytes of a text (`utf8DecodeFrom_encode`);
- `fitting`: the longest prefix of whole characters within a number of bytes
  (`prefix_fitting`);
- `CutInside`: the bytes end inside a character;
- `utf8Decode_take`: what a cut text decodes to, without a leading byte-order mark.
-/

namespace Base

/-- The byte-order mark. -/
def byteOrderMark : Char := Char.ofNat 0xfeff

/-- The bytes of a text. -/
def encodeChars (cs : List Char) : Bytes := cs.flatMap String.utf8EncodeChar

/-- The longest prefix of whole characters within `n` bytes. -/
def fitting : Nat → List Char → List Char
  | _, [] => []
  | n, c :: cs => if c.utf8Size ≤ n then c :: fitting (n - c.utf8Size) cs else []

/-- The first `n` bytes end inside a character. -/
def CutInside (n : Nat) (cs : List Char) : Prop :=
  (encodeChars (fitting n cs)).length ≠ min n (encodeChars cs).length

instance (n : Nat) (cs : List Char) : Decidable (CutInside n cs) :=
  inferInstanceAs (Decidable (_ ≠ _))

theorem textEncode_eq_encodeChars (s : String) : textEncode s = encodeChars s.toList :=
  textEncode_eq_flatMap s

@[simp] theorem encodeChars_nil : encodeChars [] = [] := rfl

@[simp] theorem encodeChars_cons (c : Char) (cs : List Char) :
    encodeChars (c :: cs) = String.utf8EncodeChar c ++ encodeChars cs := rfl

theorem encodeChars_zeros (n : Nat) :
    encodeChars (List.replicate n (Char.ofNat 0)) = List.replicate n 0 := by
  induction n with
  | zero => rfl
  | succ n ih =>
    rw [List.replicate_succ, encodeChars_cons, ih, List.replicate_succ]
    rfl

theorem encodeChars_append (cs ds : List Char) :
    encodeChars (cs ++ ds) = encodeChars cs ++ encodeChars ds := List.flatMap_append

/-! ## One character -/

section Character

variable {byte : Nat} {b : UInt8} {rest : Bytes} {state : Utf8State}

theorem utf8Start_two (h : 0xc2 ≤ byte ∧ byte ≤ 0xdf) :
    utf8Start byte = ([], ⟨byte % 0x20, 1, 0x80, 0xbf⟩) := by
  rw [utf8Start, if_neg (by omega), if_pos h]

theorem utf8Start_three (h : 0xe0 ≤ byte ∧ byte ≤ 0xef) :
    utf8Start byte = ([], ⟨byte % 0x10, 2, if byte = 0xe0 then 0xa0 else 0x80,
      if byte = 0xed then 0x9f else 0xbf⟩) := by
  rw [utf8Start, if_neg (by omega), if_neg (by omega), if_pos h]

theorem utf8Start_four (h : 0xf0 ≤ byte ∧ byte ≤ 0xf4) :
    utf8Start byte = ([], ⟨byte % 0x08, 3, if byte = 0xf0 then 0x90 else 0x80,
      if byte = 0xf4 then 0x8f else 0xbf⟩) := by
  rw [utf8Start, if_neg (by omega), if_neg (by omega), if_neg (by omega), if_pos h]

/-- A byte that continues a character without ending it. -/
theorem utf8DecodeFrom_more (hneeded : 1 < state.needed)
    (hrange : state.lower ≤ b.toNat ∧ b.toNat ≤ state.upper) :
    utf8DecodeFrom state (b :: rest) =
      utf8DecodeFrom ⟨state.codePoint * 0x40 + b.toNat % 0x40, state.needed - 1, 0x80, 0xbf⟩ rest := by
  have hstep : utf8Step state b.toNat =
      ([], ⟨state.codePoint * 0x40 + b.toNat % 0x40, state.needed - 1, 0x80, 0xbf⟩) := by
    rw [utf8Step, if_neg (by omega), if_pos hrange]
    dsimp only
    rw [if_neg (by omega)]
  rw [utf8DecodeFrom, hstep, List.nil_append]

/-- The last byte of a character. -/
theorem utf8DecodeFrom_last (hneeded : state.needed = 1)
    (hrange : state.lower ≤ b.toNat ∧ b.toNat ≤ state.upper) :
    utf8DecodeFrom state (b :: rest) =
      Char.ofNat (state.codePoint * 0x40 + b.toNat % 0x40) :: utf8DecodeFrom .idle rest := by
  have hstep : utf8Step state b.toNat =
      ([Char.ofNat (state.codePoint * 0x40 + b.toNat % 0x40)], .idle) := by
    rw [utf8Step, if_neg (by omega), if_pos hrange]
    dsimp only
    rw [if_pos hneeded]
  rw [utf8DecodeFrom, hstep, List.singleton_append]

/-- The first byte of a character of more bytes. -/
theorem utf8DecodeFrom_start (h : utf8Start b.toNat = ([], state)) :
    utf8DecodeFrom .idle (b :: rest) = utf8DecodeFrom state rest := by
  have hstep : utf8Step .idle b.toNat = ([], state) := h
  rw [utf8DecodeFrom, hstep, List.nil_append]

theorem utf8DecodeFrom_end (h : state.needed ≠ 0) : utf8DecodeFrom state [] = [replacement] := by
  rw [utf8DecodeFrom, if_neg h]

/-- The ranges the bytes of a character of two bytes are in. -/
theorem bytes_two {v : Nat} (hv : 0x7f < v ∧ v ≤ 0x7ff) :
    (UInt8.ofNat (v / 64 % 0x20 + 0xc0)).toNat = v / 64 + 0xc0 ∧
      (UInt8.ofNat (v % 0x40 + 0x80)).toNat = v % 64 + 0x80 := by
  rw [UInt8.toNat_ofNat_of_lt' (show v / 64 % 0x20 + 0xc0 < UInt8.size by simp only [UInt8.size]; omega),
    UInt8.toNat_ofNat_of_lt' (show v % 0x40 + 0x80 < UInt8.size by simp only [UInt8.size]; omega)]
  omega

theorem bytes_three {v : Nat} (hv : 0x7ff < v ∧ v ≤ 0xffff) :
    (UInt8.ofNat (v / 4096 % 0x10 + 0xe0)).toNat = v / 4096 + 0xe0 ∧
      (UInt8.ofNat (v / 64 % 0x40 + 0x80)).toNat = v / 64 % 64 + 0x80 ∧
      (UInt8.ofNat (v % 0x40 + 0x80)).toNat = v % 64 + 0x80 := by
  rw [UInt8.toNat_ofNat_of_lt' (show v / 4096 % 0x10 + 0xe0 < UInt8.size by simp only [UInt8.size]; omega),
    UInt8.toNat_ofNat_of_lt' (show v / 64 % 0x40 + 0x80 < UInt8.size by simp only [UInt8.size]; omega),
    UInt8.toNat_ofNat_of_lt' (show v % 0x40 + 0x80 < UInt8.size by simp only [UInt8.size]; omega)]
  omega

theorem bytes_four {v : Nat} (hv : 0xffff < v ∧ v < 0x110000) :
    (UInt8.ofNat (v / 262144 % 0x08 + 0xf0)).toNat = v / 262144 + 0xf0 ∧
      (UInt8.ofNat (v / 4096 % 0x40 + 0x80)).toNat = v / 4096 % 64 + 0x80 ∧
      (UInt8.ofNat (v / 64 % 0x40 + 0x80)).toNat = v / 64 % 64 + 0x80 ∧
      (UInt8.ofNat (v % 0x40 + 0x80)).toNat = v % 64 + 0x80 := by
  rw [UInt8.toNat_ofNat_of_lt' (show v / 262144 % 0x08 + 0xf0 < UInt8.size by simp only [UInt8.size]; omega),
    UInt8.toNat_ofNat_of_lt' (show v / 4096 % 0x40 + 0x80 < UInt8.size by simp only [UInt8.size]; omega),
    UInt8.toNat_ofNat_of_lt' (show v / 64 % 0x40 + 0x80 < UInt8.size by simp only [UInt8.size]; omega),
    UInt8.toNat_ofNat_of_lt' (show v % 0x40 + 0x80 < UInt8.size by simp only [UInt8.size]; omega)]
  omega

/-- What the decoder does with the bytes of one character: all of them give the character, and
a part of them the replacement character. -/
structure DecodesChar (bs : Bytes) (c : Char) : Prop where
  whole : ∀ rest, utf8DecodeFrom .idle (bs ++ rest) = c :: utf8DecodeFrom .idle rest
  part : ∀ k, 0 < k → k < bs.length → utf8DecodeFrom .idle (bs.take k) = [replacement]

theorem decodes_one {v : Nat} (hv : v ≤ 0x7f) : DecodesChar [UInt8.ofNat v] (Char.ofNat v) := by
  have hbyte : (UInt8.ofNat v).toNat = v :=
    UInt8.toNat_ofNat_of_lt' (by simp only [UInt8.size]; omega)
  constructor
  · intro rest
    rw [List.singleton_append, utf8DecodeFrom_cons_ascii (by omega), hbyte]
  · intro k hpos hlt
    rw [List.length_singleton] at hlt
    omega

theorem decodes_two {v : Nat} (hv : 0x7f < v ∧ v ≤ 0x7ff) :
    DecodesChar [UInt8.ofNat (v / 64 % 0x20 + 0xc0), UInt8.ofNat (v % 0x40 + 0x80)] (Char.ofNat v) := by
  obtain ⟨hfirst, hsecond⟩ := bytes_two hv
  have hstart := utf8Start_two (show 0xc2 ≤ v / 64 + 0xc0 ∧ v / 64 + 0xc0 ≤ 0xdf by omega)
  rw [← hfirst] at hstart
  constructor
  · intro rest
    have hvalue : (v / 64 + 0xc0) % 0x20 * 0x40 + (v % 64 + 0x80) % 0x40 = v := by omega
    rw [List.cons_append, utf8DecodeFrom_start hstart, List.singleton_append,
      utf8DecodeFrom_last rfl ⟨by dsimp only; omega, by dsimp only; omega⟩]
    dsimp only
    rw [hfirst, hsecond, hvalue]
  · intro k hpos hlt
    obtain rfl : k = 1 := by
      simp only [List.length_cons, List.length_nil] at hlt
      omega
    exact (utf8DecodeFrom_start hstart).trans (utf8DecodeFrom_end Nat.one_ne_zero)

theorem decodes_three {v : Nat} (hv : 0x7ff < v ∧ v ≤ 0xffff) (hvalid : v < 0xd800 ∨ 0xdfff < v) :
    DecodesChar [UInt8.ofNat (v / 4096 % 0x10 + 0xe0), UInt8.ofNat (v / 64 % 0x40 + 0x80),
      UInt8.ofNat (v % 0x40 + 0x80)] (Char.ofNat v) := by
  obtain ⟨hfirst, hsecond, hthird⟩ := bytes_three hv
  have hstart := utf8Start_three (show 0xe0 ≤ v / 4096 + 0xe0 ∧ v / 4096 + 0xe0 ≤ 0xef by omega)
  rw [← hfirst] at hstart
  -- no surrogate, and no character of two bytes
  have hlower : (if (UInt8.ofNat (v / 4096 % 0x10 + 0xe0)).toNat = 0xe0 then 0xa0 else 0x80) ≤ v / 64 % 64 + 0x80 := by
    rw [hfirst]
    split <;> omega
  have hupper : v / 64 % 64 + 0x80 ≤ (if (UInt8.ofNat (v / 4096 % 0x10 + 0xe0)).toNat = 0xed then 0x9f else 0xbf) := by
    rw [hfirst]
    split <;> omega
  have hmore : ∀ rest, utf8DecodeFrom .idle (UInt8.ofNat (v / 4096 % 0x10 + 0xe0) ::
      UInt8.ofNat (v / 64 % 0x40 + 0x80) :: rest) = utf8DecodeFrom ⟨v / 64, 1, 0x80, 0xbf⟩ rest := by
    intro rest
    have hvalue : (v / 4096 + 0xe0) % 0x10 * 0x40 + (v / 64 % 64 + 0x80) % 0x40 = v / 64 := by omega
    rw [utf8DecodeFrom_start hstart, utf8DecodeFrom_more (Nat.lt_succ_self 1) (by rw [hsecond]; exact ⟨hlower, hupper⟩)]
    dsimp only
    rw [hfirst, hsecond, hvalue]
  constructor
  · intro rest
    have hvalue : v / 64 * 0x40 + (v % 64 + 0x80) % 0x40 = v := by omega
    rw [List.cons_append, List.cons_append, hmore, List.singleton_append,
      utf8DecodeFrom_last rfl ⟨by dsimp only; omega, by dsimp only; omega⟩]
    dsimp only
    rw [hthird, hvalue]
  · intro k hpos hlt
    simp only [List.length_cons, List.length_nil] at hlt
    obtain rfl | rfl : k = 1 ∨ k = 2 := by omega
    · exact (utf8DecodeFrom_start hstart).trans (utf8DecodeFrom_end (Nat.succ_ne_zero _))
    · exact (hmore []).trans (utf8DecodeFrom_end Nat.one_ne_zero)

theorem decodes_four {v : Nat} (hv : 0xffff < v ∧ v < 0x110000) :
    DecodesChar [UInt8.ofNat (v / 262144 % 0x08 + 0xf0), UInt8.ofNat (v / 4096 % 0x40 + 0x80),
      UInt8.ofNat (v / 64 % 0x40 + 0x80), UInt8.ofNat (v % 0x40 + 0x80)] (Char.ofNat v) := by
  obtain ⟨hfirst, hsecond, hthird, hfourth⟩ := bytes_four hv
  have hstart := utf8Start_four (show 0xf0 ≤ v / 262144 + 0xf0 ∧ v / 262144 + 0xf0 ≤ 0xf4 by omega)
  rw [← hfirst] at hstart
  have hlower : (if (UInt8.ofNat (v / 262144 % 0x08 + 0xf0)).toNat = 0xf0 then 0x90 else 0x80) ≤ v / 4096 % 64 + 0x80 := by
    rw [hfirst]
    split <;> omega
  have hupper : v / 4096 % 64 + 0x80 ≤ (if (UInt8.ofNat (v / 262144 % 0x08 + 0xf0)).toNat = 0xf4 then 0x8f else 0xbf) := by
    rw [hfirst]
    split <;> omega
  have hsecondMore : ∀ rest, utf8DecodeFrom .idle (UInt8.ofNat (v / 262144 % 0x08 + 0xf0) ::
      UInt8.ofNat (v / 4096 % 0x40 + 0x80) :: rest) = utf8DecodeFrom ⟨v / 4096, 2, 0x80, 0xbf⟩ rest := by
    intro rest
    have hvalue : (v / 262144 + 0xf0) % 0x08 * 0x40 + (v / 4096 % 64 + 0x80) % 0x40 = v / 4096 := by omega
    rw [utf8DecodeFrom_start hstart, utf8DecodeFrom_more (show 1 < 3 by decide) (by rw [hsecond]; exact ⟨hlower, hupper⟩)]
    dsimp only
    rw [hfirst, hsecond, hvalue]
  have hthirdMore : ∀ rest, utf8DecodeFrom .idle (UInt8.ofNat (v / 262144 % 0x08 + 0xf0) ::
      UInt8.ofNat (v / 4096 % 0x40 + 0x80) :: UInt8.ofNat (v / 64 % 0x40 + 0x80) :: rest) =
      utf8DecodeFrom ⟨v / 64, 1, 0x80, 0xbf⟩ rest := by
    intro rest
    have hvalue : v / 4096 * 0x40 + (v / 64 % 64 + 0x80) % 0x40 = v / 64 := by omega
    rw [hsecondMore, utf8DecodeFrom_more (Nat.lt_succ_self 1) (by rw [hthird]; exact ⟨by dsimp only; omega, by dsimp only; omega⟩)]
    dsimp only
    rw [hthird, hvalue]
  constructor
  · intro rest
    have hvalue : v / 64 * 0x40 + (v % 64 + 0x80) % 0x40 = v := by omega
    rw [List.cons_append, List.cons_append, List.cons_append, hthirdMore, List.singleton_append,
      utf8DecodeFrom_last rfl ⟨by dsimp only; omega, by dsimp only; omega⟩]
    dsimp only
    rw [hfourth, hvalue]
  · intro k hpos hlt
    simp only [List.length_cons, List.length_nil] at hlt
    obtain rfl | rfl | rfl : k = 1 ∨ k = 2 ∨ k = 3 := by omega
    · exact (utf8DecodeFrom_start hstart).trans (utf8DecodeFrom_end (Nat.succ_ne_zero _))
    · exact (hsecondMore []).trans (utf8DecodeFrom_end (Nat.succ_ne_zero _))
    · exact (hthirdMore []).trans (utf8DecodeFrom_end Nat.one_ne_zero)

theorem decodes_char (c : Char) : DecodesChar (String.utf8EncodeChar c) c := by
  have hvalid : c.val.toNat < 0xd800 ∨ 0xdfff < c.val.toNat ∧ c.val.toNat < 0x110000 := c.valid
  have hback : ∀ bs, DecodesChar bs (Char.ofNat c.val.toNat) → DecodesChar bs c := by
    intro bs h
    rwa [show Char.ofNat c.val.toNat = c from Char.ofNat_toNat c] at h
  rw [String.utf8EncodeChar]
  split
  · rename_i hone
    exact hback _ (decodes_one hone)
  · rename_i hone
    split
    · rename_i htwo
      exact hback _ (decodes_two ⟨Nat.not_le.mp hone, htwo⟩)
    · rename_i htwo
      split
      · rename_i hthree
        exact hback _ (decodes_three ⟨Nat.not_le.mp htwo, hthree⟩ (hvalid.imp_right And.left))
      · rename_i hthree
        refine hback _ (decodes_four ⟨Nat.not_le.mp hthree, ?_⟩)
        rcases hvalid with hlow | hhigh
        · exact Nat.lt_trans hlow (by decide)
        · exact hhigh.2

end Character

/-! ## A text -/

/-- Encoded characters decode to themselves. -/
theorem utf8DecodeFrom_encode (cs : List Char) (rest : Bytes) :
    utf8DecodeFrom .idle (encodeChars cs ++ rest) = cs ++ utf8DecodeFrom .idle rest := by
  induction cs with
  | nil => rfl
  | cons c cs ih =>
    rw [encodeChars_cons, List.append_assoc, (decodes_char c).whole, ih, List.cons_append]

theorem prefix_fitting (n : Nat) (cs : List Char) : fitting n cs <+: cs := by
  induction cs generalizing n with
  | nil => exact List.nil_prefix
  | cons c cs ih =>
    rw [fitting]
    split
    · exact List.cons_prefix_cons.mpr ⟨rfl, ih _⟩
    · exact List.nil_prefix

theorem length_fitting_le (n : Nat) (cs : List Char) : (encodeChars (fitting n cs)).length ≤ n := by
  induction cs generalizing n with
  | nil => exact Nat.zero_le _
  | cons c cs ih =>
    rw [fitting]
    split
    · rename_i hle
      have := ih (n - c.utf8Size)
      rw [encodeChars_cons, List.length_append, String.length_utf8EncodeChar]
      omega
    · exact Nat.zero_le _

/-- Every prefix within `n` bytes is a prefix of the longest one. -/
theorem prefix_fitting_of_le {n : Nat} {ds cs : List Char} (h : ds <+: cs)
    (hlen : (encodeChars ds).length ≤ n) : ds <+: fitting n cs := by
  induction cs generalizing n ds with
  | nil => exact h
  | cons c cs ih =>
    cases ds with
    | nil => exact List.nil_prefix
    | cons d ds =>
      obtain ⟨rfl, hrest⟩ := List.cons_prefix_cons.mp h
      rw [encodeChars_cons, List.length_append, String.length_utf8EncodeChar] at hlen
      rw [fitting, if_pos (by omega)]
      exact List.cons_prefix_cons.mpr ⟨rfl, ih hrest (by omega)⟩

theorem fitting_eq_self {n : Nat} {cs : List Char} (h : (encodeChars cs).length ≤ n) :
    fitting n cs = cs :=
  (prefix_fitting n cs).eq_of_length_le (prefix_fitting_of_le List.prefix_rfl h).length_le

/-- What a cut text decodes to. -/
theorem utf8DecodeFrom_take (n : Nat) (cs : List Char) :
    utf8DecodeFrom .idle ((encodeChars cs).take n) =
      fitting n cs ++ if CutInside n cs then [replacement] else [] := by
  induction cs generalizing n with
  | nil =>
    have hcut : ¬ CutInside n [] := not_not.mpr (Nat.min_zero n).symm
    rw [encodeChars_nil, List.take_nil, if_neg hcut]
    rfl
  | cons c cs ih =>
    have hlen : (String.utf8EncodeChar c).length = c.utf8Size := String.length_utf8EncodeChar c
    by_cases hle : c.utf8Size ≤ n
    · -- the character is whole: the cut is as far into the rest
      have hcut : CutInside n (c :: cs) ↔ CutInside (n - c.utf8Size) cs := by
        rw [CutInside, CutInside, fitting, if_pos hle, encodeChars_cons, encodeChars_cons, List.length_append,
          List.length_append, hlen]
        omega
      rw [encodeChars_cons, List.take_append, hlen, List.take_of_length_le (by omega), (decodes_char c).whole,
        ih, fitting, if_pos hle, List.cons_append, if_congr hcut rfl rfl]
    · rw [encodeChars_cons, List.take_append_of_le_length (by omega), fitting, if_neg hle, List.nil_append]
      cases n with
      | zero =>
        rw [List.take_zero, if_neg]
        · rfl
        · rw [CutInside, fitting, if_neg hle, Nat.zero_min]
          exact not_not.mpr rfl
      | succ n =>
        rw [(decodes_char c).part _ (Nat.succ_pos n) (by omega), if_pos]
        rw [CutInside, fitting, if_neg hle, encodeChars_cons, List.length_append, hlen]
        simp only [encodeChars_nil, List.length_nil, ne_eq]
        omega

/-! ## The byte-order mark -/

/-- A text without a leading byte-order mark. -/
def withoutMark (cs : List Char) : List Char := if cs.head? = some byteOrderMark then cs.tail else cs

theorem withoutMark_cons (cs : List Char) : withoutMark (byteOrderMark :: cs) = cs := if_pos rfl

theorem withoutMark_of_ne {cs : List Char} (h : cs.head? ≠ some byteOrderMark) : withoutMark cs = cs :=
  if_neg h

theorem encode_byteOrderMark : String.utf8EncodeChar byteOrderMark = [0xef, 0xbb, 0xbf] := by decide

/-- A cut text begins with the bytes of the mark exactly when it begins with the mark. -/
theorem take_mark_iff (n : Nat) (cs : List Char) :
    ((encodeChars cs).take n).take 3 = [0xef, 0xbb, 0xbf] ↔ (fitting n cs).head? = some byteOrderMark := by
  constructor
  · intro hmark
    have hdecode := utf8DecodeFrom_take n cs
    rw [← List.take_append_drop 3 ((encodeChars cs).take n), hmark, ← encode_byteOrderMark,
      (decodes_char byteOrderMark).whole] at hdecode
    cases hfit : fitting n cs with
    | cons c rest =>
      rw [hfit, List.cons_append] at hdecode
      rw [List.head?_cons, (List.cons.inj hdecode).1]
    | nil =>
      rw [hfit, List.nil_append] at hdecode
      split at hdecode
      · exact absurd (List.cons.inj hdecode).1 (by decide)
      · cases hdecode
  · intro hhead
    cases cs with
    | nil => cases hhead
    | cons c cs =>
      rw [fitting] at hhead
      split at hhead
      · rename_i hle
        obtain rfl : c = byteOrderMark := Option.some.inj hhead
        have hthree : 3 ≤ n := hle
        rw [encodeChars_cons, encode_byteOrderMark, List.take_take, Nat.min_eq_left hthree]
        rfl
      · cases hhead

/-- What a cut text decodes to. -/
theorem utf8Decode_take (n : Nat) (cs : List Char) :
    utf8Decode ((encodeChars cs).take n) =
      withoutMark (fitting n cs ++ if CutInside n cs then [replacement] else []) := by
  have hdecode := utf8DecodeFrom_take n cs
  by_cases hmark : (fitting n cs).head? = some byteOrderMark
  · have hbytes := (take_mark_iff n cs).mpr hmark
    cases hfit : fitting n cs with
    | nil =>
      rw [hfit] at hmark
      cases hmark
    | cons c rest =>
      rw [hfit] at hmark
      obtain rfl : c = byteOrderMark := Option.some.inj hmark
      rw [← List.take_append_drop 3 ((encodeChars cs).take n), hbytes, ← encode_byteOrderMark,
        (decodes_char byteOrderMark).whole, hfit, List.cons_append] at hdecode
      rw [utf8Decode, if_pos hbytes, List.cons_append, withoutMark_cons]
      exact (List.cons.inj hdecode).2
  · rw [utf8Decode, if_neg (fun h => hmark ((take_mark_iff n cs).mp h)), hdecode, withoutMark_of_ne]
    cases hfit : fitting n cs with
    | nil =>
      rw [List.nil_append]
      split
      · decide
      · exact (Option.some_ne_none _).symm
    | cons c rest =>
      rw [hfit] at hmark
      exact hmark

end Base
