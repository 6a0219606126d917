import P2Party.Cryptography.LibCrypto
import P2Party.Base.Codec

/-!
# Sealed cells

Control frames and cover cells have one shape: a 69-byte header in the clear (type, edge
binding, counter, eight zero bytes, epoch, nonce), and behind it the AEAD of a padded
plaintext with the whole header as associated data. The key is derived with HKDF from a root
(the salt), the binding (the input) and an info string that names the format, the suite, the
direction, the binding and the epoch.

What is assumed of the primitives is stated about the uses at hand, since no function of
bounded output is injective: `KeyInput.Collide` is two inputs that derive one key,
`Opening.Forged` an opening that succeeds although nothing of the kind was sealed.

- `cellHeader`, `take_cellHeader`, `drop_cellHeader`: the header and its fields;
- `CellParams.info_inj`: the info string determines suite, direction, binding and epoch;
- `CellParams.opening_inj`: what is asked of the AEAD determines the parameters and the frame;
- `eq_of_succeeds`: without a forgery or a collision only the sealed frame opens, and only
  under the parameters it was sealed with.
-/

namespace P2Party

open Base

/-! ## Derived keys -/

/-- What a key is derived from: HKDF salt, input key material and info. -/
structure KeyInput where
  salt : Bytes
  ikm : Bytes
  info : Bytes
deriving DecidableEq

/-- The 32-byte key of an input. -/
def KeyInput.key (L : LibCrypto) (i : KeyInput) : Bytes :=
  L.hkdfExpand (L.hkdfExtract i.salt i.ikm) i.info 32

/-- Two inputs derive the same key. -/
def KeyInput.Collide (L : LibCrypto) (i j : KeyInput) : Prop :=
  i ≠ j ∧ i.key L = j.key L

/-! ## Openings -/

/-- What the AEAD is asked to open. -/
structure Opening where
  key : Bytes
  nonce : Bytes
  aad : Bytes
  ciphertext : Bytes
deriving DecidableEq

/-- The AEAD returns a plaintext. -/
def Opening.Succeeds (L : LibCrypto) (q : Opening) : Prop :=
  (L.aeadOpen q.key q.nonce q.aad q.ciphertext).isSome = true

/-- The AEAD returns a plaintext although something else was sealed. -/
def Opening.Forged (L : LibCrypto) (sealed q : Opening) : Prop :=
  q ≠ sealed ∧ q.Succeeds L

/-! ## Headers -/

/-- The bytes of a cell header. -/
abbrev CELL_HEADER_BYTES : Nat := 69

/-- The public header of a cell. -/
def cellHeader (type : UInt8) (binding : Bytes) (counter keyEpoch : Nat) (nonce : Bytes) : Bytes :=
  [type] ++ (binding ++ (beBytes 8 counter ++ (beBytes 8 0 ++ (beBytes 8 keyEpoch ++ nonce))))

section Header

variable {type : UInt8} {binding nonce rest : Bytes} {counter keyEpoch : Nat}

theorem length_cellHeader (hb : binding.length = 32) (hn : nonce.length = 12) :
    (cellHeader type binding counter keyEpoch nonce).length = CELL_HEADER_BYTES := by
  simp only [cellHeader, List.length_append, List.length_singleton, hb, hn, length_beBytes]

theorem slice_cellHeader_binding (hb : binding.length = 32) :
    slice (cellHeader type binding counter keyEpoch nonce ++ rest) 1 32 = binding := by
  simp only [cellHeader, List.append_assoc]
  exact slice_append rfl hb

theorem slice_cellHeader_counter (hb : binding.length = 32) :
    slice (cellHeader type binding counter keyEpoch nonce ++ rest) 33 8 = beBytes 8 counter := by
  have hsplit : cellHeader type binding counter keyEpoch nonce ++ rest =
      ([type] ++ binding) ++ (beBytes 8 counter ++
        (beBytes 8 0 ++ (beBytes 8 keyEpoch ++ (nonce ++ rest)))) := by
    simp [cellHeader]
  rw [hsplit]
  exact slice_append (by simp [hb]) (length_beBytes 8 counter)

theorem slice_cellHeader_reserved (hb : binding.length = 32) :
    slice (cellHeader type binding counter keyEpoch nonce ++ rest) 41 8 = beBytes 8 0 := by
  have hsplit : cellHeader type binding counter keyEpoch nonce ++ rest =
      ([type] ++ (binding ++ beBytes 8 counter)) ++ (beBytes 8 0 ++
        (beBytes 8 keyEpoch ++ (nonce ++ rest))) := by
    simp [cellHeader]
  rw [hsplit]
  exact slice_append (by simp [hb]) (length_beBytes 8 0)

theorem slice_cellHeader_epoch (hb : binding.length = 32) :
    slice (cellHeader type binding counter keyEpoch nonce ++ rest) 49 8 = beBytes 8 keyEpoch := by
  have hsplit : cellHeader type binding counter keyEpoch nonce ++ rest =
      ([type] ++ (binding ++ (beBytes 8 counter ++ beBytes 8 0))) ++
        (beBytes 8 keyEpoch ++ (nonce ++ rest)) := by
    simp [cellHeader]
  rw [hsplit]
  exact slice_append (by simp [hb]) (length_beBytes 8 keyEpoch)

theorem slice_cellHeader_nonce (hb : binding.length = 32) (hn : nonce.length = 12) :
    slice (cellHeader type binding counter keyEpoch nonce ++ rest) 57 12 = nonce := by
  have hsplit : cellHeader type binding counter keyEpoch nonce ++ rest =
      ([type] ++ (binding ++ (beBytes 8 counter ++ (beBytes 8 0 ++ beBytes 8 keyEpoch)))) ++
        (nonce ++ rest) := by
    simp [cellHeader]
  rw [hsplit]
  exact slice_append (by simp [hb]) hn

theorem take_cellHeader (hb : binding.length = 32) (hn : nonce.length = 12) :
    (cellHeader type binding counter keyEpoch nonce ++ rest).take CELL_HEADER_BYTES =
      cellHeader type binding counter keyEpoch nonce := by
  rw [← @length_cellHeader type binding nonce counter keyEpoch hb hn]
  exact List.take_left

theorem drop_cellHeader (hb : binding.length = 32) (hn : nonce.length = 12) :
    (cellHeader type binding counter keyEpoch nonce ++ rest).drop CELL_HEADER_BYTES = rest :=
  drop_append_of_length (length_cellHeader hb hn)

end Header

/-! ## Parameters of a cell -/

/-- What both ends of a cell must agree on. -/
structure CellParams where
  suiteTag : UInt8
  directionTag : UInt8
  rootKey : Bytes
  binding : Bytes
  keyEpoch : Nat
deriving DecidableEq

/-- The info string a cell key is derived with, under the domain of its format. -/
def CellParams.info (domain : Bytes) (p : CellParams) : Bytes :=
  domain ++ (p.suiteTag :: p.directionTag :: (p.binding ++ beBytes 8 p.keyEpoch))

/-- What the key of a cell is derived from. -/
def CellParams.keyInput (domain : Bytes) (p : CellParams) : KeyInput :=
  ⟨p.rootKey, p.binding, p.info domain⟩

/-- What opening a frame asks of the AEAD. -/
def CellParams.opening (L : LibCrypto) (domain : Bytes) (p : CellParams) (frame : Bytes) : Opening where
  key := (p.keyInput domain).key L
  nonce := slice frame 57 12
  aad := frame.take CELL_HEADER_BYTES
  ciphertext := frame.drop CELL_HEADER_BYTES

variable {L : LibCrypto} {domain : Bytes} {p q : CellParams} {frame frame' : Bytes}

/-- What opening a header and a ciphertext asks of the AEAD. -/
theorem CellParams.opening_cell {type : UInt8} {binding nonce ciphertext : Bytes}
    {counter keyEpoch : Nat} (hb : binding.length = 32) (hn : nonce.length = 12) :
    p.opening L domain (cellHeader type binding counter keyEpoch nonce ++ ciphertext) =
      ⟨(p.keyInput domain).key L, nonce, cellHeader type binding counter keyEpoch nonce,
        ciphertext⟩ := by
  rw [CellParams.opening, slice_cellHeader_nonce hb hn, take_cellHeader hb hn,
    drop_cellHeader hb hn]

/-- The transparent AEAD refuses a cell that was sealed with another tag. -/
theorem CellParams.transparent_refuses {type : UInt8} {binding nonce key aad pt : Bytes}
    {counter keyEpoch : Nat} (hb : binding.length = 32) (hn : nonce.length = 12)
    (h : LibCrypto.tag key nonce aad ≠ LibCrypto.tag ((p.keyInput domain).key LibCrypto.transparent)
      nonce (cellHeader type binding counter keyEpoch nonce)) :
    ¬ (p.opening LibCrypto.transparent domain (cellHeader type binding counter keyEpoch nonce ++
      LibCrypto.transparent.aeadSeal key nonce aad pt)).Succeeds LibCrypto.transparent := by
  rw [Opening.Succeeds, CellParams.opening_cell hb hn, LibCrypto.transparent_open_other h]
  exact Bool.false_ne_true

/-- The info string determines everything but the root. -/
theorem CellParams.info_inj (hp : p.keyEpoch < 256 ^ 8) (hq : q.keyEpoch < 256 ^ 8)
    (h : p.info domain = q.info domain) :
    p.suiteTag = q.suiteTag ∧ p.directionTag = q.directionTag ∧ p.binding = q.binding ∧
      p.keyEpoch = q.keyEpoch := by
  obtain ⟨hsuite, htail⟩ := List.cons.inj (List.append_cancel_left h)
  obtain ⟨hdirection, htail⟩ := List.cons.inj htail
  -- the epoch has a fixed width, so the binding is what stands in front of it
  have hwidth : (beBytes 8 p.keyEpoch).length = (beBytes 8 q.keyEpoch).length := by
    rw [length_beBytes, length_beBytes]
  obtain ⟨hbinding, hepoch⟩ := List.append_inj' htail hwidth
  exact ⟨hsuite, hdirection, hbinding, beBytes_inj hp hq hepoch⟩

theorem CellParams.keyInput_inj (hp : p.keyEpoch < 256 ^ 8) (hq : q.keyEpoch < 256 ^ 8)
    (h : p.keyInput domain = q.keyInput domain) : p = q := by
  obtain ⟨hroot, -, hinfo⟩ := KeyInput.mk.inj h
  obtain ⟨hsuite, hdirection, hbinding, hepoch⟩ := CellParams.info_inj hp hq hinfo
  cases p
  cases q
  cases hroot
  cases hsuite
  cases hdirection
  cases hbinding
  cases hepoch
  rfl

/-- Two frames that ask the same of the AEAD are one frame, under one set of parameters. -/
theorem CellParams.opening_inj (hp : p.keyEpoch < 256 ^ 8) (hq : q.keyEpoch < 256 ^ 8)
    (hkeys : ¬ KeyInput.Collide L (p.keyInput domain) (q.keyInput domain))
    (h : p.opening L domain frame = q.opening L domain frame') : p = q ∧ frame = frame' := by
  obtain ⟨hkey, -, haad, hciphertext⟩ := Opening.mk.inj h
  constructor
  · by_contra hne
    exact hkeys ⟨fun hinput => hne (CellParams.keyInput_inj hp hq hinput), hkey⟩
  · rw [← List.take_append_drop CELL_HEADER_BYTES frame, haad, hciphertext,
      List.take_append_drop]

/-- If a frame opens, and neither the AEAD was forged nor a key derived twice, it is the frame
that was sealed and its parameters are those it was sealed with. -/
theorem CellParams.eq_of_succeeds (hp : p.keyEpoch < 256 ^ 8) (hq : q.keyEpoch < 256 ^ 8)
    (hkeys : ¬ KeyInput.Collide L (p.keyInput domain) (q.keyInput domain))
    (hideal : ¬ Opening.Forged L (q.opening L domain frame') (p.opening L domain frame))
    (h : (p.opening L domain frame).Succeeds L) : p = q ∧ frame = frame' := by
  by_cases heq : p.opening L domain frame = q.opening L domain frame'
  · exact CellParams.opening_inj hp hq hkeys heq
  · exact absurd ⟨heq, h⟩ hideal

end P2Party
