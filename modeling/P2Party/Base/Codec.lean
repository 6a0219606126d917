import P2Party.Base.Bytes
import P2Party.Base.Exec

/-!
# Byte readers and writers

A reader consumes a prefix of its input, a writer appends to its output and may
refuse to grow past a budget; both may throw. Formats are built from the few
primitives below, and their round trips compose:

- `Reads m inp a`: on any input that starts with `inp`, `m` returns `a` and
  leaves the rest (`Reads.bind`, `reads_getBytes`, `reads_getUint`);
- `Extends m`: more input behind what `m` read changes nothing but what it leaves
  (`Extends.bind`, `Extends.getBytes`);
- `getBytes_spec`, `getUint_spec`: what a reader that returned has consumed;
- `Writes budget m out`: with room for `out`, `m` appends exactly `out`
  (`Writes.seq`, `writes_putBytes`);
- `writes_putAll`: repeated fields;
- `slice`: a field at a fixed offset, read back from a concatenation
  (`slice_append`); `slice_append_drop`, `getD_cons_drop`, `beBytes_slice_append_drop`
  put a byte string together again from its fields.
-/

namespace Base

variable {ε α β : Type}

/-! ## Readers -/

/-- Take the next `n` bytes or throw. -/
def getBytes (e : ε) (n : Nat) : EStateM ε Bytes Bytes := do
  let rest ← get
  ensure (n ≤ rest.length) e
  set (rest.drop n)
  return rest.take n

/-- Take a big-endian unsigned integer of `w` bytes or throw. -/
def getUint (e : ε) (w : Nat) : EStateM ε Bytes Nat := do
  return beNat (← getBytes e w)

/-- On any input that starts with `inp`, the reader returns `a` and leaves the
rest. -/
def Reads (m : EStateM ε Bytes α) (inp : Bytes) (a : α) : Prop :=
  ∀ rest, m.run (inp ++ rest) = .ok a rest

theorem reads_pure (a : α) : Reads (pure a : EStateM ε Bytes α) [] a := fun _ => rfl

theorem Reads.bind {m : EStateM ε Bytes α} {f : α → EStateM ε Bytes β} {i j : Bytes} {a : α} {b : β}
    (hm : Reads m i a) (hf : Reads (f a) j b) : Reads (m >>= f) (i ++ j) b := fun rest => by
  rw [List.append_assoc, run_bind_of_ok (hm _), hf]

/-- A first part that reads nothing. -/
theorem Reads.bind_nil {m : EStateM ε Bytes α} {f : α → EStateM ε Bytes β} {j : Bytes} {a : α}
    {b : β} (hm : Reads m [] a) (hf : Reads (f a) j b) : Reads (m >>= f) j b :=
  hm.bind hf

/-- A last part that reads nothing. -/
theorem Reads.bind_pure {m : EStateM ε Bytes α} {f : α → EStateM ε Bytes β} {i : Bytes} {a : α}
    {b : β} (hm : Reads m i a) (hf : Reads (f a) [] b) : Reads (m >>= f) i b := by
  simpa using hm.bind hf

theorem reads_ensure {p : Prop} [Decidable p] {e : ε} (h : p) :
    Reads (ensure p e : EStateM ε Bytes Unit) [] () := fun rest => by
  simp [h]

theorem reads_attempt {x : Except ε α} {a : α} (h : x = .ok a) :
    Reads (attempt x : EStateM ε Bytes α) [] a := fun rest => by
  rw [h]
  rfl

theorem reads_getBytes {e : ε} {n : Nat} {v : Bytes} (h : v.length = n) :
    Reads (getBytes e n) v v := fun rest => by
  simp [getBytes, ← h]

theorem reads_getUint {e : ε} {w n : Nat} (h : n < 256 ^ w) :
    Reads (getUint e w) (beBytes w n) n := by
  refine (reads_getBytes (length_beBytes w n)).bind_pure ?_
  rw [beNat_beBytes h]
  exact reads_pure n

/-! ## What a reader that returned has consumed -/

theorem getBytes_spec {e : ε} {n : Nat} {s v s' : Bytes} (h : (getBytes e n).run s = .ok v s') :
    s = v ++ s' ∧ v.length = n := by
  unfold getBytes at h
  rw [run_get_bind, run_ensure_bind] at h
  split at h
  case isFalse => cases h
  case isTrue hn =>
    cases h
    exact ⟨(List.take_append_drop n s).symm, by rw [List.length_take, Nat.min_eq_left hn]⟩

theorem getUint_spec {e : ε} {w n : Nat} {s s' : Bytes} (h : (getUint e w).run s = .ok n s') :
    s = beBytes w n ++ s' ∧ n < 256 ^ w := by
  unfold getUint at h
  obtain ⟨v, s₁, hv, hpure⟩ := bind_eq_ok.mp h
  obtain ⟨hs, hlen⟩ := getBytes_spec hv
  cases hpure
  subst hlen
  rw [beBytes_beNat]
  exact ⟨hs, beNat_lt v⟩

/-- A reader throws nothing but its own error. -/
theorem Throws.getBytes {P : ε → Prop} {e : ε} (h : P e) (n : Nat) : Throws P (getBytes e n) := by
  intro s e' s' hrun
  unfold Base.getBytes at hrun
  rw [run_get_bind, run_ensure_bind] at hrun
  split at hrun
  case isTrue => cases hrun
  case isFalse =>
    cases hrun
    exact h

theorem Throws.getUint {P : ε → Prop} {e : ε} (h : P e) (w : Nat) : Throws P (getUint e w) :=
  (Throws.getBytes h w).bind fun _ => Throws.pure _

/-- With enough input left, an integer is read. -/
theorem getUint_of_le {e : ε} {w : Nat} {s : Bytes} (h : w ≤ s.length) :
    (getUint e w).run s = .ok (beNat (s.take w)) (s.drop w) := by
  have hbytes : (getBytes e w).run s = .ok (s.take w) (s.drop w) := by
    unfold Base.getBytes
    rw [run_get_bind, run_ensure_of h]
    rfl
  unfold Base.getUint
  rw [run_bind_of_ok hbytes]
  rfl

/-- A result of the reader stays its result when more input follows. -/
def Extends (m : EStateM ε Bytes α) : Prop :=
  ∀ s a s' extra, m.run s = .ok a s' → m.run (s ++ extra) = .ok a (s' ++ extra)

namespace Extends

theorem pure (a : α) : Extends (pure a : EStateM ε Bytes α) := by
  rintro s b s' extra ⟨⟩
  rfl

theorem throw (e : ε) : Extends (throw e : EStateM ε Bytes α) := by
  rintro s b s' extra ⟨⟩

theorem bind {m : EStateM ε Bytes α} {f : α → EStateM ε Bytes β} (hm : Extends m)
    (hf : ∀ a, Extends (f a)) : Extends (m >>= f) := by
  intro s b s' extra h
  obtain ⟨a, s₁, ha, hb⟩ := bind_eq_ok.mp h
  rw [run_bind_of_ok (hm _ _ _ extra ha), hf a _ _ _ extra hb]

theorem ensure (p : Prop) [Decidable p] (e : ε) : Extends (ensure p e : EStateM ε Bytes Unit) := by
  intro s u s' extra h
  obtain ⟨hp, rfl⟩ := run_ensure_eq_ok.mp h
  exact run_ensure_eq_ok.mpr ⟨hp, rfl⟩

theorem attempt (x : Except ε α) : Extends (attempt x : EStateM ε Bytes α) := by
  intro s a s' extra h
  obtain ⟨hx, rfl⟩ := run_attempt_eq_ok.mp h
  exact run_attempt_eq_ok.mpr ⟨hx, rfl⟩

theorem ite {p : Prop} [Decidable p] {m n : EStateM ε Bytes α} (hm : Extends m) (hn : Extends n) :
    Extends (if p then m else n) := by
  split
  · exact hm
  · exact hn

theorem getBytes (e : ε) (n : Nat) : Extends (getBytes e n) := by
  intro s v s' extra h
  obtain ⟨rfl, hlen⟩ := getBytes_spec h
  rw [List.append_assoc]
  exact reads_getBytes hlen _

theorem getUint (e : ε) (w : Nat) : Extends (getUint e w) :=
  (getBytes e w).bind fun _ => pure _

end Extends

/-! ## Writers -/

/-- Append bytes, then throw if the output has outgrown the budget. -/
def putBytes (budget : Nat) (e : ε) (v : Bytes) : EStateM ε Bytes Unit := do
  modify (· ++ v)
  ensure ((← get).length ≤ budget) e

/-- Run a writer on each element. -/
def putAll (m : α → EStateM ε Bytes Unit) : List α → EStateM ε Bytes Unit
  | [] => return ()
  | a :: as => do
    m a
    putAll m as

/-- With room for `out`, the writer appends exactly `out`. -/
def Writes (budget : Nat) (m : EStateM ε Bytes Unit) (out : Bytes) : Prop :=
  ∀ acc : Bytes, acc.length + out.length ≤ budget → m.run acc = .ok () (acc ++ out)

variable {budget : Nat}

theorem writes_pure : Writes budget (pure () : EStateM ε Bytes Unit) [] := fun acc _ => by
  simp

theorem Writes.seq {m n : EStateM ε Bytes Unit} {i j : Bytes} (hm : Writes budget m i)
    (hn : Writes budget n j) : Writes budget (m >>= fun _ => n) (i ++ j) := fun acc hacc => by
  rw [List.length_append] at hacc
  rw [run_bind_of_ok (hm acc (by omega)), hn _ (by rw [List.length_append]; omega),
    List.append_assoc]

theorem writes_ensure {p : Prop} [Decidable p] {e : ε} (h : p) :
    Writes budget (ensure p e : EStateM ε Bytes Unit) [] := fun acc _ => by
  simp [h]

theorem writes_attempt {x : Except ε Unit} (h : x = .ok ()) :
    Writes budget (attempt x : EStateM ε Bytes Unit) [] := fun acc _ => by
  rw [h, List.append_nil]
  rfl

/-- A first part that writes nothing. -/
theorem Writes.seq_nil {m n : EStateM ε Bytes Unit} {j : Bytes} (hm : Writes budget m [])
    (hn : Writes budget n j) : Writes budget (m >>= fun _ => n) j :=
  hm.seq hn

theorem writes_putBytes (e : ε) (v : Bytes) : Writes budget (putBytes budget e v) v :=
  fun acc hacc => by
    simp [putBytes, hacc]

theorem writes_putAll {m : α → EStateM ε Bytes Unit} {enc : α → Bytes} (as : List α)
    (h : ∀ a ∈ as, Writes budget (m a) (enc a)) : Writes budget (putAll m as) (as.flatMap enc) := by
  induction as with
  | nil => exact writes_pure
  | cons a as ih =>
    exact (h a List.mem_cons_self).seq (ih fun b hb => h b (List.mem_cons_of_mem a hb))

/-! ## Fields at fixed offsets -/

/-- The `len` bytes at offset `off`. -/
def slice (bs : Bytes) (off len : Nat) : Bytes := (bs.drop off).take len

/-- The middle part of a concatenation, read at its offset. -/
theorem slice_append {a b c : Bytes} {off len : Nat} (ha : a.length = off) (hb : b.length = len) :
    slice (a ++ (b ++ c)) off len = b := by
  subst ha
  subst hb
  simp [slice]

/-- Everything from an offset on. -/
theorem drop_append_of_length {a b : Bytes} {off : Nat} (ha : a.length = off) :
    (a ++ b).drop off = b := by
  subst ha
  simp

theorem length_slice {bs : Bytes} {off len : Nat} (h : off + len ≤ bs.length) :
    (slice bs off len).length = len := by
  rw [slice, List.length_take, List.length_drop]
  omega

/-- A field and what follows it are what starts at its offset. -/
theorem slice_append_drop (bs : Bytes) (off len : Nat) :
    slice bs off len ++ bs.drop (off + len) = bs.drop off := by
  rw [slice, ← List.drop_drop, List.take_append_drop]

/-- One byte and what follows it are what starts at its offset. -/
theorem getD_cons_drop {bs : Bytes} {off : Nat} (h : off < bs.length) :
    bs.getD off 0 :: bs.drop (off + 1) = bs.drop off := by
  rw [List.drop_eq_getElem_cons h, List.getD_eq_getElem?_getD, List.getElem?_eq_getElem h]
  rfl

/-- A field of the right width spells its value. -/
theorem beBytes_beNat_of_length {bs : Bytes} {w : Nat} (h : bs.length = w) :
    beBytes w (beNat bs) = bs := by
  subst h
  exact beBytes_beNat bs

/-- The integer field at an offset, written again. -/
theorem beBytes_slice_append_drop {bs : Bytes} {off w : Nat} (h : off + w ≤ bs.length) :
    beBytes w (beNat (slice bs off w)) ++ bs.drop (off + w) = bs.drop off := by
  rw [beBytes_beNat_of_length (length_slice h), slice_append_drop]

/-- An integer field holds what its width allows. -/
theorem beNat_slice_lt (bs : Bytes) (off w : Nat) : beNat (slice bs off w) < 256 ^ w := by
  have hlen : (slice bs off w).length ≤ w := by
    rw [slice, List.length_take]
    exact Nat.min_le_left _ _
  exact Nat.lt_of_lt_of_le (beNat_lt _) (Nat.pow_le_pow_right (by decide) hlen)

end Base
