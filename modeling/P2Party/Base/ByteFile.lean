import P2Party.Base.Codec

/-!
# Files of bytes

A file that is written at offsets. A write past the end fills the gap with zeros; a file
resized to a greater length is filled with zeros.

- `writeAt`, `resize`: the operations;
- `slice_writeAt_self`: what was written is read back;
- `writeAt_of_slice`: writing what is there changes nothing;
- `slice_writeAt_of_le`, `slice_writeAt_of_ge`: a write leaves what is in front of it and
  behind it;
- `length_resize`: the length of a file.
-/

namespace Base

/-- Write bytes at an offset; nothing to write changes nothing. -/
def writeAt (file : Bytes) (offset : Nat) (data : Bytes) : Bytes :=
  if data = [] then file
  else (file ++ List.replicate (offset - file.length) 0).take offset ++
    (data ++ file.drop (offset + data.length))

/-- Cut a file, or fill it up with zeros. -/
def resize (size : Nat) (file : Bytes) : Bytes :=
  file.take size ++ List.replicate (size - file.length) 0

@[simp] theorem writeAt_nil (file : Bytes) (offset : Nat) : writeAt file offset [] = file := if_pos rfl

theorem length_resize (size : Nat) (file : Bytes) : (resize size file).length = size := by
  rw [resize, List.length_append, List.length_take, List.length_replicate]
  omega

variable {file data : Bytes} {offset : Nat}

/-- A write inside a file keeps the file in front of it and behind it. -/
theorem writeAt_eq (h : offset + data.length ≤ file.length) :
    writeAt file offset data = file.take offset ++ (data ++ file.drop (offset + data.length)) := by
  by_cases hnil : data = []
  · rw [hnil, writeAt_nil, List.nil_append, List.length_nil, Nat.add_zero, List.take_append_drop]
  · rw [writeAt, if_neg hnil, Nat.sub_eq_zero_of_le (by omega), List.replicate_zero, List.append_nil]

theorem length_writeAt (h : offset + data.length ≤ file.length) :
    (writeAt file offset data).length = file.length := by
  rw [writeAt_eq h, List.length_append, List.length_append, List.length_take, List.length_drop]
  omega

/-- What was written is read back. -/
theorem slice_writeAt_self (h : offset + data.length ≤ file.length) :
    slice (writeAt file offset data) offset data.length = data := by
  rw [writeAt_eq h]
  refine slice_append ?_ rfl
  rw [List.length_take]
  omega

/-- Writing what is there changes nothing. -/
theorem writeAt_of_slice (h : offset + data.length ≤ file.length) (hsame : slice file offset data.length = data) :
    writeAt file offset data = file := by
  have hrest : data ++ file.drop (offset + data.length) = file.drop offset := by
    nth_rewrite 1 [← hsame]
    rw [slice, ← List.drop_drop, List.take_append_drop]
  rw [writeAt_eq h, hrest, List.take_append_drop]

/-- A write leaves what is in front of it. -/
theorem slice_writeAt_of_le (h : offset + data.length ≤ file.length) {start len : Nat}
    (hle : start + len ≤ offset) : slice (writeAt file offset data) start len = slice file start len := by
  rw [writeAt_eq h]
  refine List.ext_getElem? fun i => ?_
  simp only [slice, List.getElem?_take, List.getElem?_drop]
  split
  case isTrue hi =>
    rw [List.getElem?_append_left (by rw [List.length_take]; omega), List.getElem?_take, if_pos (by omega)]
  case isFalse => rfl

/-- A write leaves what is behind it. -/
theorem slice_writeAt_of_ge (h : offset + data.length ≤ file.length) {start len : Nat}
    (hge : offset + data.length ≤ start) :
    slice (writeAt file offset data) start len = slice file start len := by
  rw [writeAt_eq h]
  refine List.ext_getElem? fun i => ?_
  simp only [slice, List.getElem?_take, List.getElem?_drop]
  split
  case isTrue =>
    rw [List.getElem?_append_right (by rw [List.length_take]; omega), List.length_take,
      List.getElem?_append_right (by omega), List.getElem?_drop]
    congr 1
    omega
  case isFalse => rfl

end Base
