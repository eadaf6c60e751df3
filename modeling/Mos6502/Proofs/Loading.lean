import Mos6502.Memory

/-!
# Loading an image

An image goes to consecutive addresses, and what does not fit below the end of memory is dropped.
Single writes, each behind the last one, would come round to the first page there (`writes`); of
those only as many are made as there are addresses left (`put_eq_writes`).  So each byte that fits
is found at its place and all else is as it was (`Copied`), and an image in two parts can be loaded
part by part (`loadBytes_append`).
-/

namespace Mos6502.Memory

variable {m : Memory} {offset a : Word} {index i : Nat} {data rest : List Byte} {value : Byte}

/-! ## Copying byte by byte -/

/-- Write bytes one by one, each behind the last one.  Behind the last address comes the first. -/
def writes (m : Memory) (address : Word) : List Byte → Memory
  | [] => m
  | value :: rest => (m.write address value).writes (address + 1) rest

theorem put_cons :
    m.put offset.toNat (value :: rest) = (m.write offset value).put (offset.toNat + 1) rest := by
  rw [put, dif_pos offset.isLt, write]

theorem put_of_le (h : addressSpace ≤ index) : m.put index data = m := by
  cases data with
  | nil => rfl
  | cons value rest => rw [put, dif_neg (Nat.not_lt.mpr h)]

/-- An index is that of an address, or it is past the end. -/
theorem exists_word_or_le (index : Nat) : (∃ a : Word, a.toNat = index) ∨ addressSpace ≤ index := by
  obtain h | h := Nat.lt_or_ge index addressSpace
  · exact .inl ⟨BitVec.ofNatLT index h, rfl⟩
  · exact .inr h

theorem read_put_of_outside (h : a.toNat < index ∨ index + data.length ≤ a.toNat) :
    (m.put index data).read a = m.read a := by
  induction data generalizing m index with
  | nil => rfl
  | cons value rest ih =>
      rw [List.length_cons] at h
      obtain ⟨offset, rfl⟩ | hend := exists_word_or_le index
      · have hne : a ≠ offset := by
          rintro rfl
          omega
        rw [put_cons, ih (by omega), read_write_of_ne m value hne]
      · rw [put_of_le hend]

theorem read_put_of_inside (hi : i < data.length) (ha : a.toNat = index + i) :
    (m.put index data).read a = data[i] := by
  induction data generalizing m index i with
  | nil => exact absurd hi (Nat.not_lt_zero i)
  | cons value rest ih =>
      obtain ⟨offset, rfl⟩ | hend := exists_word_or_le index
      · rw [put_cons]
        cases i with
        | zero =>
            obtain rfl : a = offset := BitVec.eq_of_toNat_eq ha
            rw [read_put_of_outside (.inl (Nat.lt_succ_self _)), read_write_self,
              List.getElem_cons_zero]
        | succ i =>
            rw [List.getElem_cons_succ]
            exact ih (Nat.lt_of_succ_lt_succ hi) (by omega)
      · have hspace : a.toNat < addressSpace := a.isLt
        omega

theorem put_append (front back : List Byte) :
    m.put index (front ++ back) = (m.put index front).put (index + front.length) back := by
  induction front generalizing m index with
  | nil => rfl
  | cons value rest ih =>
      obtain ⟨offset, rfl⟩ | hend := exists_word_or_le index
      · rw [List.cons_append, put_cons, put_cons, ih, List.length_cons, Nat.add_assoc,
          Nat.add_comm 1]
      · rw [put_of_le hend, put_of_le hend, put_of_le (Nat.le_add_right_of_le hend)]

/-! ## Places behind an offset -/

theorem toNat_add_ofNat (h : offset.toNat + i < addressSpace) :
    (offset + BitVec.ofNat 16 i).toNat = offset.toNat + i := by
  rw [BitVec.toNat_add, BitVec.toNat_ofNat, Nat.add_mod_mod, Nat.mod_eq_of_lt h]

/-- An address that is not in front of another is so far behind it. -/
theorem add_ofNat_sub (h : offset.toNat ≤ a.toNat) :
    offset + BitVec.ofNat 16 (a.toNat - offset.toNat) = a := by
  have hnat : offset.toNat + (a.toNat - offset.toNat) = a.toNat := Nat.add_sub_cancel' h
  have hspace : offset.toNat + (a.toNat - offset.toNat) < addressSpace := by
    rw [hnat]
    exact a.isLt
  exact BitVec.eq_of_toNat_eq ((toNat_add_ofNat hspace).trans hnat)

theorem put_eq_writes (m : Memory) (offset : Word) (data : List Byte) :
    m.put offset.toNat data = m.writes offset (data.take (addressSpace - offset.toNat)) := by
  induction data generalizing m offset with
  | nil => rw [List.take_nil, put, writes]
  | cons value rest ih =>
      have hspace : offset.toNat < addressSpace := offset.isLt
      have hleft : addressSpace - offset.toNat = addressSpace - (offset.toNat + 1) + 1 := by omega
      rw [put_cons, hleft, List.take_succ_cons, writes]
      obtain hnext | hend := Nat.lt_or_ge (offset.toNat + 1) addressSpace
      · have hsucc : (offset + 1).toNat = offset.toNat + 1 := toNat_add_ofNat hnext
        rw [← hsucc, ih]
      · -- The byte has gone to the last address, behind which no write may follow.
        rw [put_of_le hend, Nat.sub_eq_zero_of_le hend, List.take_zero, writes]

/-! ## Images -/

/-- The second memory is the first with so many bytes of an image from an offset on: with those that
fit. -/
structure Copied (m : Memory) (offset : Word) (data : List Byte) (count : Nat) (m' : Memory) :
    Prop where
  count_eq : count = min data.length (addressSpace - offset.toNat)
  /-- The place of a byte that fits does not come round, and the byte is found there. -/
  inside : ∀ i < count, (offset + BitVec.ofNat 16 i).toNat = offset.toNat + i ∧
    data[i]? = some (m'.read (offset + BitVec.ofNat 16 i))
  outside : ∀ a, (∀ i < count, a ≠ offset + BitVec.ofNat 16 i) → m'.read a = m.read a
  one_by_one : m' = m.writes offset (data.take count)

theorem copied_loadBytes (m : Memory) (offset : Word) (data : List Byte) :
    m.Copied offset data (m.loadBytes offset data).1 (m.loadBytes offset data).2 where
  count_eq := rfl
  inside := by
    intro i hi
    obtain ⟨hlength, hspace⟩ := Nat.lt_min.mp hi
    have hnat : (offset + BitVec.ofNat 16 i).toNat = offset.toNat + i :=
      toNat_add_ofNat (Nat.add_lt_of_lt_sub' hspace)
    refine ⟨hnat, ?_⟩
    rw [List.getElem?_eq_getElem hlength, loadBytes, read_put_of_inside hlength hnat]
  outside := by
    intro a ha
    obtain hfront | hle := Nat.lt_or_ge a.toNat offset.toNat
    · exact read_put_of_outside (.inl hfront)
    · have hnot : ¬ a.toNat - offset.toNat < room offset data.length :=
        fun hlt => ha _ hlt (add_ofNat_sub hle).symm
      have hspace : a.toNat < addressSpace := a.isLt
      rw [room, Nat.lt_min] at hnot
      exact read_put_of_outside (.inr (by omega))
  one_by_one := by
    have htake : data.take (addressSpace - offset.toNat) = data.take (room offset data.length) := by
      rw [List.take_eq_take_iff, room]
      omega
    exact (put_eq_writes m offset data).trans (congrArg _ htake)

/-! ## Images in parts -/

theorem room_add {front back : Nat} (h : offset.toNat + front < addressSpace) :
    room offset (front + back) =
      room offset front + room (offset + BitVec.ofNat 16 front) back := by
  rw [room, room, room, toNat_add_ofNat h]
  omega

theorem room_add_of_le {front : Nat} (back : Nat) (h : addressSpace ≤ offset.toNat + front) :
    room offset (front + back) = room offset front := by
  rw [room, room]
  omega

/-- The second part goes behind the first one, unless that has reached the end of memory. -/
theorem loadBytes_append (m : Memory) (offset : Word) (front back : List Byte) :
    m.loadBytes offset (front ++ back) =
      if offset.toNat + front.length < addressSpace then
        let first := m.loadBytes offset front
        let second := first.2.loadBytes (offset + BitVec.ofNat 16 front.length) back
        (first.1 + second.1, second.2)
      else m.loadBytes offset front := by
  rw [loadBytes, List.length_append, put_append]
  split
  case isTrue h =>
    rw [room_add h, ← toNat_add_ofNat h]
    rfl
  case isFalse h =>
    have hend : addressSpace ≤ offset.toNat + front.length := Nat.le_of_not_lt h
    rw [room_add_of_le _ hend, put_of_le hend, loadBytes]

/-- **Loading is clipped at the end of memory, and can be done in parts.**  As many bytes land as
fit, each at its place, and the rest of the memory is as it was; the same comes of writing just
these bytes one by one.  An image in two parts is loaded by loading the first and then, unless that
has reached the end, the second behind it, and as many bytes land as do of both.  A file that can be
read is loaded as its bytes are, and one that cannot be read leaves the memory as it was. -/
theorem loading_clipped (m : Memory) (offset : Word) (data : List Byte) :
    let count := (m.loadBytes offset data).1
    let m' := (m.loadBytes offset data).2
    m.Copied offset data count m' ∧
      (∀ more, m.loadBytes offset (data ++ more) =
        if offset.toNat + data.length < addressSpace then
          let second := m'.loadBytes (offset + BitVec.ofNat 16 data.length) more
          (count + second.1, second.2)
        else (count, m')) ∧
      ∀ path, m.load path (.ok data) offset = (.ok count, m') ∧
        ∀ cause, m.load path (.error cause) offset = (.error ⟨path, cause⟩, m) := by
  intro count m'
  refine ⟨m.copied_loadBytes offset data, m.loadBytes_append offset data, fun path => ⟨?_, ?_⟩⟩
  · rw [load]
  · intro cause
    rw [load]

end Mos6502.Memory
