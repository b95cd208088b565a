import BoundaryHeap.Memory
import Mathlib.Algebra.Ring.Nat

/-!
What a read finds after a write. Every claim about tags, links and payloads comes down to the
bytes that one write touches, so `ChangedOnly` names them: two memories of one size that agree
everywhere else.
-/

namespace BoundaryHeap.Memory

variable {m m' m'' : Memory} {touched touched' : Nat → Prop}

/-! ## Numbers of several bytes -/

theorem littleEndian_congr {offset count : Nat}
    (same : ∀ i, offset ≤ i → i < offset + count → m'.byte i = m.byte i) :
    m'.littleEndian offset count = m.littleEndian offset count := by
  induction count generalizing offset with
  | zero => rfl
  | succ count ih =>
    rw [littleEndian, littleEndian, same offset (by omega) (by omega),
      ih fun i after before => same i (by omega) (by omega)]

theorem byte_setByte_self (m : Memory) {offset : Nat} (value : UInt8) (inside : offset < m.size) :
    (m.setByte offset value).byte offset = value := by
  rw [byte_setByte m offset offset value inside, if_pos rfl]

theorem byte_setByte_ne (m : Memory) {offset other : Nat} (value : UInt8)
    (inside : offset < m.size) (elsewhere : other ≠ offset) :
    (m.setByte offset value).byte other = m.byte other := by
  rw [byte_setByte m offset other value inside, if_neg elsewhere]

theorem byte_setLittleEndian_ne (m : Memory) {offset value count other : Nat}
    (inside : offset + count ≤ m.size) (elsewhere : other < offset ∨ offset + count ≤ other) :
    (m.setLittleEndian offset value count).byte other = m.byte other := by
  induction count generalizing m offset value with
  | zero => rfl
  | succ count ih =>
    rw [setLittleEndian, ih _ (by rw [size_setByte]; omega) (by omega),
      byte_setByte_ne m _ (by omega) (by omega)]

theorem littleEndian_setLittleEndian (m : Memory) {offset value count : Nat}
    (inside : offset + count ≤ m.size) :
    (m.setLittleEndian offset value count).littleEndian offset count = value % 256 ^ count := by
  induction count generalizing m offset value with
  | zero => simp [littleEndian, Nat.mod_one]
  | succ count ih =>
    have room : offset + 1 + count ≤ (m.setByte offset (UInt8.ofNat value)).size := by
      rw [size_setByte]; omega
    have first : ((m.setByte offset (UInt8.ofNat value)).setLittleEndian
        (offset + 1) (value / 256) count).byte offset = UInt8.ofNat value := by
      rw [byte_setLittleEndian_ne _ room (by omega), byte_setByte_self m _ (by omega)]
    rw [setLittleEndian, littleEndian, first, ih _ room, Nat.pow_succ, Nat.mul_comm (256 ^ count),
      Nat.mod_mul]
    rfl

/-! ## Reading past a write -/

/-- A memory that differs from another at most at the touched offsets. -/
structure ChangedOnly (m m' : Memory) (touched : Nat → Prop) : Prop where
  size : m'.size = m.size
  byte : ∀ i, ¬ touched i → m'.byte i = m.byte i

namespace ChangedOnly

theorem refl (m : Memory) : ChangedOnly m m touched := ⟨rfl, fun _ _ => rfl⟩

theorem mono (changed : ChangedOnly m m' touched) (wider : ∀ i, touched i → touched' i) :
    ChangedOnly m m' touched' :=
  ⟨changed.size, fun i kept => changed.byte i fun here => kept (wider i here)⟩

theorem trans (first : ChangedOnly m m' touched) (second : ChangedOnly m' m'' touched') :
    ChangedOnly m m'' (fun i => touched i ∨ touched' i) :=
  ⟨second.size.trans first.size, fun i kept =>
    (second.byte i fun here => kept (.inr here)).trans (first.byte i fun here => kept (.inl here))⟩

theorem word (changed : ChangedOnly m m' touched) {offset : Nat}
    (kept : ∀ i, offset ≤ i → i < offset + 8 → ¬ touched i) : m'.word offset = m.word offset := by
  rw [Memory.word, Memory.word]
  exact littleEndian_congr fun i after before => changed.byte i (kept i after before)

theorem readWord (changed : ChangedOnly m m' touched) {offset : Nat}
    (kept : ∀ i, offset ≤ i → i < offset + 8 → ¬ touched i) :
    m'.readWord offset = m.readWord offset := by
  rw [Memory.readWord, Memory.readWord, changed.size, changed.word kept]

end ChangedOnly

theorem setWord_changedOnly (m : Memory) {offset : Nat} (value : Nat)
    (inside : offset + 8 ≤ m.size) :
    ChangedOnly m (m.setWord offset value) (fun i => offset ≤ i ∧ i < offset + 8) := by
  refine ⟨size_setWord m offset value, ?_⟩
  intro i outside
  have elsewhere : i < offset ∨ offset + 8 ≤ i := by omega
  unfold setWord
  exact byte_setLittleEndian_ne m inside elsewhere

theorem word_setWord (m : Memory) {offset value : Nat} (inside : offset + 8 ≤ m.size)
    (small : value < wordLimit) : (m.setWord offset value).word offset = value := by
  have low : value % 256 ^ 8 = value := Nat.mod_eq_of_lt small
  unfold word setWord
  rw [littleEndian_setLittleEndian m inside, low]

/-! ## Rows of bytes -/

theorem byte_setSlice_ne (m : Memory) {offset other : Nat} {values : List UInt8}
    (inside : offset + values.length ≤ m.size)
    (elsewhere : other < offset ∨ offset + values.length ≤ other) :
    (m.setSlice offset values).byte other = m.byte other := by
  induction values generalizing m offset with
  | nil => rfl
  | cons value rest ih =>
    rw [List.length_cons] at inside elsewhere
    rw [setSlice, ih _ (by rw [size_setByte]; omega) (by omega),
      byte_setByte_ne m _ (by omega) (by omega)]

theorem setSlice_changedOnly (m : Memory) {offset : Nat} {values : List UInt8}
    (inside : offset + values.length ≤ m.size) :
    ChangedOnly m (m.setSlice offset values)
      (fun i => offset ≤ i ∧ i < offset + values.length) :=
  ⟨size_setSlice m offset values, fun _ outside =>
    byte_setSlice_ne m inside (by omega)⟩

theorem byte_setSlice (m : Memory) {offset index : Nat} {values : List UInt8}
    (inside : offset + values.length ≤ m.size) (within : index < values.length) :
    (m.setSlice offset values).byte (offset + index) = values[index] := by
  induction values generalizing m offset index with
  | nil => simp at within
  | cons value rest ih =>
    have room : offset + 1 + rest.length ≤ (m.setByte offset value).size := by
      rw [size_setByte]; simp only [List.length_cons] at inside; omega
    unfold setSlice
    cases index with
    | zero =>
      rw [Nat.add_zero, byte_setSlice_ne _ room (by omega), List.getElem_cons_zero]
      exact byte_setByte_self m value (by simp only [List.length_cons] at inside; omega)
    | succ index =>
      rw [List.getElem_cons_succ, show offset + (index + 1) = offset + 1 + index by omega]
      exact ih _ room (by simpa using within)

theorem getElem?_slice (m : Memory) {offset count index : Nat} (within : index < count) :
    (m.slice offset count)[index]? = some (m.byte (offset + index)) := by
  simp [slice, within]

/-! ## Writing what is there -/

theorem setByte_self (m : Memory) (offset : Nat) : m.setByte offset (m.byte offset) = m := by
  obtain ⟨⟨data⟩⟩ := m
  by_cases inside : offset < data.size
  · have held : offset < (ByteArray.mk data).size := inside
    rw [setByte, dif_pos held, byte, dif_pos held]
    exact congrArg (fun values => Memory.mk ⟨values⟩) (Array.set_getElem_self inside)
  · exact dif_neg inside

theorem setLittleEndian_self (m : Memory) (offset count : Nat) :
    m.setLittleEndian offset (m.littleEndian offset count) count = m := by
  induction count generalizing offset with
  | zero => rfl
  | succ count ih =>
    have low : UInt8.ofNat (m.littleEndian offset (count + 1)) = m.byte offset := by
      apply UInt8.toNat_inj.mp
      have small := (m.byte offset).toNat_lt
      rw [UInt8.toNat_ofNat', littleEndian]
      omega
    have high : m.littleEndian offset (count + 1) / 256 = m.littleEndian (offset + 1) count := by
      have small := (m.byte offset).toNat_lt
      rw [littleEndian]
      omega
    rw [setLittleEndian, low, high, setByte_self, ih]

theorem setWord_self (m : Memory) (offset : Nat) : m.setWord offset (m.word offset) = m := by
  unfold setWord word
  exact setLittleEndian_self m offset 8

/-! ## Growing -/

private theorem byte_push (m : Memory) (offset : Nat) :
    Memory.byte ⟨m.bytes.push 0⟩ offset = m.byte offset := by
  obtain ⟨⟨data⟩⟩ := m
  have pushed : (ByteArray.mk data).push 0 = ⟨data.push 0⟩ := rfl
  have size : ∀ values : Array UInt8, (ByteArray.mk values).size = values.size := by
    intro _
    rfl
  simp only [byte, pushed, size, Array.size_push, ByteArray.getElem_eq_getElem_data,
    Array.getElem_push]
  by_cases inside : offset < data.size
  · simp [inside, Nat.lt_succ_of_lt inside]
  · simp [inside]

theorem byte_extend (m : Memory) (count offset : Nat) :
    (m.extend count).byte offset = m.byte offset := by
  induction count generalizing m with
  | zero => rw [extend]
  | succ count ih => rw [extend, ih, byte_push]

end BoundaryHeap.Memory
