import BoundaryHeap.Action

/-!
Memory is the managed region: a row of bytes that only ever grows at its end. `byte` reads it one
byte at a time and every other reading is stated through `byte`. Words are eight bytes, least
significant first. The accessors that end in a `Fault` are the ones the heap uses; the total ones
say what those compute when the access lies inside.
-/

namespace BoundaryHeap

/-- A row of bytes. -/
structure Memory where
  bytes : ByteArray

namespace Memory

/-- The memory without any byte. -/
def empty : Memory := ⟨ByteArray.empty⟩

/-- The number of bytes held. -/
def size (m : Memory) : Nat := m.bytes.size

/-- The byte at an offset, zero past the end. -/
def byte (m : Memory) (offset : Nat) : UInt8 :=
  if h : offset < m.bytes.size then m.bytes[offset] else 0

/-- Overwrites one byte; an offset past the end changes nothing. -/
def setByte (m : Memory) (offset : Nat) (value : UInt8) : Memory :=
  if h : offset < m.bytes.size then ⟨m.bytes.set offset value h⟩ else m

/-- Appends `count` zero bytes. -/
def extend (m : Memory) : Nat → Memory
  | 0 => m
  | count + 1 => extend ⟨m.bytes.push 0⟩ count

/-- The number whose `count` bytes start at `offset`, least significant first. -/
def littleEndian (m : Memory) (offset : Nat) : Nat → Nat
  | 0 => 0
  | count + 1 => (m.byte offset).toNat + 256 * m.littleEndian (offset + 1) count

/-- Writes the `count` low bytes of `value` at `offset`, least significant first. -/
def setLittleEndian (m : Memory) (offset value : Nat) : Nat → Memory
  | 0 => m
  | count + 1 =>
    setLittleEndian (m.setByte offset (UInt8.ofNat value)) (offset + 1) (value / 256) count

/-- The word at an offset. -/
def word (m : Memory) (offset : Nat) : Nat := m.littleEndian offset 8

/-- Overwrites the word at an offset. -/
def setWord (m : Memory) (offset value : Nat) : Memory := m.setLittleEndian offset value 8

/-- The `count` bytes from `offset` on. -/
def slice (m : Memory) (offset count : Nat) : List UInt8 :=
  (List.range count).map fun i => m.byte (offset + i)

/-- Overwrites the bytes from `offset` on. -/
def setSlice (m : Memory) (offset : Nat) : List UInt8 → Memory
  | [] => m
  | value :: rest => setSlice (m.setByte offset value) (offset + 1) rest

/-- The word at an offset, if all of it lies inside. -/
def readWord (m : Memory) (offset : Nat) : Except Fault Nat :=
  if offset + 8 ≤ m.size then .ok (m.word offset) else .error .outOfRange

/-- Overwrites the word at an offset, if all of it lies inside. -/
def writeWord (offset value : Nat) : Action Memory Unit := fun m =>
  if offset + 8 ≤ m.size then .ok () (m.setWord offset value) else .error .outOfRange m

/-- The bytes in `[first, stop)`, if that range lies inside. -/
def readRange (m : Memory) (first stop : Nat) : Except Fault (List UInt8) :=
  if first ≤ stop ∧ stop ≤ m.size then .ok (m.slice first (stop - first)) else .error .outOfRange

/-- Overwrites the bytes from `offset` on, if all of them lie inside. -/
def writeRange (offset : Nat) (values : List UInt8) : Action Memory Unit := fun m =>
  if offset + values.length ≤ m.size then .ok () (m.setSlice offset values)
  else .error .outOfRange m

/-- Copies `count` bytes from `source` to `target`. The source is read whole before the target is
written, so the two may overlap. -/
def copy (source target count : Nat) : Action Memory Unit := do
  let values ← Action.ask (·.readRange source (source + count))
  writeRange target values

private theorem size_set (bytes : ByteArray) (offset : Nat) (value : UInt8)
    (inside : offset < bytes.size) : (bytes.set offset value inside).size = bytes.size := by
  cases bytes with
  | mk data => exact Array.size_set inside

@[simp] theorem size_setByte (m : Memory) (offset : Nat) (value : UInt8) :
    (m.setByte offset value).size = m.size := by
  unfold setByte
  split
  · exact size_set ..
  · rfl

@[simp] theorem size_setLittleEndian (m : Memory) (offset value count : Nat) :
    (m.setLittleEndian offset value count).size = m.size := by
  induction count generalizing m offset value with
  | zero => rfl
  | succ count ih => simp [setLittleEndian, ih]

@[simp] theorem size_setWord (m : Memory) (offset value : Nat) :
    (m.setWord offset value).size = m.size := size_setLittleEndian m offset value 8

@[simp] theorem size_setSlice (m : Memory) (offset : Nat) (values : List UInt8) :
    (m.setSlice offset values).size = m.size := by
  induction values generalizing m offset with
  | nil => rfl
  | cons value rest ih => simp [setSlice, ih]

@[simp] theorem size_extend (m : Memory) (count : Nat) :
    (m.extend count).size = m.size + count := by
  induction count generalizing m with
  | zero => rfl
  | succ count ih =>
    rw [extend, ih]
    simp only [size, ByteArray.size_push]
    omega

@[simp] theorem length_slice (m : Memory) (offset count : Nat) :
    (m.slice offset count).length = count := by
  simp [slice]

/-- Reading a byte after a write finds the written byte there and the old one elsewhere. -/
theorem byte_setByte (m : Memory) (offset other : Nat) (value : UInt8) (inside : offset < m.size) :
    (m.setByte offset value).byte other = if other = offset then value else m.byte other := by
  obtain ⟨⟨data⟩⟩ := m
  have held : offset < data.size := inside
  have written : (ByteArray.mk data).set offset value held = ⟨data.set offset value held⟩ := rfl
  have size : ∀ values : Array UInt8, (ByteArray.mk values).size = values.size := fun _ => rfl
  simp only [setByte, size, held, ↓reduceDIte, written, byte, Array.size_set,
    ByteArray.getElem_eq_getElem_data, Array.getElem_set]
  by_cases here : other = offset
  · subst here
    simp [held]
  · simp [here, Ne.symm here]

-- These are known by what is proved of them: whatever looks inside one meets its bytes each time.
attribute [irreducible] word setWord extend

end Memory

end BoundaryHeap
