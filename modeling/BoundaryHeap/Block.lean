import BoundaryHeap.Memory

/-!
Blocks and their boundary tags. A block is named by the offset `bp` of its payload. Its header is
the word before the payload and its footer the last word of the block; both hold the same tag, the
size of the whole block and whether it is allocated.

      bp - 8     bp                     bp + size - 16   bp + size - 8
      | header | payload                | footer         | next header

Sizes are multiples of sixteen, which leaves the lowest bit of a tag free for the flag.
-/

namespace BoundaryHeap

namespace Block

/-- The bytes of a tag, and of a link of the free list. -/
abbrev wordSize : Nat := 8

/-- Payload offsets and block sizes are multiples of this. -/
abbrev alignment : Nat := 16

/-- The bytes of a block that its two tags take. -/
abbrev overhead : Nat := 16

/-- The smallest block: two tags and room for two links. -/
abbrev minSize : Nat := 32

/-- The prologue is a block without payload. -/
abbrev prologueSize : Nat := 16

/-- The next multiple of the alignment, if it can be computed in 64 bits. -/
def roundUp (value : Nat) : Option Nat :=
  if value + 15 < wordLimit then some ((value + 15) / 16 * 16) else none

/-- The size of the block that holds a payload of `request` bytes. -/
def sizeFor (request : Nat) : Option Nat :=
  if request + overhead < wordLimit then (roundUp (request + overhead)).map (max · minSize)
  else none

/-- Where the header of a block lies. -/
def headerOffset (bp : Nat) : Except Fault Nat := Checked.sub bp wordSize

/-- Where the footer of a block of a given size lies. -/
def footerOffset (bp size : Nat) : Except Fault Nat := do
  let stop ← Checked.add bp size
  Checked.sub stop overhead

/-- The payload bytes of a block of a given size. -/
def payloadCapacity (size : Nat) : Except Fault Nat := Checked.sub size overhead

/-- A size a block between the sentinels may have. -/
def LegalSize (size : Nat) : Prop := size % alignment = 0 ∧ minSize ≤ size

instance (size : Nat) : Decidable (LegalSize size) := inferInstanceAs (Decidable (_ ∧ _))

end Block

/-- What a boundary tag says about its block. -/
structure Tag where
  /-- The bytes of the whole block, tags included. -/
  size : Nat
  /-- Whether the block is handed out. -/
  allocated : Bool
  deriving Repr, DecidableEq

namespace Tag

/-- The tag of a free block. -/
def free (size : Nat) : Tag := ⟨size, false⟩

/-- The tag of an allocated block. -/
def used (size : Nat) : Tag := ⟨size, true⟩

/-- The word that stores a tag: the flag is the lowest bit and replaces that bit of the size. -/
def toWord (t : Tag) : Nat := t.size / 2 * 2 + t.allocated.toNat

/-- The tag that a word stores. -/
def ofWord (word : Nat) : Tag := ⟨word / 2 * 2, word % 2 == 1⟩

theorem ofWord_toWord {t : Tag} (even : t.size % 2 = 0) : ofWord t.toWord = t := by
  obtain ⟨size, allocated⟩ := t
  simp only at even
  cases allocated <;> simp [toWord, ofWord] <;> omega

theorem toWord_ofWord (word : Nat) : (ofWord word).toWord = word := by
  simp only [toWord, ofWord]
  rcases Nat.mod_two_eq_zero_or_one word with low | low <;> simp [low] <;> omega

end Tag

namespace Memory

/-- The tag stored at an offset. -/
def readTag (m : Memory) (offset : Nat) : Except Fault Tag := do
  return Tag.ofWord (← m.readWord offset)

/-- Stores a tag at an offset. -/
def writeTag (offset : Nat) (tag : Tag) : Action Memory Unit := writeWord offset tag.toWord

/-- The header of the block at `bp`. -/
def header (m : Memory) (bp : Nat) : Except Fault Tag := do
  m.readTag (← Block.headerOffset bp)

/-- The tag at the place where the header of the block at `bp` says its footer is. -/
def footer (m : Memory) (bp : Nat) : Except Fault Tag := do
  let head ← m.header bp
  m.readTag (← Block.footerOffset bp head.size)

/-- The size in the header of the block at `bp`. -/
def blockSize (m : Memory) (bp : Nat) : Except Fault Nat := do
  return (← m.header bp).size

/-- Gives the block at `bp` a tag, at both its ends and the header first. The place of the footer
follows from the size in the tag, so this also resizes the block. -/
def writeTags (bp : Nat) (tag : Tag) : Action Memory Unit := do
  writeTag (← Block.headerOffset bp) tag
  writeTag (← Block.footerOffset bp tag.size) tag

/-- The payload offset of the block that follows the one at `bp`. -/
def nextBlock (m : Memory) (bp : Nat) : Except Fault Nat := do
  Checked.add bp (← m.blockSize bp)

/-- The footer of the block before the one at `bp`. -/
def precedingTag (m : Memory) (bp : Nat) : Except Fault Tag := do
  m.readTag (← Checked.sub bp Block.overhead)

/-- The payload offset of the block before the one at `bp`. -/
def precedingBlock (m : Memory) (bp : Nat) : Except Fault Nat := do
  Checked.sub bp (← m.precedingTag bp).size

end Memory

end BoundaryHeap
