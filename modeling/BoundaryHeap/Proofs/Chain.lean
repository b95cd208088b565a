import BoundaryHeap.FreeList
import BoundaryHeap.Proofs.Memory
import BoundaryHeap.Stats
import Mathlib.Data.List.Pairwise

/-!
Blocks as spans of memory. A block covers the bytes from eight in front of its payload offset up
to eight in front of the payload offset of the block behind it. Blocks that `Tiles` a range follow
each other without a gap, so any two of them are apart.
-/

namespace BoundaryHeap

namespace Block

theorem headerOffset_eq_ok {bp : Nat} (tagged : 8 ≤ bp) : headerOffset bp = .ok (bp - 8) :=
  Checked.sub_eq_ok tagged

theorem footerOffset_eq_ok {bp size : Nat} (fits : bp + size < wordLimit)
    (large : 16 ≤ bp + size) : footerOffset bp size = .ok (bp + size - 16) := by
  rw [footerOffset, Checked.add_eq_ok fits]
  exact Checked.sub_eq_ok large

end Block

namespace Memory

variable {m : Memory}

theorem header_eq_readTag {bp : Nat} (tagged : 8 ≤ bp) : m.header bp = m.readTag (bp - 8) := by
  rw [header, Block.headerOffset_eq_ok tagged]
  rfl

/-- A word that was made from a tag reads as that tag. -/
theorem readTag_eq_ok {offset : Nat} {tag : Tag} (inside : offset + 8 ≤ m.size)
    (word : m.word offset = tag.toWord) (even : tag.size % 2 = 0) :
    m.readTag offset = .ok tag := by
  have read : m.readWord offset = .ok tag.toWord := by
    rw [readWord, if_pos inside, word]
  have made : (do return Tag.ofWord (← Except.ok tag.toWord) : Except Fault Tag) =
      .ok (Tag.ofWord tag.toWord) := rfl
  rw [readTag, read, made, Tag.ofWord_toWord even]

theorem word_of_readTag {offset : Nat} {tag : Tag} (read : m.readTag offset = .ok tag) :
    m.word offset = tag.toWord := by
  rw [readTag, readWord] at read
  split at read
  · cases read
    exact (Tag.toWord_ofWord _).symm
  · cases read

theorem run_writeWord {offset value : Nat} (inside : offset + 8 ≤ m.size) :
    (writeWord offset value).run m = .ok () (m.setWord offset value) := if_pos inside

theorem run_writeRange {offset : Nat} {values : List UInt8}
    (inside : offset + values.length ≤ m.size) :
    (writeRange offset values).run m = .ok () (m.setSlice offset values) := if_pos inside

theorem run_writeTags {bp : Nat} {tag : Tag} (tagged : 8 ≤ bp) (large : 16 ≤ bp + tag.size)
    (ends : bp + tag.size ≤ m.size) (bounded : m.size < wordLimit) :
    (writeTags bp tag).run m = .ok ()
      ((m.setWord (bp - 8) tag.toWord).setWord (bp + tag.size - 16) tag.toWord) := by
  have header : (writeTag (bp - 8) tag).run m = .ok () (m.setWord (bp - 8) tag.toWord) :=
    run_writeWord (by omega)
  have footer : (writeTag (bp + tag.size - 16) tag).run (m.setWord (bp - 8) tag.toWord) =
      .ok () ((m.setWord (bp - 8) tag.toWord).setWord (bp + tag.size - 16) tag.toWord) :=
    run_writeWord (by rw [size_setWord]; omega)
  simp [writeTags, EStateM.run_bind, Block.headerOffset_eq_ok tagged,
    Block.footerOffset_eq_ok (by omega : bp + tag.size < wordLimit) large, header, footer]

end Memory

namespace Memory.ChangedOnly

variable {m m' : Memory} {touched : Nat → Prop}

theorem readTag (changed : ChangedOnly m m' touched) {offset : Nat}
    (kept : ∀ i, offset ≤ i → i < offset + 8 → ¬ touched i) :
    m'.readTag offset = m.readTag offset := by
  rw [Memory.readTag, Memory.readTag, changed.readWord kept]

theorem header (changed : ChangedOnly m m' touched) {bp : Nat}
    (kept : ∀ i, bp ≤ i + 8 → i < bp → ¬ touched i) : m'.header bp = m.header bp := by
  simp only [Memory.header, Block.headerOffset, Checked.sub, Block.wordSize]
  split
  · exact changed.readTag fun i after before => kept i (by omega) (by omega)
  · rfl

theorem backLink (changed : ChangedOnly m m' touched) {bp : Nat}
    (kept : ∀ i, bp ≤ i → i < bp + 8 → ¬ touched i) : m'.backLink bp = m.backLink bp := by
  rw [Memory.backLink, Memory.backLink, changed.readWord kept]

theorem onLink (changed : ChangedOnly m m' touched) {bp : Nat}
    (kept : ∀ i, bp + 8 ≤ i → i < bp + 16 → ¬ touched i) : m'.onLink bp = m.onLink bp := by
  have same : m'.readWord (bp + 8) = m.readWord (bp + 8) :=
    changed.readWord fun i after before => kept i after (by omega)
  simp only [Memory.onLink, Checked.add, Block.wordSize]
  split
  · exact congrArg (fun found => (return linkOfWord (← found))) same
  · rfl

end Memory.ChangedOnly

namespace ChainBlock

/-- The payload offset of whatever comes behind the block. -/
def stop (b : ChainBlock) : Nat := b.bp + b.tag.size

/-- Neither block reaches into the other. -/
def Apart (a b : ChainBlock) : Prop := a.stop ≤ b.bp ∨ b.stop ≤ a.bp

/-- The block is large enough for two tags and two links, and all of it lies in the memory. -/
structure Inside (b : ChainBlock) (m : Memory) : Prop where
  tagged : 8 ≤ b.bp
  large : 32 ≤ b.tag.size
  ends : b.stop ≤ m.size + 8

/-- The offset lies in the block, its tags included. -/
def Covers (b : ChainBlock) (i : Nat) : Prop := b.bp ≤ i + 8 ∧ i + 8 < b.stop

/-- The offset lies in the two words that hold links while the block is free. -/
def HasLink (b : ChainBlock) (i : Nat) : Prop := b.bp ≤ i ∧ i < b.bp + 16

/-- The offset lies in one of the two tags of the block. -/
def HasTag (b : ChainBlock) (i : Nat) : Prop :=
  (b.bp ≤ i + 8 ∧ i < b.bp) ∨ (b.stop ≤ i + 16 ∧ i + 8 < b.stop)

/-- The offset lies in the payload of the block. -/
def HasPayload (b : ChainBlock) (i : Nat) : Prop := b.bp ≤ i ∧ i + 16 < b.stop

/-- The block has a place and a size that a block of a heap may have. -/
@[mk_iff] structure Legal (b : ChainBlock) : Prop where
  aligned : b.bp % Block.alignment = 0
  size : Block.LegalSize b.tag.size

/-- The memory holds the tag of the block in its first and in its last word. -/
@[mk_iff] structure Tagged (b : ChainBlock) (m : Memory) : Prop where
  header : m.header b.bp = .ok b.tag
  footer : m.readTag (b.stop - 16) = .ok b.tag

instance (b : ChainBlock) : Decidable b.Legal := decidable_of_iff' _ (legal_iff b)

instance (b : ChainBlock) (m : Memory) : Decidable (b.Tagged m) :=
  decidable_of_iff' _ (tagged_iff b m)

/-- Whether the block is on offer. -/
def isFree (b : ChainBlock) : Bool := !b.tag.allocated

theorem Apart.symm {a b : ChainBlock} (apart : a.Apart b) : b.Apart a := Or.symm apart

/-- The link words of a block lie in none that is apart from it. -/
theorem Apart.not_hasLink {a b : ChainBlock} (apart : a.Apart b) (large : 32 ≤ b.tag.size)
    {i : Nat} (covered : a.Covers i) : ¬ b.HasLink i := by
  rintro ⟨first, last⟩
  obtain ⟨above, below⟩ := covered
  simp only [Apart, stop] at apart below
  omega

theorem HasLink.covers {b : ChainBlock} (large : 32 ≤ b.tag.size) {i : Nat} (linked : b.HasLink i) :
    b.Covers i := by
  obtain ⟨first, last⟩ := linked
  refine ⟨by omega, ?_⟩
  simp only [stop]
  omega

theorem Apart.ne {a b : ChainBlock} (apart : a.Apart b) (large : 32 ≤ a.tag.size) : a ≠ b := by
  rintro rfl
  simp only [Apart, stop] at apart
  omega

theorem Inside.congr {b : ChainBlock} {m m' : Memory} (inside : b.Inside m)
    (same : m'.size = m.size) : b.Inside m' :=
  ⟨inside.tagged, inside.large, same ▸ inside.ends⟩

theorem isFree_eq_false {b : ChainBlock} : b.isFree = false ↔ b.tag.allocated = true := by
  simp [isFree]

theorem isFree_iff {b : ChainBlock} : b.isFree = true ↔ b.tag.allocated = false := by
  simp [isFree]

theorem Legal.stop_aligned {b : ChainBlock} (legal : b.Legal) : b.stop % 16 = 0 := by
  have start := legal.aligned
  have whole := legal.size.1
  simp only [Block.alignment] at start whole
  simp only [stop]
  omega

theorem Legal.large {b : ChainBlock} (legal : b.Legal) : 32 ≤ b.tag.size := legal.size.2

theorem HasTag.covers {b : ChainBlock} (large : 32 ≤ b.tag.size) {i : Nat} (tag : b.HasTag i) :
    b.Covers i := by
  simp only [HasTag, Covers, stop] at *
  omega

theorem HasPayload.covers {b : ChainBlock} {i : Nat} (payload : b.HasPayload i) : b.Covers i := by
  obtain ⟨first, last⟩ := payload
  exact ⟨by omega, by omega⟩

/-- No offset lies in two blocks that are apart. -/
theorem Apart.not_covers {a b : ChainBlock} (apart : a.Apart b) {i : Nat} (covered : a.Covers i) :
    ¬ b.Covers i := by
  simp only [Apart, Covers] at *
  omega

theorem HasLink.not_hasTag {b : ChainBlock} (large : 32 ≤ b.tag.size) {i : Nat}
    (linked : b.HasLink i) : ¬ b.HasTag i := by
  simp only [HasLink, HasTag, stop] at *
  omega

theorem HasPayload.not_hasTag {b : ChainBlock} {i : Nat} (payload : b.HasPayload i) :
    ¬ b.HasTag i := by
  simp only [HasPayload, HasTag] at *
  omega

/-- Tags survive writes that keep off them. -/
theorem Tagged.frame {b : ChainBlock} {m m' : Memory} {touched : Nat → Prop} (tagged : b.Tagged m)
    (large : 16 ≤ b.stop) (changed : m.ChangedOnly m' touched)
    (kept : ∀ i, b.HasTag i → ¬ touched i) : b.Tagged m' := by
  constructor
  · rw [changed.header fun i first last => kept i (.inl ⟨first, last⟩), tagged.header]
  · rw [changed.readTag fun i first last => kept i (.inr ⟨by omega, by omega⟩), tagged.footer]

instance : Std.Symm Apart := ⟨fun _ _ => Apart.symm⟩

end ChainBlock

/-- The blocks follow each other without a gap, the first at one payload offset and the last up to
another. -/
def Tiles : Nat → List ChainBlock → Nat → Prop
  | first, [], stop => first = stop
  | first, b :: rest, stop => b.bp = first ∧ Tiles b.stop rest stop

instance decidableTiles :
    (first : Nat) → (blocks : List ChainBlock) → (stop : Nat) → Decidable (Tiles first blocks stop)
  | first, [], stop => inferInstanceAs (Decidable (first = stop))
  | first, b :: rest, stop =>
    have := decidableTiles b.stop rest stop
    inferInstanceAs (Decidable (b.bp = first ∧ Tiles b.stop rest stop))

namespace Tiles

variable {first stop : Nat} {xs ys : List ChainBlock}

theorem append_iff : Tiles first (xs ++ ys) stop ↔
    ∃ middle, Tiles first xs middle ∧ Tiles middle ys stop := by
  induction xs generalizing first with
  | nil => simp [Tiles]
  | cons b rest ih => simp [Tiles, ih, and_assoc]

theorem le (tiles : Tiles first xs stop) : first ≤ stop := by
  induction xs generalizing first with
  | nil => exact Nat.le_of_eq tiles
  | cons b rest ih =>
    obtain ⟨rfl, rest⟩ := tiles
    exact Nat.le_trans (Nat.le_add_right ..) (ih rest)

theorem within (tiles : Tiles first xs stop) {b : ChainBlock} (member : b ∈ xs) :
    first ≤ b.bp ∧ b.stop ≤ stop := by
  obtain ⟨before, after, rfl⟩ := List.append_of_mem member
  obtain ⟨middle, front, back⟩ := append_iff.mp tiles
  obtain ⟨rfl, back⟩ := back
  exact ⟨front.le, back.le⟩

/-- The last block of a tiling reaches up to its end. -/
theorem stop_eq {a : ChainBlock} (tiles : Tiles first (xs ++ [a]) stop) : a.stop = stop := by
  obtain ⟨-, -, -, ends⟩ := append_iff.mp tiles
  exact ends

/-- The blocks of a tiling lie one behind the other. -/
theorem separated (tiles : Tiles first xs stop) : xs.Pairwise fun a b => a.stop ≤ b.bp := by
  induction xs generalizing first with
  | nil => exact .nil
  | cons b rest ih =>
    obtain ⟨rfl, rest⟩ := tiles
    exact List.pairwise_cons.mpr ⟨fun c member => (rest.within member).1, ih rest⟩

/-- The blocks of a tiling start at different offsets. -/
theorem different (tiles : Tiles first xs stop) (legal : ∀ b ∈ xs, b.Legal) :
    (xs.map (·.bp)).Nodup := by
  refine List.pairwise_map.mpr (tiles.separated.imp_of_mem fun {a b} aMem _ behind same => ?_)
  have large := (legal a aMem).large
  simp only [ChainBlock.stop] at behind
  omega

end Tiles

end BoundaryHeap
