import BoundaryHeap.Block

/-!
The ways in which a heap, or a pointer handed to it, can be unsound. Each has a short label for
programs and a message for people.
-/

namespace BoundaryHeap

/-- A broken invariant of the heap, or an unusable pointer. -/
inductive Violation where
  | badPrologue (bp : Nat)
  | outOfRange (bp arenaBytes : Nat)
  | misaligned (bp : Nat)
  | badSize (bp size : Nat)
  | tagMismatch (bp : Nat) (header footer : Tag)
  | adjacentFree (first second : Nat)
  | missingEpilogue (offset : Nat)
  | notAllocated (bp : Nat)
  | allocatedInFreeList (bp : Nat)
  | brokenBackLink (bp : Nat) (expected found : Option Nat)
  | freeListUnordered (bp size previousSize : Nat)
  | freeListCycle
  | strayFreeListNode (bp : Nat)
  | freeBlockNotListed (bp : Nat)
  | freeCountMismatch (listed recorded inChain : Nat)
  deriving Repr, DecidableEq

/-- A tag as messages show it. -/
def Tag.text (t : Tag) : String :=
  s!"BlockMeta \x7b size: {t.size}, allocated: {t.allocated} \x7d"

namespace Violation

/-- A link as messages show it. -/
def linkText : Option Nat → String
  | none => "None"
  | some bp => s!"Some({bp})"

/-- The short name of a violation. -/
def label : Violation → String
  | badPrologue .. => "bad_prologue"
  | outOfRange .. => "out_of_range"
  | misaligned .. => "misaligned"
  | badSize .. => "bad_size"
  | tagMismatch .. => "tag_mismatch"
  | adjacentFree .. => "adjacent_free"
  | missingEpilogue .. => "missing_epilogue"
  | notAllocated .. => "not_allocated"
  | allocatedInFreeList .. => "allocated_in_free_list"
  | brokenBackLink .. => "broken_back_link"
  | freeListUnordered .. => "free_list_unordered"
  | freeListCycle => "free_list_cycle"
  | strayFreeListNode .. => "stray_free_list_node"
  | freeBlockNotListed .. => "free_block_not_listed"
  | freeCountMismatch .. => "free_count_mismatch"

/-- What a violation says to a person. -/
def message : Violation → String
  | badPrologue bp => s!"prologue at {bp} is damaged"
  | outOfRange bp arenaBytes =>
    s!"block at {bp} lies outside the arena ({arenaBytes} bytes)"
  | misaligned bp => s!"block at {bp} is misaligned"
  | badSize bp size => s!"block at {bp} has illegal size {size}"
  | tagMismatch bp header footer =>
    s!"block at {bp} has header {header.text} but footer {footer.text}"
  | adjacentFree first second => s!"free blocks at {first} and {second} are adjacent"
  | missingEpilogue offset => s!"epilogue missing; chain ended at tag offset {offset}"
  | notAllocated bp => s!"block at {bp} is not allocated"
  | allocatedInFreeList bp => s!"allocated block at {bp} is linked in the free list"
  | brokenBackLink bp expected found =>
    s!"free-list node {bp} links back to {linkText found}, expected {linkText expected}"
  | freeListUnordered bp size previousSize =>
    s!"free-list node {bp} of size {size} follows a node of size {previousSize}"
  | freeListCycle => "free list does not terminate"
  | strayFreeListNode bp => s!"free-list node {bp} is not a block in the heap chain"
  | freeBlockNotListed bp => s!"free block at {bp} is missing from the free list"
  | freeCountMismatch listed recorded inChain =>
    s!"free list walks {listed} nodes, records {recorded}, chain holds {inChain} free blocks"

end Violation

end BoundaryHeap
