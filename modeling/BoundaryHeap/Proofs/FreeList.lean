import BoundaryHeap.Proofs.Chain
import Mathlib.Data.List.Perm.Subperm
import Mathlib.Data.List.TakeWhile

/-!
The free list threaded through memory stands for a row of free blocks that ascends by size.
`FreeList.Shows` says for which, and walking and searching the list are then walks and searches of
that row.
-/

namespace BoundaryHeap

namespace FreeList

/-- The node that a row starts with, or what comes behind an empty one. -/
def headOr : List ChainBlock → Option Nat → Option Nat
  | [], after => after
  | b :: _, _ => some b.bp

/-- The node that a row ends with, or what comes before an empty one. -/
def lastOr : Option Nat → List ChainBlock → Option Nat
  | before, [] => before
  | _, b :: rest => lastOr (some b.bp) rest

/-- Each node of the row links back to the one before it and on to the one behind it. -/
def Linked (m : Memory) : Option Nat → List ChainBlock → Option Nat → Prop
  | _, [], _ => True
  | before, b :: rest, after =>
    m.backLink b.bp = .ok before ∧ m.onLink b.bp = .ok (headOr rest after) ∧
      Linked m (some b.bp) rest after

instance decidableLinked (m : Memory) :
    (before : Option Nat) → (nodes : List ChainBlock) → (after : Option Nat) →
      Decidable (Linked m before nodes after)
  | _, [], _ => inferInstanceAs (Decidable True)
  | before, b :: rest, after =>
    have := decidableLinked m (some b.bp) rest after
    inferInstanceAs (Decidable (m.backLink b.bp = .ok before ∧
      m.onLink b.bp = .ok (headOr rest after) ∧ Linked m (some b.bp) rest after))

/-- The nodes in front of the place of a size, which are no larger. -/
def upTo (size : Nat) (nodes : List ChainBlock) : List ChainBlock :=
  nodes.takeWhile (·.tag.size ≤ size)

/-- The nodes behind the place of a size. -/
def above (size : Nat) (nodes : List ChainBlock) : List ChainBlock :=
  nodes.dropWhile (·.tag.size ≤ size)

/-- The row with a block put in the place of its size, behind the last node that is no larger. -/
def enter (b : ChainBlock) (nodes : List ChainBlock) : List ChainBlock :=
  upTo b.tag.size nodes ++ b :: above b.tag.size nodes

/-- From its head on the list runs through a row of nodes that ascends by size, and counts it. -/
@[mk_iff] structure Threads (l : FreeList) (m : Memory) (nodes : List ChainBlock) : Prop where
  head : l.head = headOr nodes none
  length : l.length = nodes.length
  linked : Linked m none nodes none
  sorted : nodes.Pairwise fun a b => a.tag.size ≤ b.tag.size

instance (l : FreeList) (m : Memory) (nodes : List ChainBlock) : Decidable (l.Threads m nodes) :=
  decidable_of_iff' _ (threads_iff l m nodes)

/-- The list runs through a row of blocks as their headers tell of them. None of them reaches into
another. -/
structure Shows (l : FreeList) (m : Memory) (nodes : List ChainBlock) : Prop
    extends Threads l m nodes where
  headers : ∀ b ∈ nodes, m.header b.bp = .ok b.tag
  inside : ∀ b ∈ nodes, b.Inside m
  apart : nodes.Pairwise ChainBlock.Apart

variable {m m' : Memory} {touched : Nat → Prop} {before after target : Option Nat}
  {xs ys nodes : List ChainBlock} {b : ChainBlock}

theorem headOr_append : headOr (xs ++ ys) after = headOr xs (headOr ys after) := by
  cases xs <;> rfl

theorem lastOr_append : lastOr before (xs ++ ys) = lastOr (lastOr before xs) ys := by
  induction xs generalizing before with
  | nil => rfl
  | cons b rest ih => exact ih

theorem mem_of_headOr {bp : Nat} (found : bp ∈ headOr nodes none) : ∃ b ∈ nodes, b.bp = bp := by
  cases nodes with
  | nil => cases found
  | cons b rest => exact ⟨b, List.mem_cons_self, Option.some.inj found⟩

theorem mem_of_lastOr {bp : Nat} (found : bp ∈ lastOr none nodes) : ∃ b ∈ nodes, b.bp = bp := by
  cases List.eq_nil_or_concat nodes with
  | inl same =>
    subst same
    cases found
  | inr found =>
    obtain ⟨front, b, rfl⟩ := found
    rw [List.concat_eq_append, lastOr_append] at found
    exact ⟨b, by simp, Option.some.inj found⟩

namespace Linked

theorem append_iff : Linked m before (xs ++ ys) after ↔
    Linked m before xs (headOr ys after) ∧ Linked m (lastOr before xs) ys after := by
  induction xs generalizing before with
  | nil => simp [Linked, lastOr]
  | cons b rest ih => simp [Linked, lastOr, ih, headOr_append, and_assoc]

/-- Links survive writes that keep off the first two payload words of every node. -/
theorem frame (linked : Linked m before nodes after) (changed : m.ChangedOnly m' touched)
    (kept : ∀ b ∈ nodes, ∀ i, b.HasLink i → ¬ touched i) : Linked m' before nodes after := by
  induction nodes generalizing before with
  | nil => trivial
  | cons b rest ih =>
    obtain ⟨back, on, rest⟩ := linked
    have keptHere := kept b List.mem_cons_self
    refine ⟨?_, ?_, ih rest fun c member => kept c (List.mem_cons_of_mem b member)⟩
    · rw [changed.backLink fun i first stop => keptHere i ⟨first, by omega⟩, back]
    · rw [changed.onLink fun i first stop => keptHere i ⟨by omega, stop⟩, on]

end Linked

/-! ## Sizes ascend -/

theorem upTo_append_above (size : Nat) (nodes : List ChainBlock) :
    upTo size nodes ++ above size nodes = nodes := List.takeWhile_append_dropWhile

theorem enter_perm : (enter b nodes).Perm (b :: nodes) := by
  have around : (b :: (upTo b.tag.size nodes ++ above b.tag.size nodes)) = b :: nodes := by
    rw [upTo_append_above]
  exact List.perm_middle.trans (.of_eq around)

theorem mem_enter {c : ChainBlock} : c ∈ enter b nodes ↔ c = b ∨ c ∈ nodes := by
  rw [enter_perm.mem_iff, List.mem_cons]

/-- What is left behind the place of a size is strictly larger. -/
theorem lt_of_mem_above {size : Nat} {c : ChainBlock}
    (sorted : nodes.Pairwise fun a b => a.tag.size ≤ b.tag.size)
    (member : c ∈ above size nodes) : size < c.tag.size := by
  rw [above] at member
  induction nodes with
  | nil => cases member
  | cons b rest ih =>
    obtain ⟨smallest, restSorted⟩ := List.pairwise_cons.mp sorted
    by_cases small : b.tag.size ≤ size
    · rw [List.dropWhile_cons_of_pos (by simpa using small)] at member
      exact ih restSorted member
    · rw [List.dropWhile_cons_of_neg (by simpa using small)] at member
      cases List.mem_cons.mp member with
      | inl same =>
        subst same
        omega
      | inr later =>
        have := smallest c later
        omega

theorem enter_sorted (sorted : nodes.Pairwise fun a b => a.tag.size ≤ b.tag.size) :
    (enter b nodes).Pairwise fun a b => a.tag.size ≤ b.tag.size := by
  have small : ∀ a ∈ upTo b.tag.size nodes, a.tag.size ≤ b.tag.size :=
    fun a member => by simpa using List.mem_takeWhile_imp member
  have large : ∀ c ∈ above b.tag.size nodes, b.tag.size ≤ c.tag.size :=
    fun c member => Nat.le_of_lt (lt_of_mem_above sorted member)
  rw [enter, List.pairwise_append, List.pairwise_cons]
  refine ⟨sorted.sublist (List.takeWhile_sublist _),
    ⟨large, sorted.sublist (List.dropWhile_sublist _)⟩, fun a aMem c cMem => ?_⟩
  cases List.mem_cons.mp cMem with
  | inl same =>
    subst same
    exact small a aMem
  | inr later =>
    exact Nat.le_trans (small a aMem) (large c later)

/-! ## Walking and searching -/

theorem follow_eq (inside : b.Inside m) (bounded : m.size < wordLimit)
    (on : m.onLink b.bp = .ok after) : follow m b.bp = .ok after := by
  obtain ⟨-, large, ends⟩ := inside
  simp only [ChainBlock.stop] at ends
  have room : b.bp + 2 * Block.wordSize ≤ m.size := by simp only [Block.wordSize]; omega
  rw [follow, Checked.add_eq_ok (Nat.lt_of_le_of_lt room bounded)]
  exact (if_pos room).trans on

theorem walkFrom_eq {steps : Nat} (linked : Linked m before nodes none)
    (inside : ∀ b ∈ nodes, b.Inside m) (bounded : m.size < wordLimit)
    (enough : nodes.length ≤ steps) :
    walkFrom m steps (headOr nodes none) = .ok (nodes.map (·.bp)) := by
  induction nodes generalizing before steps with
  | nil => cases steps <;> rfl
  | cons b rest ih =>
    obtain ⟨-, on, linked⟩ := linked
    cases steps with
    | zero => cases enough
    | succ steps =>
      have later := ih linked (fun c member => inside c (List.mem_cons_of_mem b member))
        (by simpa using enough)
      rw [headOr, walkFrom, follow_eq (inside b List.mem_cons_self) bounded on]
      simp [bind, Except.bind, later, pure, Except.pure]

theorem findFrom_eq {steps size : Nat} (linked : Linked m before nodes none)
    (inside : ∀ b ∈ nodes, b.Inside m) (bounded : m.size < wordLimit)
    (headers : ∀ b ∈ nodes, m.header b.bp = .ok b.tag) (enough : nodes.length ≤ steps) :
    findFrom m size steps (headOr nodes none) =
      .ok ((nodes.find? (size ≤ ·.tag.size)).map (·.bp)) := by
  induction nodes generalizing before steps with
  | nil => cases steps <;> rfl
  | cons b rest ih =>
    obtain ⟨-, on, linked⟩ := linked
    cases steps with
    | zero => cases enough
    | succ steps =>
      have later := ih linked (fun c member => inside c (List.mem_cons_of_mem b member))
        (fun c member => headers c (List.mem_cons_of_mem b member)) (by simpa using enough)
      rw [headOr, findFrom, follow_eq (inside b List.mem_cons_self) bounded on]
      by_cases fits : size ≤ b.tag.size <;>
        simp [bind, Except.bind, Memory.blockSize, headers b List.mem_cons_self, pure, Except.pure,
          fits, later]

theorem seek_eq {steps size : Nat} (linked : Linked m before nodes none)
    (headers : ∀ b ∈ nodes, m.header b.bp = .ok b.tag) (enough : nodes.length ≤ steps) :
    seek m size steps before (headOr nodes none) =
      .ok (lastOr before (upTo size nodes), headOr (above size nodes) none) := by
  induction nodes generalizing before steps with
  | nil => cases steps <;> rfl
  | cons b rest ih =>
    obtain ⟨-, on, linked⟩ := linked
    cases steps with
    | zero => cases enough
    | succ steps =>
      have later := ih linked (fun c member => headers c (List.mem_cons_of_mem b member))
        (by simpa using enough)
      rw [upTo, above] at later ⊢
      rw [headOr, seek]
      by_cases small : b.tag.size ≤ size
      · simp [bind, Except.bind, Memory.blockSize, headers b List.mem_cons_self, pure, Except.pure,
          small, Nat.not_lt.mpr small, on, later, lastOr]
      · simp [bind, Except.bind, Memory.blockSize, headers b List.mem_cons_self, pure, Except.pure,
          small, Nat.lt_of_not_le small, lastOr, headOr]

namespace Shows

variable {l : FreeList}

/-- The row is no longer than the memory, since its blocks start at different offsets. -/
theorem length_le (shows : l.Shows m nodes) : nodes.length ≤ m.size := by
  have different : (nodes.map (·.bp)).Nodup := by
    refine List.pairwise_map.mpr (shows.apart.imp_of_mem fun {a b} aMem bMem apart same => ?_)
    have aLarge := (shows.inside a aMem).large
    have bLarge := (shows.inside b bMem).large
    simp only [ChainBlock.Apart, ChainBlock.stop] at apart
    omega
  have within : nodes.map (·.bp) ⊆ List.range m.size := by
    intro bp member
    obtain ⟨b, bMem, rfl⟩ := List.mem_map.mp member
    obtain ⟨-, large, ends⟩ := shows.inside b bMem
    simp only [ChainBlock.stop] at ends
    exact List.mem_range.mpr (by omega)
  simpa using (List.subperm_of_subset different within).length_le

theorem walk_eq (shows : l.Shows m nodes) (bounded : m.size < wordLimit) :
    l.walk m = .ok (nodes.map (·.bp)) := by
  rw [walk, shows.head]
  exact walkFrom_eq shows.linked shows.inside bounded (by rw [shows.length]; omega)

/-- A search finds the first block of the row that is large enough. -/
theorem findFit_eq (shows : l.Shows m nodes) (bounded : m.size < wordLimit) (size : Nat) :
    l.findFit m size = .ok ((nodes.find? (size ≤ ·.tag.size)).map (·.bp)) := by
  rw [findFit, shows.head]
  exact findFrom_eq shows.linked shows.inside bounded shows.headers (by rw [shows.length]; omega)

theorem placeOf_eq (shows : l.Shows m nodes) (header : m.header b.bp = .ok b.tag) :
    l.placeOf m b.bp =
      .ok (lastOr none (upTo b.tag.size nodes), headOr (above b.tag.size nodes) none) := by
  have size : m.blockSize b.bp = .ok b.tag.size := by
    rw [Memory.blockSize, header]
    rfl
  rw [placeOf, size, shows.head]
  exact seek_eq shows.linked shows.headers shows.length_le

theorem nodup (shows : l.Shows m nodes) : nodes.Nodup :=
  shows.apart.imp_of_mem fun aMem _ apart => apart.ne (shows.inside _ aMem).large

/-- The list survives writes that keep off the headers and links of its blocks. -/
theorem frame (shows : l.Shows m nodes) (changed : m.ChangedOnly m' touched)
    (kept : ∀ b ∈ nodes, ∀ i, b.bp ≤ i + 8 → i < b.bp + 16 → ¬ touched i) : l.Shows m' nodes where
  head := shows.head
  length := shows.length
  linked := shows.linked.frame changed fun b member i linked =>
    kept b member i (by have := linked.1; omega) linked.2
  headers := by
    intro b member
    rw [changed.header fun i first last => kept b member i first (by omega)]
    exact shows.headers b member
  sorted := shows.sorted
  inside := fun b member => (shows.inside b member).congr changed.size
  apart := shows.apart

end Shows

end FreeList

end BoundaryHeap
