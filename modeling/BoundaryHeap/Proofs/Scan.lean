import BoundaryHeap.Check.Scan
import BoundaryHeap.Proofs.Gap
import Mathlib.Data.List.Nodup
import Mathlib.Data.List.Perm.Subperm
import Std.Data.TreeSet.Lemmas

/-!
The scan finds no violation exactly if the heap is well formed. A walk along the chain that finds
none has met blocks that tile the memory; a walk along the list that finds none has met as many
nodes as the list counts, all of them free blocks of that chain and no two the same.
-/

namespace BoundaryHeap

/-- A memory that is laid out behind its prologue as a heap has to be: a chain of blocks up to the
epilogue, no two free neighbours, and a list that threads exactly the free blocks. -/
structure Memory.WellFormed (m : Memory) (prologue : Nat) (l : FreeList)
    (chain nodes : List ChainBlock) : Prop where
  prologueHeader : m.header prologue = .ok (Tag.used 16)
  prologueFooter : m.readTag prologue = .ok (Tag.used 16)
  tiles : Tiles (prologue + 16) chain m.size
  epilogue : m.header m.size = .ok (Tag.used 0)
  legal : ∀ b ∈ chain, b.Legal
  tagged : ∀ b ∈ chain, b.Tagged m
  spaced : Spaced chain
  threads : l.Threads m nodes
  listed : nodes.Perm (chain.filter ChainBlock.isFree)

namespace Scan

variable {m : Memory} {first : Nat} {lastFree : Option Nat} {chain : List ChainBlock}

/-- What a scan of the chain asks of the blocks from `first` on, which come behind a free block or
not. -/
structure Sound (m : Memory) (first : Nat) (lastFree : Option Nat) (chain : List ChainBlock) :
    Prop where
  tiles : Tiles first chain m.size
  epilogue : m.header m.size = .ok (Tag.used 0)
  legal : ∀ b ∈ chain, b.Legal
  tagged : ∀ b ∈ chain, b.Tagged m
  spaced : Spaced chain
  lead : lastFree = none ∨ (firstTag chain).allocated = true

/-- The scan of a sound chain finds no violation, and the free blocks. -/
theorem chainFrom_eq (sound : Sound m first lastFree chain) (above : 8 ≤ first)
    (bounded : m.size < wordLimit) :
    chainFrom m first lastFree = .ok ([], (chain.filter ChainBlock.isFree).map (·.bp)) := by
  induction chain generalizing first lastFree with
  | nil =>
    obtain rfl : first = m.size := sound.tiles
    have sentinel : (Tag.used 0).size = 0 := rfl
    have closes : (Tag.used 0).allocated = true ∧ m.size = m.size := ⟨rfl, rfl⟩
    rw [chainFrom, Fault.bind_of_ok (Block.headerOffset_eq_ok above), dif_neg (Nat.lt_irrefl _),
      Fault.bind_of_ok sound.epilogue, if_pos sentinel, if_pos closes]
    rfl
  | cons b rest ih =>
    have below := sound.tiles.within List.mem_cons_self
    obtain ⟨rfl, tiles⟩ := sound.tiles
    obtain ⟨spaced, meet⟩ := spaced_cons.mp sound.spaced
    obtain ⟨bLegal, legal⟩ := List.forall_mem_cons.mp sound.legal
    obtain ⟨bTagged, tagged⟩ := List.forall_mem_cons.mp sound.tagged
    have large := bLegal.large
    have ends := below.2
    have starts := bLegal.aligned
    simp only [ChainBlock.stop] at ends
    have inside : ¬ m.size < b.bp := by omega
    have some : ¬ b.tag.size = 0 := by omega
    have footer : m.readTag (b.bp + b.tag.size - 16) = .ok b.tag := bTagged.footer
    rw [chainFrom, Fault.bind_of_ok (Block.headerOffset_eq_ok above), dif_neg inside,
      Fault.bind_of_ok bTagged.header, if_neg some, if_neg (not_not.mpr starts),
      dif_pos bLegal.size, Fault.bind_of_ok (Checked.add_eq_ok (by omega)),
      if_neg (Nat.not_lt.mpr ends),
      Fault.bind_of_ok (Block.footerOffset_eq_ok (by omega) (by omega)),
      Fault.bind_of_ok footer, if_pos rfl]
    have above' : 8 ≤ b.stop := by simp only [ChainBlock.stop]; omega
    cases used : b.tag.allocated with
    | true =>
      have next : chainFrom m (b.bp + b.tag.size) none = _ :=
        ih ⟨tiles, sound.epilogue, legal, tagged, spaced, .inl rfl⟩ above'
      rw [if_pos rfl, Fault.bind_of_ok next,
        List.filter_cons_of_neg (by simp [ChainBlock.isFree, used])]
      rfl
    | false =>
      have lone : lastFree = none := by simpa [used] using sound.lead
      have next : chainFrom m (b.bp + b.tag.size) (Option.some b.bp) = _ :=
        ih ⟨tiles, sound.epilogue, legal, tagged, spaced,
          .inr (by simpa [used] using meet)⟩ above'
      rw [if_neg (by simp), Fault.bind_of_ok next, lone,
        List.filter_cons_of_pos (by simp [ChainBlock.isFree, used])]
      rfl

/-- A block that is as it should be in front of a sound chain. -/
theorem Sound.cons {head : Tag} {behind : Option Nat} (header : m.header first = .ok head)
    (footer : m.readTag (first + head.size - 16) = .ok head) (aligned : first % 16 = 0)
    (legal : Block.LegalSize head.size) (lead : lastFree = none ∨ head.allocated = true)
    (follows : behind = none → head.allocated = true)
    (sound : Sound m (first + head.size) behind chain) :
    Sound m first lastFree (⟨first, head⟩ :: chain) where
  tiles := ⟨rfl, sound.tiles⟩
  epilogue := sound.epilogue
  legal := List.forall_mem_cons.mpr ⟨⟨aligned, legal⟩, sound.legal⟩
  tagged := List.forall_mem_cons.mpr ⟨⟨header, footer⟩, sound.tagged⟩
  spaced := spaced_cons.mpr ⟨sound.spaced, sound.lead.imp_left fun none => follows none⟩
  lead := lead

/-- A scan of the chain that finds no violation has met blocks that tile the memory. -/
theorem exists_chain {free : List Nat} (clean : chainFrom m first lastFree = .ok ([], free)) :
    ∃ chain, Sound m first lastFree chain ∧
      free = (chain.filter ChainBlock.isFree).map (·.bp) := by
  induction rest : m.size + 1 - first using Nat.strongRecOn generalizing first lastFree free with
  | ind rest ih =>
    subst rest
    rw [chainFrom, Fault.bind_eq_ok] at clean
    obtain ⟨offset, -, clean⟩ := clean
    split at clean
    · cases clean
    rename_i within
    rw [Fault.bind_eq_ok] at clean
    obtain ⟨head, header, clean⟩ := clean
    split at clean
    · rename_i empty
      split at clean
      · rename_i closes
        obtain ⟨used, rfl⟩ := closes
        cases clean
        have sentinel : head = Tag.used 0 := by
          cases head
          simp_all [Tag.used]
        exact ⟨[], ⟨rfl, sentinel ▸ header, by simp, by simp, .nil, .inr rfl⟩, rfl⟩
      · cases clean
    split at clean
    · cases clean
    rename_i aligned
    split at clean
    · rename_i legal
      simp only [Fault.bind_eq_ok] at clean
      obtain ⟨stop, sum, clean⟩ := clean
      split at clean
      · cases clean
      rename_i ends
      simp only [Fault.bind_eq_ok] at clean
      obtain ⟨place, found, foot, footer, clean⟩ := clean
      obtain ⟨fits, rfl⟩ := Checked.add_eq_ok_iff.mp sum
      have large := legal.2
      simp only [Block.minSize] at large
      rw [Block.footerOffset_eq_ok fits (by omega)] at found
      cases found
      have shorter : m.size + 1 - (first + head.size) < m.size + 1 - first := by omega
      cases used : head.allocated with
      | true =>
        rw [if_pos used] at clean
        obtain ⟨⟨violations, free'⟩, later, same⟩ := Fault.bind_eq_ok.mp clean
        have parts : (foot = head ∧ violations = []) ∧ free' = free := by
          simpa [pure, Except.pure] using same
        obtain ⟨⟨rfl, rfl⟩, rfl⟩ := parts
        obtain ⟨chain, sound, rfl⟩ := ih _ shorter later rfl
        refine ⟨_, sound.cons header footer (not_not.mp aligned) legal (.inr used) fun _ => used,
          ?_⟩
        rw [List.filter_cons_of_neg (by simp [ChainBlock.isFree, used])]
      | false =>
        rw [if_neg (by simp [used])] at clean
        obtain ⟨⟨violations, free'⟩, later, same⟩ := Fault.bind_eq_ok.mp clean
        have parts : (foot = head ∧ lastFree = none ∧ violations = []) ∧ first :: free' = free := by
          simpa [pure, Except.pure] using same
        obtain ⟨⟨rfl, rfl, rfl⟩, rfl⟩ := parts
        obtain ⟨chain, sound, rfl⟩ := ih _ shorter later rfl
        refine ⟨_, sound.cons header footer (not_not.mp aligned) legal (.inl rfl)
          (fun none => by cases none), ?_⟩
        rw [List.filter_cons_of_pos (by simp [ChainBlock.isFree, used])]
        rfl
    · cases clean

/-! ## The list -/

open FreeList

variable {known : Std.TreeSet Nat} {state : ListState} {nodes : List ChainBlock} {b : ChainBlock}
  {recorded steps : Nat}

/-- What the scan of the list carries behind a node. -/
def ListState.next (state : ListState) (b : ChainBlock) : ListState :=
  ⟨state.seen.insert b.bp, state.listed + 1, some b.bp, b.tag.size⟩

/-- What the scan of the list asks of a node: its links, and that it is a free block of the chain,
not seen before and no smaller than the node before. -/
structure Node (m : Memory) (first : Nat) (known : Std.TreeSet Nat) (state : ListState)
    (b : ChainBlock) (after : Option Nat) : Prop where
  back : m.backLink b.bp = .ok state.before
  on : m.onLink b.bp = .ok after
  header : m.header b.bp = .ok b.tag
  free : b.tag.allocated = false
  known : known.contains b.bp = true
  unseen : state.seen.contains b.bp = false
  larger : state.beforeSize ≤ b.tag.size
  starts : first ≤ b.bp ∧ b.bp % 16 = 0
  ends : b.bp + 32 ≤ m.size

/-- What the scan of the list asks of the nodes from some point on. -/
def Row (m : Memory) (first : Nat) (known : Std.TreeSet Nat) : ListState → List ChainBlock → Prop
  | _, [] => True
  | state, b :: rest =>
    Node m first known state b (headOr rest none) ∧ Row m first known (state.next b) rest

/-- The scan of a sound row finds no violation and has seen every node of it. -/
theorem listFrom_eq (row : Row m first known state nodes) (bounded : m.size < wordLimit)
    (counted : state.listed + nodes.length ≤ recorded) (enough : nodes.length ≤ steps) :
    ∃ seen, listFrom m first recorded known steps (headOr nodes none) state =
        .ok ([], some (seen, state.listed + nodes.length)) ∧
      ∀ bp, seen.contains bp = true ↔ state.seen.contains bp = true ∨ ∃ b ∈ nodes, b.bp = bp := by
  induction nodes generalizing state steps with
  | nil =>
    refine ⟨state.seen, ?_, by simp⟩
    cases steps <;> rfl
  | cons b rest ih =>
    obtain ⟨node, row⟩ := row
    cases steps with
    | zero => cases enough
    | succ steps =>
      rw [List.length_cons] at counted
      rw [List.length_cons] at enough
      have fewer : rest.length ≤ steps := Nat.le_of_succ_le_succ enough
      obtain ⟨seen, run, sees⟩ := ih row (by simp only [ListState.next]; omega) fewer
      refine ⟨seen, ?_, fun bp => ?_⟩
      · have ends := node.ends
        have room : b.bp + 2 * Block.wordSize ≤ m.size := by simp only [Block.wordSize]; omega
        have follows : follow m b.bp = .ok (headOr rest none) := by
          rw [follow, Fault.bind_of_ok (Checked.add_eq_ok (by omega)), if_pos room, node.on]
        have fresh : ¬ (recorded < state.listed + 1 ∨ state.seen.contains b.bp = true) := by
          rw [node.unseen]
          simp only [Bool.false_eq_true, or_false]
          omega
        have placed : ¬ (b.bp < first ∨ b.bp % Block.alignment ≠ 0) := by
          have := node.starts
          simp only [Block.alignment]
          omega
        have inside : ¬ m.size < b.bp + Block.minSize := by simp only [Block.minSize]; omega
        rw [headOr, listFrom, Fault.bind_of_ok follows, if_neg fresh, if_neg placed,
          Fault.bind_of_ok (Checked.add_eq_ok (by simp only [Block.minSize]; omega)),
          if_neg inside, Fault.bind_of_ok node.header, Fault.bind_of_ok node.back]
        have notLarger : ¬ b.tag.size < state.beforeSize := Nat.not_lt.mpr node.larger
        have kept : ¬ b.tag.allocated = true := by simp [node.free]
        simp only [if_pos node.known, if_neg kept, if_neg notLarger, if_true]
        have later : listFrom m first recorded known steps (headOr rest none)
            ⟨state.seen.insert b.bp, state.listed + 1, some b.bp, b.tag.size⟩ = _ := run
        rw [Fault.bind_of_ok later]
        simp [ListState.next, pure, Except.pure]
        omega
      · rw [sees]
        simp [ListState.next, or_assoc, or_left_comm]

/-- A scan of the list that finds no violation and counts as many nodes as the list records has met
a sound row of that many nodes. -/
theorem exists_row {node : Option Nat} {outcome : Option (Std.TreeSet Nat × Nat)}
    (clean : listFrom m first recorded known steps node state = .ok ([], outcome))
    (enough : state.listed + steps = recorded + 1) :
    ∃ seen listed, outcome = some (seen, listed) ∧
      (listed = recorded → ∃ nodes, Row m first known state nodes ∧ headOr nodes none = node ∧
        listed = state.listed + nodes.length) := by
  induction steps generalizing state node outcome with
  | zero =>
    rw [listFrom] at clean
    cases clean
    exact ⟨_, _, rfl, fun count => by omega⟩
  | succ steps ih =>
    cases node with
    | none =>
      have stops : listFrom m first recorded known (steps + 1) none state =
          .ok ([], some (state.seen, state.listed)) := rfl
      rw [stops] at clean
      cases clean
      exact ⟨_, _, rfl, fun count => ⟨[], trivial, rfl, rfl⟩⟩
    | some bp =>
      rw [listFrom, Fault.bind_eq_ok] at clean
      obtain ⟨after, follows, clean⟩ := clean
      by_cases seenBefore : recorded < state.listed + 1 ∨ state.seen.contains bp = true
      · rw [if_pos seenBefore] at clean
        cases clean
      by_cases astray : bp < first ∨ bp % Block.alignment ≠ 0
      · rw [if_neg seenBefore, if_pos astray] at clean
        cases clean
      rw [if_neg seenBefore, if_neg astray, Fault.bind_eq_ok] at clean
      obtain ⟨stop, sum, clean⟩ := clean
      obtain ⟨fits, rfl⟩ := Checked.add_eq_ok_iff.mp sum
      by_cases beyond : m.size < bp + Block.minSize
      · rw [if_pos beyond] at clean
        cases clean
      rw [if_neg beyond] at clean
      simp only [Fault.bind_eq_ok] at clean
      obtain ⟨head, header, found, back, ⟨violations, outcome'⟩, later, same⟩ := clean
      have parts : (known.contains bp = true ∧ head.allocated = false ∧
          state.beforeSize ≤ head.size ∧ found = state.before ∧ violations = []) ∧
          outcome' = outcome := by
        simpa [pure, Except.pure, and_assoc] using same
      obtain ⟨⟨listed, free, larger, rfl, rfl⟩, rfl⟩ := parts
      obtain ⟨seen, count, rfl, rows⟩ := ih later (by simp only; omega)
      refine ⟨seen, count, rfl, ?_⟩
      intro reached
      obtain ⟨nodes, row, starts, counted⟩ := rows reached
      have placed : first ≤ bp ∧ bp % 16 = 0 := by
        simp only [Block.alignment] at astray
        omega
      have inside : bp + 32 ≤ m.size := Nat.not_lt.mp beyond
      have on : m.onLink bp = .ok (headOr nodes none) := by
        have room : bp + 2 * Block.wordSize ≤ m.size := by simp only [Block.wordSize]; omega
        have within : bp + 2 * Block.wordSize < wordLimit := by
          simp only [Block.wordSize, Block.minSize] at fits ⊢
          omega
        rw [follow, Fault.bind_of_ok (Checked.add_eq_ok within), if_pos room] at follows
        rw [follows, starts]
      have unseen : state.seen.contains bp = false :=
        Bool.eq_false_iff.mpr fun seen => seenBefore (.inr seen)
      simp only at counted
      refine ⟨⟨bp, head⟩ :: nodes, ⟨?_, row⟩, rfl, by rw [List.length_cons]; omega⟩
      exact ⟨back, on, header, free, listed, unseen, larger, placed, inside⟩

theorem contains_next {bp : Nat} : (state.next b).seen.contains bp = true ↔
    b.bp = bp ∨ state.seen.contains bp = true := by
  simp [ListState.next]

namespace Row

/-- What is asked of a row says of each node that it is a free block of the chain, as its header
tells, and that it was not seen before. -/
theorem node (row : Row m first known state nodes) : ∀ b ∈ nodes,
    m.header b.bp = .ok b.tag ∧ b.tag.allocated = false ∧ known.contains b.bp = true ∧
      state.seen.contains b.bp = false ∧ state.beforeSize ≤ b.tag.size := by
  induction nodes generalizing state with
  | nil => simp
  | cons b rest ih =>
    obtain ⟨node, row⟩ := row
    refine List.forall_mem_cons.mpr
      ⟨⟨node.header, node.free, node.known, node.unseen, node.larger⟩, fun c member => ?_⟩
    obtain ⟨header, free, listed, unseen, larger⟩ := ih row c member
    refine ⟨header, free, listed, Bool.eq_false_iff.mpr fun seen => ?_,
      Nat.le_trans node.larger larger⟩
    exact Bool.eq_false_iff.mp unseen (contains_next.mpr (.inr seen))

theorem linked (row : Row m first known state nodes) : Linked m state.before nodes none := by
  induction nodes generalizing state with
  | nil => trivial
  | cons b rest ih => exact ⟨row.1.back, row.1.on, ih row.2⟩

theorem sorted (row : Row m first known state nodes) :
    nodes.Pairwise fun a b => a.tag.size ≤ b.tag.size := by
  induction nodes generalizing state with
  | nil => exact .nil
  | cons b rest ih =>
    exact List.pairwise_cons.mpr ⟨fun c member => (row.2.node c member).2.2.2.2, ih row.2⟩

theorem different (row : Row m first known state nodes) : (nodes.map (·.bp)).Nodup := by
  induction nodes generalizing state with
  | nil => exact .nil
  | cons b rest ih =>
    refine List.nodup_cons.mpr ⟨fun again => ?_, ih row.2⟩
    obtain ⟨c, member, same⟩ := List.mem_map.mp again
    exact Bool.eq_false_iff.mp (row.2.node c member).2.2.2.1 (contains_next.mpr (.inl same.symm))

/-- A linked row of different free blocks of the chain, ascending by size, is as the scan asks. -/
theorem of_linked (linked : Linked m state.before nodes none)
    (blocks : ∀ b ∈ nodes, m.header b.bp = .ok b.tag ∧ b.tag.allocated = false ∧
      known.contains b.bp = true ∧ (first ≤ b.bp ∧ b.bp % 16 = 0) ∧ b.bp + 32 ≤ m.size)
    (unseen : ∀ b ∈ nodes, state.seen.contains b.bp = false)
    (different : (nodes.map (·.bp)).Nodup) (larger : ∀ b ∈ nodes, state.beforeSize ≤ b.tag.size)
    (sorted : nodes.Pairwise fun a b => a.tag.size ≤ b.tag.size) :
    Row m first known state nodes := by
  induction nodes generalizing state with
  | nil => trivial
  | cons b rest ih =>
    obtain ⟨back, on, linked⟩ := linked
    obtain ⟨⟨header, free, listed, starts, ends⟩, blocks⟩ := List.forall_mem_cons.mp blocks
    obtain ⟨bUnseen, unseen⟩ := List.forall_mem_cons.mp unseen
    obtain ⟨once, different⟩ := List.nodup_cons.mp different
    obtain ⟨smallest, sorted⟩ := List.pairwise_cons.mp sorted
    refine ⟨⟨back, on, header, free, listed, bUnseen, larger b List.mem_cons_self, starts, ends⟩,
      ?_⟩
    refine ih linked blocks (fun c member => ?_) different smallest sorted
    refine Bool.eq_false_iff.mpr fun seen => ?_
    cases contains_next.mp seen with
    | inl same =>
      exact once (List.mem_map.mpr ⟨c, member, same.symm⟩)
    | inr seen =>
      exact Bool.eq_false_iff.mp (unseen c member) seen

end Row

end Scan

namespace Memory

variable {m : Memory} {prologue : Nat} {l : FreeList} {chain nodes : List ChainBlock}

/-- The nodes of the list start at different offsets. -/
theorem WellFormed.different (sound : m.WellFormed prologue l chain nodes) :
    (nodes.map (·.bp)).Nodup := by
  have free : ((chain.filter ChainBlock.isFree).map (·.bp)).Nodup :=
    (sound.tiles.different sound.legal).sublist (List.filter_sublist.map _)
  exact (sound.listed.map _).nodup_iff.mpr free

/-- The list of a well-formed heap and its chain agree. -/
theorem WellFormed.list_eq (sound : m.WellFormed prologue l chain nodes)
    (bounded : m.size < wordLimit) (room : prologue + 16 ≤ m.size) :
    Scan.list m prologue l ((chain.filter ChainBlock.isFree).map (·.bp)) = .ok [] := by
  have row : Scan.Row m (prologue + 16)
      (.ofList ((chain.filter ChainBlock.isFree).map (·.bp))) ⟨∅, 0, none, 0⟩ nodes := by
    refine .of_linked sound.threads.linked (fun b member => ?_) (fun b _ => by simp)
      sound.different (fun b _ => Nat.zero_le _) sound.threads.sorted
    have listed := sound.listed.mem_iff.mp member
    obtain ⟨inChain, free⟩ := List.mem_filter.mp listed
    have legal := sound.legal b inChain
    have within := sound.tiles.within inChain
    have large := legal.large
    simp only [ChainBlock.stop] at within
    refine ⟨(sound.tagged b inChain).header, ChainBlock.isFree_iff.mp free, ?_,
      ⟨within.1, legal.aligned⟩, by omega⟩
    rw [Std.TreeSet.contains_ofList, List.contains_iff_mem]
    exact List.mem_map.mpr ⟨b, listed, rfl⟩
  have counted : 0 + nodes.length ≤ l.length := by rw [sound.threads.length]; omega
  have enough : nodes.length ≤ l.length + 1 := by rw [sound.threads.length]; omega
  obtain ⟨seen, run, sees⟩ := Scan.listFrom_eq row bounded counted enough
  have all : ((chain.filter ChainBlock.isFree).map (·.bp)).filter (fun bp => !seen.contains bp) =
      [] := by
    refine List.filter_eq_nil_iff.mpr fun bp member => ?_
    obtain ⟨b, listed, rfl⟩ := List.mem_map.mp member
    rw [(sees b.bp).mpr (.inr ⟨b, sound.listed.mem_iff.mpr listed, rfl⟩)]
    simp
  have count : nodes.length = ((chain.filter ChainBlock.isFree).map (·.bp)).length := by
    rw [List.length_map, sound.listed.length_eq]
  have same : 0 + nodes.length = ((chain.filter ChainBlock.isFree).map (·.bp)).length ∧
      0 + nodes.length = l.length := by
    rw [Nat.zero_add, sound.threads.length]
    exact ⟨count, rfl⟩
  rw [Scan.list, Fault.bind_of_ok (Checked.add_eq_ok (Nat.lt_of_le_of_lt room bounded)),
    sound.threads.head, Fault.bind_of_ok run]
  simp only [all, if_pos same]
  rfl

/-- No violation is found in a well-formed heap. -/
theorem WellFormed.scan_eq (sound : m.WellFormed prologue l chain nodes)
    (bounded : m.size < wordLimit) (above : 8 ≤ prologue) (room : prologue + 16 ≤ m.size) :
    m.scan prologue l = .ok [] := by
  have tagged : ¬ prologue < Block.wordSize := Nat.not_lt.mpr above
  have inside : ¬ m.size < prologue + Block.prologueSize := Nat.not_lt.mpr room
  have footer : Block.footerOffset prologue Block.prologueSize = .ok (prologue + 16 - 16) :=
    Block.footerOffset_eq_ok (Nat.lt_of_le_of_lt room bounded) (Nat.le_add_left ..)
  have broken : Scan.chainFrom m (prologue + Block.prologueSize) none = _ :=
    Scan.chainFrom_eq ⟨sound.tiles, sound.epilogue, sound.legal, sound.tagged, sound.spaced,
      .inl rfl⟩ (by omega) bounded
  rw [scan, if_neg tagged, Fault.bind_of_ok (Checked.add_eq_ok (Nat.lt_of_le_of_lt room bounded)),
    if_neg inside, Fault.bind_of_ok sound.prologueHeader, Fault.bind_of_ok footer,
    Nat.add_sub_cancel, Fault.bind_of_ok sound.prologueFooter, Fault.bind_of_ok broken]
  simp only [Fault.bind_of_ok (sound.list_eq bounded room)]
  rfl

/-- A list in which no violation is found threads the free blocks of a sound chain. -/
theorem exists_nodes (sound : Scan.Sound m (prologue + 16) none chain)
    (clean : Scan.list m prologue l ((chain.filter ChainBlock.isFree).map (·.bp)) = .ok []) :
    ∃ nodes, l.Threads m nodes ∧ nodes.Perm (chain.filter ChainBlock.isFree) := by
  rw [Scan.list, Fault.bind_eq_ok] at clean
  obtain ⟨first, -, clean⟩ := clean
  rw [Fault.bind_eq_ok] at clean
  obtain ⟨⟨violations, outcome⟩, walked, clean⟩ := clean
  have quiet : violations = [] := by
    cases outcome <;> simp_all [pure, Except.pure]
  subst quiet
  obtain ⟨seen, listed, rfl, rows⟩ := Scan.exists_row walked (Nat.zero_add _)
  have counts : listed = (chain.filter ChainBlock.isFree).length ∧ listed = l.length := by
    have parts := clean
    simp [pure, Except.pure] at parts
    exact parts.2
  obtain ⟨nodes, row, starts, counted⟩ := rows counts.2
  rw [Nat.zero_add] at counted
  refine ⟨nodes, ⟨starts.symm, counts.2.symm.trans counted, row.linked, row.sorted⟩, ?_⟩
  -- the nodes are different free blocks of the chain, and as many as there are
  have blocks : nodes ⊆ chain.filter ChainBlock.isFree := by
    intro b member
    obtain ⟨header, -, known, -, -⟩ := row.node b member
    rw [Std.TreeSet.contains_ofList, List.contains_iff_mem] at known
    obtain ⟨c, inChain, same⟩ := List.mem_map.mp known
    have cHeader := (sound.tagged c (List.mem_filter.mp inChain).1).header
    have tags : c.tag = b.tag := Except.ok.inj (cHeader.symm.trans (same ▸ header))
    have whole : c = b := by
      cases b
      cases c
      simp_all
    exact whole ▸ inChain
  have different : nodes.Nodup := List.Nodup.of_map _ row.different
  exact (List.subperm_of_subset different blocks).perm_of_length_le (by omega)

/-- A heap in which no violation is found is well formed. -/
theorem exists_wellFormed (clean : m.scan prologue l = .ok []) :
    ∃ chain nodes, m.WellFormed prologue l chain nodes := by
  rw [scan] at clean
  by_cases low : prologue < Block.wordSize
  · rw [if_pos low] at clean
    cases clean
  rw [if_neg low, Fault.bind_eq_ok] at clean
  obtain ⟨stop, sum, clean⟩ := clean
  obtain ⟨fits, rfl⟩ := Checked.add_eq_ok_iff.mp sum
  by_cases short : m.size < prologue + Block.prologueSize
  · rw [if_pos short] at clean
    cases clean
  rw [if_neg short] at clean
  simp only [Fault.bind_eq_ok] at clean
  obtain ⟨head, header, place, found, foot, footer, ⟨broken, free⟩, chained, unlisted, threaded,
    same⟩ := clean
  rw [Block.footerOffset_eq_ok fits (Nat.le_add_left ..)] at found
  cases found
  have parts : (head = Tag.used 16 ∧ foot = Tag.used 16) ∧ broken = [] ∧ unlisted = [] := by
    simpa [pure, Except.pure, Block.prologueSize] using same
  obtain ⟨⟨rfl, rfl⟩, rfl, rfl⟩ := parts
  obtain ⟨chain, sound, rfl⟩ := Scan.exists_chain chained
  obtain ⟨nodes, threads, listed⟩ := exists_nodes sound threaded
  exact ⟨chain, nodes, header, footer, sound.tiles, sound.epilogue, sound.legal, sound.tagged,
    sound.spaced, threads, listed⟩

/-- The scan is exact. -/
theorem scan_eq_nil_iff (bounded : m.size < wordLimit) (above : 8 ≤ prologue)
    (room : prologue + 16 ≤ m.size) :
    m.scan prologue l = .ok [] ↔ ∃ chain nodes, m.WellFormed prologue l chain nodes := by
  refine ⟨exists_wellFormed, ?_⟩
  rintro ⟨chain, nodes, sound⟩
  exact sound.scan_eq bounded above room

/-- A heap of two free and two used blocks, with the smaller of the free ones behind the larger. -/
def fourBlocks : Memory :=
  [(8, 17), (16, 17), (24, 48), (32, 112), (64, 48), (72, 33), (96, 33), (104, 32), (120, 32),
    (128, 32), (136, 33), (160, 33), (168, 1)].foldl (fun m word => m.setWord word.1 word.2)
    (Memory.empty.extend 176)

/-- The two free blocks make up a list from the smaller one on, and none from the larger one on. -/
theorem scan_eq_nil_iff_fourBlocks :
    fourBlocks.chainFrom 32 =
      .ok [⟨32, Tag.free 48⟩, ⟨80, Tag.used 32⟩, ⟨112, Tag.free 32⟩, ⟨144, Tag.used 32⟩] ∧
    (∃ chain nodes, fourBlocks.WellFormed 16 ⟨some 112, 2⟩ chain nodes) ∧
    ¬ ∃ chain nodes, fourBlocks.WellFormed 16 ⟨some 32, 2⟩ chain nodes := by
  have size : fourBlocks.size = 176 := by
    have none : empty.size = 0 := rfl
    simp [fourBlocks, none]
  have bounded : fourBlocks.size < wordLimit := by
    rw [size]
    decide
  have room : 16 + 16 ≤ fourBlocks.size := by
    rw [size]
    decide
  have found : fourBlocks.chainFrom 32 =
      .ok [⟨32, Tag.free 48⟩, ⟨80, Tag.used 32⟩, ⟨112, Tag.free 32⟩, ⟨144, Tag.used 32⟩] ∧
      fourBlocks.scan 16 ⟨some 112, 2⟩ = .ok [] ∧ fourBlocks.scan 16 ⟨some 32, 2⟩ ≠ .ok [] := by
    decide +kernel
  obtain ⟨chain, clean, damaged⟩ := found
  exact ⟨chain, (scan_eq_nil_iff bounded (by decide) room).mp clean,
    (scan_eq_nil_iff bounded (by decide) room).not.mp damaged⟩

end Memory

/-- The layout between two requests is well formed. -/
theorem Region.Settled.wellFormed {r : Region} {chain nodes : List ChainBlock}
    (settled : r.Settled chain nodes) : r.memory.WellFormed 16 r.freeList chain nodes where
  prologueHeader := settled.fenced.prologueHeader
  prologueFooter := settled.fenced.prologueFooter
  tiles := settled.tiles
  epilogue := settled.fenced.epilogue
  legal := settled.holds.legal
  tagged := settled.holds.tagged
  spaced := settled.spaced
  threads := settled.holds.shows.toThreads
  listed := settled.listed

end BoundaryHeap
