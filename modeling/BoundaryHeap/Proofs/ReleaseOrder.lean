import BoundaryHeap.Proofs.History
import BoundaryHeap.Proofs.Stats
import Mathlib.Data.List.Sort

/-!
The order in which blocks are released makes no difference. Between two requests all memory that is
not handed out is on offer, in blocks of which no two are neighbours. So the blocks in use decide
the whole chain, and a release takes one of them away, whichever neighbours it is joined with.
-/

namespace BoundaryHeap

/-- The free block that fills a stretch, none if the stretch is empty. -/
def filler (first stop : Nat) : List ChainBlock :=
  if first < stop then [⟨first, Tag.free (stop - first)⟩] else []

/-- The chain from `first` up to `stop` with some blocks in use and the rest on offer. -/
def chainAround : Nat → List ChainBlock → Nat → List ChainBlock
  | first, [], stop => filler first stop
  | first, b :: rest, stop => filler first b.bp ++ b :: chainAround b.stop rest stop

theorem filler_self (first : Nat) : filler first first = [] := if_neg (Nat.lt_irrefl _)

/-- A free block fills its own stretch. -/
theorem filler_of_free {b : ChainBlock} (free : b.isFree = true) (legal : b.Legal) :
    filler b.bp b.stop = [b] := by
  have large := legal.large
  have same : Tag.free b.tag.size = b.tag := by rw [Tag.free, ← ChainBlock.isFree_iff.mp free]
  rw [filler, ChainBlock.stop, if_pos (by omega), Nat.add_sub_cancel_left, same]

/-- The blocks in use decide a tiling without free neighbours. -/
theorem Tiles.eq_chainAround {blocks : List ChainBlock} {first stop : Nat}
    (tiles : Tiles first blocks stop) (spaced : Spaced blocks) (legal : ∀ b ∈ blocks, b.Legal) :
    blocks = chainAround first (usedOf blocks) stop := by
  induction blocks generalizing first with
  | nil =>
    obtain rfl : first = stop := tiles
    exact (filler_self first).symm
  | cons b rest ih =>
    obtain ⟨rfl, tiles⟩ := tiles
    obtain ⟨spaced, apart⟩ := spaced_cons.mp spaced
    obtain ⟨bLegal, legal⟩ := List.forall_mem_cons.mp legal
    have known := ih tiles spaced legal
    cases free : b.isFree with
    | false => rw [usedOf_cons_of_used free, chainAround, filler_self, List.nil_append, ← known]
    | true =>
      have own := filler_of_free free bLegal
      rw [usedOf_cons_of_free free]
      cases rest with
      | nil =>
        obtain rfl : b.stop = stop := tiles
        exact own.symm
      | cons c after =>
        -- behind a free block is one in use, in front of which the tiling of the rest has no gap
        have offered : ¬ b.tag.allocated = true := by
          rw [ChainBlock.isFree_iff.mp free]
          decide
        have used : c.isFree = false := ChainBlock.isFree_eq_false.mpr (apart.resolve_left offered)
        obtain ⟨starts, -⟩ := tiles
        rw [usedOf_cons_of_used used, chainAround, starts] at known ⊢
        rw [filler_self, List.nil_append] at known
        rw [own, ← known]
        rfl

namespace Heap

variable {h h' h₁ h₂ : Heap LimitedArena} {chain nodes chain' nodes' chain₁ nodes₁ chain₂ nodes₂ :
  List ChainBlock}

/-! ## What the blocks in use decide -/

theorem Laid.chain_eq (laid : h.Laid chain nodes) :
    chain = chainAround 32 (usedOf chain) h.memory.size :=
  laid.settled.tiles.eq_chainAround laid.settled.spaced laid.settled.holds.legal

/-- Two heaps with the same chain, whose lists run through the same blocks. Where several of these
are of one size their order may differ. -/
structure SameLayout (h₁ h₂ : Heap LimitedArena) (chain nodes₁ nodes₂ : List ChainBlock) :
    Prop where
  first : h₁.memory.WellFormed 16 h₁.freeList chain nodes₁
  second : h₂.memory.WellFormed 16 h₂.freeList chain nodes₂
  listed : nodes₁.Perm nodes₂
  sizes : nodes₁.map (·.tag.size) = nodes₂.map (·.tag.size)
  stats : ∃ totals, h₁.stats = .ok totals ∧ h₂.stats = .ok totals

/-- Heaps of one size with the same blocks in use have the same chain. -/
theorem Laid.same_chain (laid₁ : h₁.Laid chain₁ nodes₁) (laid₂ : h₂.Laid chain₂ nodes₂)
    (used : usedOf chain₁ = usedOf chain₂) (size : h₁.memory.size = h₂.memory.size) :
    chain₁ = chain₂ := by
  rw [laid₁.chain_eq, laid₂.chain_eq, used, size]

/-- Heaps of one size with the same blocks in use have the same layout. -/
theorem Laid.sameLayout (laid₁ : h₁.Laid chain₁ nodes₁) (laid₂ : h₂.Laid chain₂ nodes₂)
    (used : usedOf chain₁ = usedOf chain₂) (size : h₁.memory.size = h₂.memory.size) :
    SameLayout h₁ h₂ chain₁ nodes₁ nodes₂ := by
  obtain rfl := laid₁.same_chain laid₂ used size
  have shows₁ := laid₁.settled.holds.shows
  have shows₂ := laid₂.settled.holds.shows
  have listed : nodes₁.Perm nodes₂ := laid₁.settled.listed.trans laid₂.settled.listed.symm
  have lengths : h₁.freeList.length = h₂.freeList.length :=
    shows₁.length.trans (listed.length_eq.trans shows₂.length.symm)
  constructor
  · exact laid₁.settled.wellFormed
  · exact laid₂.settled.wellFormed
  · exact listed
  · have sorted₁ : (nodes₁.map (·.tag.size)).Pairwise (· ≤ ·) :=
      List.pairwise_map.mpr shows₁.sorted
    have sorted₂ : (nodes₂.map (·.tag.size)).Pairwise (· ≤ ·) :=
      List.pairwise_map.mpr shows₂.sorted
    exact (listed.map _).eq_of_pairwise' sorted₁ sorted₂
  · exact ⟨_, laid₁.stats_eq, by rw [laid₂.stats_eq, size, lengths]⟩

/-- With no block in use all memory between the sentinels is one free block. -/
theorem Laid.chain_eq_whole (laid : h.Laid chain nodes) (unused : usedOf chain = [])
    (room : 32 < h.memory.size) : chain = [whole (h.memory.size - 32)] := by
  rw [laid.chain_eq, unused, chainAround, filler, if_pos room]
  rfl

theorem Laid.whole_of_unused (laid : h.Laid chain nodes) (unused : usedOf chain = [])
    (room : 32 < h.memory.size) :
    h.memory.WellFormed 16 h.freeList [whole (h.memory.size - 32)]
      [whole (h.memory.size - 32)] := by
  have formed := laid.settled.wellFormed
  rw [laid.chain_eq_whole unused room] at formed
  obtain rfl : nodes = [whole (h.memory.size - 32)] := formed.listed.eq_singleton
  exact formed

/-! ## Releasing some blocks -/

/-- The heap after the blocks at some pointers have been released. -/
structure ReleasedAll (h : Heap LimitedArena) (chain : List ChainBlock) (ptrs : List Nat)
    (h' : Heap LimitedArena) (chain' nodes' : List ChainBlock) : Prop where
  laid : h'.Laid chain' nodes'
  used : usedOf chain' = (usedOf chain).filter fun b => b.bp ∉ ptrs
  size : h'.memory.size = h.memory.size
  keeps : Keeps h.memory h'.memory (usedOf chain')
  counters : h'.counters = { h.counters with frees := h.counters.frees + ptrs.length }

/-- A release leaves the other blocks in use. -/
theorem Laid.usedOf_others {front behind : List ChainBlock} {b : ChainBlock}
    (laid : h.Laid (front ++ b :: behind) nodes) (used : b.isFree = false) :
    usedOf front ++ usedOf behind =
      (usedOf (front ++ b :: behind)).filter fun c => c.bp ≠ b.bp := by
  have others : ∀ c ∈ usedOf front ++ usedOf behind, c.bp ≠ b.bp :=
    fun c member => laid.settled.bp_ne (usedOf_middle used) member
  have kept : (usedOf front ++ usedOf behind).filter (fun c => c.bp ≠ b.bp) =
      usedOf front ++ usedOf behind :=
    List.filter_eq_self.mpr fun c member => decide_eq_true (others c member)
  have dropped : (b :: usedOf behind).filter (fun c => c.bp ≠ b.bp) =
      (usedOf behind).filter fun c => c.bp ≠ b.bp := List.filter_cons_of_neg (by simp)
  rw [usedOf_append, usedOf_cons_of_used used, List.filter_append, dropped, ← List.filter_append,
    kept]

/-- Blocks in use can be released one after the other, each of them once. -/
theorem Laid.releaseAll_ensures {ptrs : List Nat} (laid : h.Laid chain nodes)
    (different : ptrs.Nodup) (live : ∀ ptr ∈ ptrs, ∃ b ∈ usedOf chain, b.bp = ptr) :
    (Heap.run (ptrs.map .release)).Ensures h Action.Total fun answers h' =>
      answers = ptrs.map (fun _ => .released) ∧
        ∃ chain' nodes', ReleasedAll h chain ptrs h' chain' nodes' := by
  induction ptrs generalizing h chain nodes with
  | nil =>
    have all : (usedOf chain).filter (fun b => b.bp ∉ ([] : List Nat)) = usedOf chain := by simp
    exact .pure ⟨rfl, chain, nodes, laid, all.symm, rfl, fun _ _ _ _ => rfl, rfl⟩
  | cons ptr rest ih =>
    obtain ⟨b, member, rfl⟩ := live ptr (List.mem_cons_self ..)
    obtain ⟨inChain, used⟩ := mem_usedOf.mp member
    obtain ⟨front, behind, rfl⟩ := List.append_of_mem inChain
    obtain ⟨once, different⟩ := List.nodup_cons.mp different
    have others := laid.usedOf_others used
    have first : (Heap.call (.release b.bp)).Ensures h Action.Total fun answer h₁ =>
        answer = .released ∧ Released h front b behind nodes h₁ :=
      (release_ensures laid used).bind fun _ _ released => .pure ⟨rfl, released⟩
    apply first.bind
    rintro _ h₁ ⟨rfl, released⟩
    -- no pointer comes twice, so the blocks at the rest of them are still in use
    have still : ∀ ptr ∈ rest, ∃ c ∈ usedOf (mergedChain front b.bp b.stop behind), c.bp = ptr := by
      intro ptr later
      obtain ⟨c, cMem, rfl⟩ := live ptr (List.mem_cons_of_mem _ later)
      have other : c.bp ≠ b.bp := fun same => once (same ▸ later)
      rw [usedOf_mergedChain, others]
      exact ⟨c, List.mem_filter.mpr ⟨cMem, decide_eq_true other⟩, rfl⟩
    apply (ih released.laid different still).bind
    rintro _ h₂ ⟨rfl, chain', nodes', all⟩
    refine .pure ⟨rfl, chain', nodes', ?_⟩
    have left : usedOf chain' = (usedOf front ++ usedOf behind).filter fun c => c.bp ∉ rest := by
      rw [all.used, usedOf_mergedChain]
    exact
      { laid := all.laid
        used := by
          rw [left, others, List.filter_filter]
          simp [Bool.and_comm]
        size := all.size.trans released.changed.size
        keeps := by
          apply (released.keeps.subset ?_).trans all.keeps
          rw [left]
          exact fun c member => (List.mem_filter.mp member).1
        counters := by
          rw [all.counters, released.counters, List.length_cons]
          simp only [Nat.add_assoc, Nat.add_comm 1] }

/-- A block that is still in use holds what it held. -/
theorem ReleasedAll.payload_eq {ptrs : List Nat} {b : ChainBlock}
    (all : ReleasedAll h chain ptrs h' chain' nodes') (laid : h.Laid chain nodes)
    (member : b ∈ usedOf chain) (kept : b.bp ∉ ptrs) : h'.payload b.bp = h.payload b.bp := by
  have still : b ∈ usedOf chain' := by
    rw [all.used]
    exact List.mem_filter.mpr ⟨member, decide_eq_true kept⟩
  exact laid.payload_kept all.laid all.keeps still member still

variable {arena : LimitedArena} {config : HeapConfig} {n : Nat} {ledger : Ledger}

/-- Live blocks may be released in any order: all of it succeeds, and in the end the chain, the
nodes of the free list with their sizes, the totals and the payloads that are still live are the
same. With no block live, however that came about, the heap is one free block again. -/
theorem Reaches.release_order (reached : Reaches arena config n h ledger) {ptrs ptrs' : List Nat}
    (different : ptrs.Nodup) (live : ∀ ptr ∈ ptrs, (ledger ptr).isSome)
    (reordered : ptrs.Perm ptrs') :
    (∃ h₁ h₂ chain nodes₁ nodes₂,
      (Heap.run (ptrs.map .release)).run h = .ok (ptrs.map fun _ => .released) h₁ ∧
      (Heap.run (ptrs'.map .release)).run h = .ok (ptrs'.map fun _ => .released) h₂ ∧
      SameLayout h₁ h₂ chain nodes₁ nodes₂ ∧ h₁.counters = h₂.counters ∧
      ∀ ptr ∉ ptrs, (ledger ptr).isSome → ∃ bytes, h.payload ptr = .ok (some bytes) ∧
        h₁.payload ptr = .ok (some bytes) ∧ h₂.payload ptr = .ok (some bytes)) ∧
    ((∀ ptr, ledger ptr = none) →
      h.memory.WellFormed 16 h.freeList [whole (h.memory.size - 32)]
        [whole (h.memory.size - 32)]) := by
  obtain ⟨chain, nodes, sound⟩ := reached.sound
  have backs := sound.backs
  have inUse {ptr : Nat} (live : (ledger ptr).isSome) : ∃ b ∈ usedOf chain, b.bp = ptr := by
    obtain ⟨b, member, used, place⟩ := (backs.isSome_iff ptr).mp live
    exact ⟨b, mem_usedOf.mpr ⟨member, ChainBlock.isFree_eq_false.mpr used⟩, place⟩
  constructor
  · obtain ⟨_, h₁, ran₁, rfl, chain₁, nodes₁, all₁⟩ :=
      (backs.laid.releaseAll_ensures different fun ptr member => inUse (live ptr member)).exists_run
    obtain ⟨_, h₂, ran₂, rfl, chain₂, nodes₂, all₂⟩ :=
      (backs.laid.releaseAll_ensures (reordered.nodup_iff.mp different) fun ptr member =>
        inUse (live ptr (reordered.mem_iff.mpr member))).exists_run
    have used : usedOf chain₁ = usedOf chain₂ := by
      simp only [all₁.used, all₂.used, reordered.mem_iff]
    refine ⟨h₁, h₂, chain₁, nodes₁, nodes₂, ran₁, ran₂, ?_, ?_, fun ptr kept alive => ?_⟩
    · exact all₁.laid.sameLayout all₂.laid used (all₁.size.trans all₂.size.symm)
    · rw [all₁.counters, all₂.counters, reordered.length_eq]
    · obtain ⟨b, member, rfl⟩ := inUse alive
      obtain ⟨inChain, used⟩ := mem_usedOf.mp member
      have bytes := backs.laid.payload_eq inChain used
      have kept' : b.bp ∉ ptrs' := fun member => kept (reordered.mem_iff.mpr member)
      exact ⟨_, bytes, (all₁.payload_eq backs.laid member kept).trans bytes,
        (all₂.payload_eq backs.laid member kept').trans bytes⟩
  · intro dropped
    apply backs.laid.whole_of_unused _ sound.room
    apply List.eq_nil_iff_forall_not_mem.mpr
    intro b member
    have entered := backs.backed.entered b member
    rw [dropped] at entered
    cases entered

/-- Two neighbours, with a third block behind them that stays in use. -/
theorem Reaches.release_order_swapped :
    ∃ h h₁ h₂ ledger, Reaches (.withLimit 4096)
        { HeapConfig.standard with chunkSize := 96, placement := .front } 3 h ledger ∧
      (Heap.run [.release 32, .release 64]).run h = .ok [.released, .released] h₁ ∧
      (Heap.run [.release 64, .release 32]).run h = .ok [.released, .released] h₂ ∧
      ∃ chain nodes₁ nodes₂, SameLayout h₁ h₂ chain nodes₁ nodes₂ := by
  have ran : ((do
      let laidOut ← init
      let answers ← Heap.run [.allocate 16, .allocate 16, .allocate 16]
      return (laidOut, answers) :
        Action (Heap LimitedArena) (Except HeapError Unit × List Answer)).result
        (new (.withLimit 4096)
          { HeapConfig.standard with chunkSize := 96, placement := .front })).map (·.1) =
      .ok (.ok (), [.block (some 32), .block (some 64), .block (some 96)]) := by decide +kernel
  obtain ⟨h, ran⟩ := Action.exists_run_of_result ran
  obtain ⟨laidOut, h₀, first, ran⟩ := Action.run_bind_eq_ok.mp ran
  obtain ⟨answers, h', second, ran⟩ := Action.run_bind_eq_ok.mp ran
  cases ran
  have served := (Serves.start first).run second ⟨fun _ => trivial, fun _ => trivial,
    fun _ => trivial, trivial⟩
  obtain ⟨⟨h₁, h₂, chain, nodes₁, nodes₂, ran₁, ran₂, same, -⟩, -⟩ :=
    Reaches.release_order served.reaches (by decide : [32, 64].Nodup)
      (List.forall_mem_cons.mpr ⟨rfl, List.forall_mem_singleton.mpr rfl⟩) (.swap 64 32 [])
  exact ⟨h, h₁, h₂, _, served.reaches, ran₁, ran₂, chain, nodes₁, nodes₂, same⟩

end Heap

end BoundaryHeap
