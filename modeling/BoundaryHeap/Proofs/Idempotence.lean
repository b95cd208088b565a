import BoundaryHeap.Proofs.History

/-!
Resizing twice. Whichever way a resize takes, it leaves a block that is large enough for the request
and too small to be split for it. Resizing that block for the same request writes its two tags over
themselves, so not a byte of the memory changes.
-/

namespace BoundaryHeap

namespace Region.Settled

variable {r : Region} {chain nodes : List ChainBlock} {b : ChainBlock}

/-- Marking a block with the tag it has changes nothing. -/
theorem mark_self (settled : r.Settled chain nodes) (member : b ∈ chain) :
    (mark b.bp b.tag).run r = .ok () r := by
  have tagged := settled.holds.tagged b member
  have within := settled.holds.within b member
  have large := (settled.holds.legal b member).large
  simp only [ChainBlock.stop] at within
  have header : r.memory.word (b.bp - 8) = b.tag.toWord :=
    Memory.word_of_readTag ((Memory.header_eq_readTag (by omega)).symm.trans tagged.header)
  have footer : r.memory.word (b.bp + b.tag.size - 16) = b.tag.toWord :=
    Memory.word_of_readTag tagged.footer
  have written : (Memory.writeTags b.bp b.tag).run r.memory =
      .ok () ((r.memory.setWord (b.bp - 8) b.tag.toWord).setWord (b.bp + b.tag.size - 16)
        b.tag.toWord) :=
    Memory.run_writeTags (by omega) (by omega) within.2 settled.bounded
  rw [← header, Memory.setWord_self, header, ← footer, Memory.setWord_self] at written
  simp only [mark, onMemory, Action.run_focus, written]

/-- Trimming a block to a size that leaves no room for another block changes nothing. -/
theorem trim_self (settled : r.Settled chain nodes) (member : b ∈ chain) (used : b.isFree = false)
    {size : Nat} (enough : size ≤ b.tag.size) (close : b.tag.size < size + 32) :
    (trim b.bp b.tag.size size).run r = .ok () r := by
  have rest : Checked.sub b.tag.size size = .ok (b.tag.size - size) := Checked.sub_eq_ok enough
  have little : b.tag.size - size < Block.minSize := by simp only [Block.minSize]; omega
  have tag : Tag.used b.tag.size = b.tag := by
    rw [Tag.used, ← ChainBlock.isFree_eq_false.mp used]
  refine Action.run_bind_eq_ok.mpr ⟨_, r, by rw [Action.run_lift, rest], ?_⟩
  rw [if_pos little, tag]
  exact settled.mark_self member

end Region.Settled

namespace Heap

variable {arena : LimitedArena} {config : HeapConfig} {n : Nat} {h h₁ : Heap LimitedArena}
  {ledger : Ledger} {chain nodes : List ChainBlock} {b : ChainBlock} {request size : Nat}
  {excused : Fault → Prop}

/-- The heap with one more resize that left the block where it was. -/
def resizedInPlace (h : Heap LimitedArena) : Heap LimitedArena :=
  { h with counters := { h.counters with reallocsInPlace := h.counters.reallocsInPlace + 1 } }

theorem Laid.resizedInPlace (laid : h.Laid chain nodes) : h.resizedInPlace.Laid chain nodes :=
  ⟨laid.settled, laid.prologue, laid.initialized⟩

/-- A block that is large enough for a request, and too small to be split for it, is answered as it
is. -/
theorem Laid.resize_fitting (laid : h.Laid chain nodes) (member : b ∈ chain)
    (used : b.isFree = false) (some : request ≠ 0) (found : Block.sizeFor request = .some size)
    (enough : size ≤ b.tag.size) (close : b.tag.size < size + 32) :
    (resize b.bp request).Ensures h excused fun answer h' =>
      answer = .some b.bp ∧ Agrees h.resizedInPlace h' := by
  have within := laid.settled.holds.within b member
  have live : ¬ b.bp = 0 := by omega
  have serves : ¬ (!true) = true := by decide
  have trimmed : (edit (Region.trim b.bp b.tag.size size)).run h = .ok () h :=
    edit_run (laid.settled.trim_self member used enough close)
  refine scanned_ensures ?_ (fun _ _ holds => ?_) "resize"
  · rw [resizeAs, if_neg live, if_neg some]
    apply readyFor_ensures laid member used
    rw [if_neg serves, sized, found]
    refine .ask (Region.blockSize_eq (laid.settled.holds.tagged b member).header) ?_
    rw [if_pos enough]
    refine .step trimmed (count_ensures (record_ensures fun h' agrees => .pure ⟨rfl, agrees⟩))
  · exact (holds.2.laid laid.resizedInPlace).check_eq

/-- A block that a resize answers with is answered again by a resize of it for the same request,
which touches neither the arena nor the free list. -/
theorem Reaches.resize_again (reached : Reaches arena config n h ledger) {ptr target : Nat}
    (live : (ledger ptr).isSome) (some : request ≠ 0)
    (served : (resize ptr request).run h = .ok (.some target) h₁) :
    ∃ h₂, (resize target request).run h₁ = .ok (.some target) h₂ ∧
      Agrees h₁.resizedInPlace h₂ ∧ h₂.arena = h₁.arena ∧ h₂.freeList = h₁.freeList := by
  obtain ⟨chain, nodes, sound⟩ := reached.sound
  obtain ⟨front, b, behind, rfl, rfl, used⟩ := sound.backs.live live
  obtain ⟨chain', nodes', outcome⟩ :=
    (resize_ensures sound.backs.laid used some).holds served
  cases outcome with
  | resized found way =>
    obtain ⟨b', rfl, laid', carried⟩ := way.carried sound.backs.laid used found
    obtain ⟨member, used'⟩ := mem_usedOf.mp (carried.used.mem_iff.mpr List.mem_cons_self)
    obtain ⟨_, h₂, ran, rfl, agrees⟩ := (laid'.resize_fitting member used' some found
      carried.enough carried.close).exists_run
    refine ⟨h₂, ran, agrees, ?_⟩
    obtain ⟨_, _, rfl⟩ := agrees
    exact ⟨rfl, rfl⟩

/-- A block that has slid down into the free one before it, next to a free block. -/
theorem Reaches.resize_again_slid :
    ∃ h h₁ h₂ ledger, Reaches (.withLimit 4096)
        { HeapConfig.standard with chunkSize := 128, placement := .front } 3 h ledger ∧
      (resize 64 40).run h = .ok (some 32) h₁ ∧ (resize 32 40).run h₁ = .ok (some 32) h₂ ∧
      Agrees h₁.resizedInPlace h₂ ∧ h₂.arena = h₁.arena ∧ h₂.freeList = h₁.freeList := by
  have ran : ((do
      let laidOut ← init
      let answers ← Heap.run [.allocate 16, .allocate 16, .release 32]
      let slid ← resize 64 40
      return (laidOut, answers, slid) :
        Action (Heap LimitedArena) (Except HeapError Unit × List Answer × Option Nat)).result
        (new (.withLimit 4096)
          { HeapConfig.standard with chunkSize := 128, placement := .front })).map (·.1) =
      .ok (.ok (), [.block (some 32), .block (some 64), .released], some 32) := by decide +kernel
  obtain ⟨h₁, ran⟩ := Action.exists_run_of_result ran
  obtain ⟨laidOut, h₀, first, ran⟩ := Action.run_bind_eq_ok.mp ran
  obtain ⟨answers, h, second, ran⟩ := Action.run_bind_eq_ok.mp ran
  obtain ⟨slid, _, third, ran⟩ := Action.run_bind_eq_ok.mp ran
  cases ran
  have reached := ((Serves.start first).run second
    ⟨fun _ => trivial, fun _ => trivial, fun _ => .inr rfl, trivial⟩).reaches
  obtain ⟨h₂, again, agrees, arena, list⟩ := reached.resize_again rfl (by decide) third
  exact ⟨h, h₁, h₂, _, reached, third, again, agrees, arena, list⟩

end Heap

end BoundaryHeap
