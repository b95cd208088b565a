import BoundaryHeap.Proofs.BestFit
import BoundaryHeap.Proofs.ReleaseOrder

/-!
A release takes back what the allocation did. The blocks in use are then those from before it, and
they decide the chain: it is the one from before, with the bytes that the memory has grown by free
at its end. The block that was taken lies in one of the free blocks, so that there is no need to
grow for the same request again.
-/

namespace BoundaryHeap

/-- What becomes of a chain and its nodes when `increment` free bytes come behind its `bytes` bytes
of memory. They are joined to the last block if that is free, and are a block otherwise. -/
inductive Lengthened (bytes increment : Nat) :
    List ChainBlock → List ChainBlock → List ChainBlock → List ChainBlock → Prop
  | joined {front nodes nodes' others : List ChainBlock} {last : ChainBlock}
    (free : last.isFree = true) (listed : nodes.Perm (last :: others))
    (relisted : nodes'.Perm (⟨last.bp, Tag.free (last.tag.size + increment)⟩ :: others)) :
    Lengthened bytes increment (front ++ [last]) nodes
      (front ++ [⟨last.bp, Tag.free (last.tag.size + increment)⟩]) nodes'
  | appended {chain nodes nodes' : List ChainBlock}
    (used : ∀ last ∈ chain.getLast?, last.isFree = false)
    (relisted : nodes'.Perm (⟨bytes, Tag.free increment⟩ :: nodes)) :
    Lengthened bytes increment chain nodes (chain ++ [⟨bytes, Tag.free increment⟩]) nodes'

section Lengthening

variable {bytes increment first stop : Nat} {b : ChainBlock}
  {chain nodes chain' nodes' used : List ChainBlock}

/-- Nodes may be listed in any order. -/
theorem Lengthened.perm {nodes₁ nodes₁' : List ChainBlock}
    (lengthened : Lengthened bytes increment chain nodes chain' nodes')
    (listed : nodes₁.Perm nodes) (relisted : nodes₁'.Perm nodes') :
    Lengthened bytes increment chain nodes₁ chain' nodes₁' := by
  cases lengthened with
  | joined free before after => exact .joined free (listed.trans before) (relisted.trans after)
  | appended used after => exact .appended used (relisted.trans (after.trans (listed.symm.cons _)))

/-- The end of a chain is all that changes when it is lengthened, so there may be more in front of
it, up to a block in use. -/
theorem Lengthened.behind (lengthened : Lengthened bytes increment chain nodes chain' nodes')
    (used : b.isFree = false) (front others : List ChainBlock) :
    Lengthened bytes increment (front ++ b :: chain) (others ++ nodes) (front ++ b :: chain')
      (others ++ nodes') := by
  cases lengthened with
  | @joined before _ _ rest last free listed relisted =>
    have tail (a : ChainBlock) : front ++ b :: (before ++ [a]) = (front ++ b :: before) ++ [a] := by
      simp
    rw [tail, tail]
    exact .joined free ((listed.append_left others).trans List.perm_middle)
      ((relisted.append_left others).trans List.perm_middle)
  | appended ends relisted =>
    have tail : front ++ b :: (chain ++ [⟨bytes, Tag.free increment⟩]) =
        (front ++ b :: chain) ++ [⟨bytes, Tag.free increment⟩] := by simp
    rw [tail]
    refine .appended ?_ ((relisted.append_left others).trans List.perm_middle)
    intro last found
    rw [List.getLast?_append, List.getLast?_cons] at found
    cases ending : chain.getLast? with
    | none =>
      rw [ending] at found
      obtain rfl : b = last := by simpa using found
      exact used
    | some a =>
      rw [ending] at found
      obtain rfl : a = last := by simpa using found
      exact ends a ending

/-- Around the same blocks in use, a longer memory has the longer chain. -/
theorem chainAround_lengthened (some : 0 < increment) (busy : ∀ b ∈ used, b.isFree = false)
    (within : ∀ b ∈ used, b.stop ≤ stop) (ordered : first ≤ stop) :
    Lengthened stop increment (chainAround first used stop)
      ((chainAround first used stop).filter ChainBlock.isFree)
      (chainAround first used (stop + increment))
      ((chainAround first used (stop + increment)).filter ChainBlock.isFree) := by
  induction used generalizing first with
  | nil =>
    have longer : filler first (stop + increment) =
        [⟨first, Tag.free (stop + increment - first)⟩] := if_pos (by omega)
    simp only [chainAround, longer]
    rcases Nat.eq_or_lt_of_le ordered with rfl | room
    · rw [filler_self, Nat.add_sub_cancel_left]
      exact .appended (fun _ found => by cases found) (.refl _)
    · have sum : stop + increment - first = stop - first + increment := by omega
      rw [filler, if_pos room, sum]
      exact @Lengthened.joined stop increment [] _ _ [] _ rfl (.refl _) (.refl _)
  | cons b rest ih =>
    obtain ⟨bUsed, busy⟩ := List.forall_mem_cons.mp busy
    obtain ⟨bWithin, within⟩ := List.forall_mem_cons.mp within
    have unlisted : ¬ b.isFree = true := by simp [bUsed]
    simp only [chainAround, List.filter_append, List.filter_cons_of_neg unlisted]
    exact (ih busy within bWithin).behind bUsed _ _

end Lengthening

/-- The free block that a released block becomes part of is no smaller. -/
theorem Tiles.le_merged {front behind : List ChainBlock} {b : ChainBlock} {first stop : Nat}
    (tiles : Tiles first (front ++ b :: behind) stop) :
    b.tag.size ≤ (merged front b.bp b.stop behind).tag.size := by
  obtain ⟨middle, lead, rfl, trail⟩ := Tiles.append_iff.mp tiles
  obtain ⟨below, above⟩ := merged_spans lead trail
  have whole : b.stop = b.bp + b.tag.size := rfl
  generalize merged front b.bp b.stop behind = joined at below above ⊢
  have ends : joined.stop = joined.bp + joined.tag.size := rfl
  omega

namespace Heap

variable {arena : LimitedArena} {config : HeapConfig} {n : Nat} {h h₁ h₂ : Heap LimitedArena}
  {ledger : Ledger} {chain nodes chain₁ nodes₁ chain₂ nodes₂ front behind : List ChainBlock}
  {b source : ChainBlock} {request size increment : Nat}

/-- What is left of an allocation that has made `h₁` of `h` once it is released again: nothing, or
the memory it has brought. -/
structure Undone (h h₁ h₂ : Heap LimitedArena) (chain nodes chain₂ nodes₂ : List ChainBlock) :
    Prop where
  before : h.memory.WellFormed 16 h.freeList chain nodes
  after : h₂.memory.WellFormed 16 h₂.freeList chain₂ nodes₂
  bytes : h₂.memory.size = h₁.memory.size
  same : h₁.memory.size = h.memory.size → chain₂ = chain ∧ nodes₂.Perm nodes
  longer : h₁.memory.size ≠ h.memory.size → ∃ increment, 0 < increment ∧
    h₁.memory.size = h.memory.size + increment ∧
    Lengthened h.memory.size increment chain nodes chain₂ nodes₂

/-! ## Heaps with the same blocks in use -/

theorem Laid.lengthened (laid : h.Laid chain nodes) (laid₂ : h₂.Laid chain₂ nodes₂)
    (used : usedOf chain₂ = usedOf chain) (some : 0 < increment)
    (bytes : h₂.memory.size = h.memory.size + increment) :
    Lengthened h.memory.size increment chain nodes chain₂ nodes₂ := by
  have busy : ∀ b ∈ usedOf chain, b.isFree = false := fun b member => (mem_usedOf.mp member).2
  have within : ∀ b ∈ usedOf chain, b.stop ≤ h.memory.size := fun b member =>
    (laid.settled.holds.within b (mem_usedOf.mp member).1).2
  have longer := chainAround_lengthened some busy within laid.settled.tiles.le
  rw [← laid.chain_eq, ← used, ← bytes, ← laid₂.chain_eq] at longer
  exact longer.perm laid.settled.listed laid₂.settled.listed

/-- With the blocks in use of before, the rest of the heap is as before but for what the memory has
grown by. -/
theorem Laid.undone (laid : h.Laid chain nodes) (laid₂ : h₂.Laid chain₂ nodes₂)
    (used : usedOf chain₂ = usedOf chain) (bytes : h₂.memory.size = h₁.memory.size)
    (larger : h.memory.size ≤ h₁.memory.size) : Undone h h₁ h₂ chain nodes chain₂ nodes₂ where
  before := laid.settled.wellFormed
  after := laid₂.settled.wellFormed
  bytes := bytes
  same := by
    intro kept
    obtain rfl := laid₂.same_chain laid used (bytes.trans kept)
    exact ⟨rfl, laid₂.settled.listed.trans laid.settled.listed.symm⟩
  longer := by
    intro grown
    obtain ⟨increment, sum⟩ := Nat.exists_eq_add_of_le larger
    have some : 0 < increment := by omega
    exact ⟨increment, some, sum, laid.lengthened laid₂ used some (bytes.trans sum)⟩

/-! ## What the release leaves -/

/-- The blocks in use lie around the free block that an allocation is taken from. -/
theorem Laid.usedOf_around (laid : h.Laid chain nodes)
    (origin : Source h.config h.memory.size chain nodes size front source behind increment) :
    usedOf front ++ usedOf behind = usedOf chain := by
  cases origin with
  | fit split best =>
    obtain ⟨before, after, listed, -⟩ := best.first
    have member : source ∈ nodes := by simp [listed]
    have free := (laid.settled.mem_nodes.mp member).2
    rw [split, usedOf_append, usedOf_cons_of_free free]
  | growth none rounded => exact (List.append_nil _).trans usedOf_cutEnd

/-- Releasing what an allocation has handed out leaves the blocks in use that there were before,
and a free block that is large enough for the allocation. -/
theorem Allocated.release_ensures (laid : h.Laid chain nodes)
    (allocated : Allocated h chain nodes size b h₁ chain₁ nodes₁) :
    (release b.bp).Ensures h₁ Action.Total fun _ h₂ => ∃ chain₂ nodes₂, h₂.Laid chain₂ nodes₂ ∧
      h₂.memory.size = h₁.memory.size ∧ usedOf chain₂ = usedOf chain ∧
      Keeps h.memory h₂.memory (usedOf chain) ∧ ∃ c ∈ nodes₂, size ≤ c.tag.size := by
  obtain ⟨front, source, behind, increment, origin, -, rfl, rfl⟩ := allocated.origin laid
  have laid₁ := allocated.laid
  have keeps := allocated.keeps
  have around := laid.usedOf_around origin
  rw [placedChain, ← List.append_assoc] at laid₁
  apply (Heap.release_ensures laid₁ taken_used).imp
  intro _ h₂ released
  have others : usedOf (front ++ spareFront h.config.placement source size) ++
      usedOf (spareBehind h.config.placement source size ++ behind) = usedOf chain := by
    rw [usedOf_append, usedOf_append, usedOf_spareFront, usedOf_spareBehind, List.append_nil,
      List.nil_append, around]
  have joined := laid₁.settled.tiles.le_merged
  exact ⟨_, _, released.laid, released.changed.size, (usedOf_mergedChain ..).trans others,
    keeps.trans (others ▸ released.keeps), _, FreeList.mem_enter.mpr (.inl rfl),
    allocated.enough.trans joined⟩

/-- A request for which some free block is large enough is served without more memory. -/
theorem Laid.allocate_of_fits (laid : h.Laid chain nodes) (some : request ≠ 0)
    (found : Block.sizeFor request = .some size) (fits : ∃ c ∈ nodes, size ≤ c.tag.size) :
    ∃ ptr h', (allocate request).run h = .ok (.some ptr) h' ∧ h'.memory.size = h.memory.size := by
  have large : ¬ ∀ c ∈ nodes, c.tag.size < size := by
    obtain ⟨c, member, fits⟩ := fits
    exact fun smaller => Nat.not_lt.mpr fits (smaller c member)
  rcases laid.allocate_cases request with ⟨denies, -⟩ | ⟨overreaches, -⟩ |
    ⟨-, -, ptr, h', ran, _, front, source, behind, increment, known, carved⟩
  · exact absurd (denies.lacks some found).1 large
  · exact absurd (overreaches.grows found).1 large
  · cases found.symm.trans known
    cases carved.origin with
    | fit split best => exact ⟨ptr, h', ran, carved.bytes⟩
    | growth none rounded => exact absurd none large

/-- A release takes back the allocation before it. The chain and the nodes are what they were, or
what they were with the bytes the memory has grown by, joined to the last block if that is free.
The payloads that are live are kept, and the same request is served again without more memory. -/
theorem Reaches.release_undoes (reached : Reaches arena config n h ledger) {request ptr : Nat}
    (served : (allocate request).run h = .ok (some ptr) h₁) :
    ∃ h₂ chain nodes chain₂ nodes₂, (release ptr).run h₁ = .ok () h₂ ∧
      Undone h h₁ h₂ chain nodes chain₂ nodes₂ ∧
      (∀ other, (ledger other).isSome → ∃ bytes, h.payload other = .ok (some bytes) ∧
        h₂.payload other = .ok (some bytes)) ∧
      ∃ ptr' h₃, (allocate request).run h₂ = .ok (some ptr') h₃ ∧
        h₃.memory.size = h₂.memory.size := by
  obtain ⟨chain, nodes, sound⟩ := reached.sound
  have backs := sound.backs
  have laid := backs.laid
  obtain ⟨_, _, outcome⟩ := (allocate_ensures laid request).holds served
  cases outcome with
  | served some found allocated =>
    obtain ⟨_, h₂, ran, chain₂, nodes₂, laid₂, bytes, used, keeps, fits⟩ :=
      (allocated.release_ensures laid).exists_run
    refine ⟨h₂, chain, nodes, chain₂, nodes₂, ran,
      laid.undone laid₂ used bytes allocated.continues.larger, fun other live => ?_,
      laid₂.allocate_of_fits some found fits⟩
    obtain ⟨b, member, busy, rfl⟩ := (backs.isSome_iff other).mp live
    replace busy := ChainBlock.isFree_eq_false.mpr busy
    have inUse := mem_usedOf.mpr ⟨member, busy⟩
    have holds := laid.payload_eq member busy
    have same := laid.payload_kept laid₂ keeps inUse inUse (used.symm ▸ inUse)
    exact ⟨_, holds, same.trans holds⟩

/-- An allocation for which a memory with a live block has to grow. The free block at the end of
the memory then has the bytes that it grew by. -/
theorem Reaches.release_undoes_growth :
    ∃ h h₁ h₂ ledger chain nodes chain₂ nodes₂, Reaches (.withLimit 4096)
        { HeapConfig.standard with chunkSize := 64, placement := .front } 1 h ledger ∧
      (allocate 40).run h = .ok (some 64) h₁ ∧ (release 64).run h₁ = .ok () h₂ ∧
      Undone h h₁ h₂ chain nodes chain₂ nodes₂ ∧ h.memory.size = 96 ∧ h₁.memory.size = 160 := by
  have ran : ((do
      let laidOut ← init
      let answers ← Heap.run [.allocate 16]
      let before ← view (·.memory.size)
      let ptr ← allocate 40
      let after ← view (·.memory.size)
      return (laidOut, answers, before, ptr, after) :
        Action (Heap LimitedArena)
          (Except HeapError Unit × List Answer × Nat × Option Nat × Nat)).result
        (new (.withLimit 4096)
          { HeapConfig.standard with chunkSize := 64, placement := .front })).map (·.1) =
      .ok (.ok (), [.block (some 32)], 96, some 64, 160) := by decide +kernel
  obtain ⟨h₁, ran⟩ := Action.exists_run_of_result ran
  obtain ⟨laidOut, h₀, first, ran⟩ := Action.run_bind_eq_ok.mp ran
  obtain ⟨answers, h, second, ran⟩ := Action.run_bind_eq_ok.mp ran
  obtain ⟨before, _, asked, ran⟩ := Action.run_bind_eq_ok.mp ran
  obtain ⟨measured, rfl⟩ := Action.run_ask_eq_ok.mp asked
  obtain ⟨ptr, _, served, ran⟩ := Action.run_bind_eq_ok.mp ran
  obtain ⟨after, _, asked, ran⟩ := Action.run_bind_eq_ok.mp ran
  obtain ⟨grown, rfl⟩ := Action.run_ask_eq_ok.mp asked
  cases ran
  have reached := ((Serves.start first).run second ⟨fun _ => trivial, trivial⟩).reaches
  obtain ⟨h₂, chain, nodes, chain₂, nodes₂, released, undone, -⟩ := reached.release_undoes served
  exact ⟨_, _, h₂, _, chain, nodes, chain₂, nodes₂, reached, served, released, undone,
    Except.ok.inj measured, Except.ok.inj grown⟩

end Heap

end BoundaryHeap
