import BoundaryHeap.Proofs.Layout
import Mathlib.Data.List.Nodup

/-!
Opening, filling and closing a gap. A block that is taken out of a settled region leaves a gap; free
neighbours widen it; blocks are put into it from its start on, and once nothing is left of it the
region is settled again.
-/

namespace BoundaryHeap

variable {xs ys : List ChainBlock} {b : ChainBlock}

@[simp] theorem lastTag_append_singleton : lastTag (xs ++ [b]) = b.tag := by simp [lastTag]

@[simp] theorem firstTag_cons : firstTag (b :: xs) = b.tag := rfl

theorem spaced_append : Spaced (xs ++ ys) ↔
    Spaced xs ∧ Spaced ys ∧ ((lastTag xs).allocated = true ∨ (firstTag ys).allocated = true) := by
  rw [Spaced, List.isChain_append]
  refine and_congr_right fun _ => and_congr_right fun _ => ?_
  cases List.eq_nil_or_concat xs with
  | inl same =>
    subst same
    simp [lastTag, Tag.used]
  | inr found =>
    obtain ⟨front, a, rfl⟩ := found
    cases ys with
    | nil => simp [firstTag, Tag.used]
    | cons c behind => simp [lastTag, firstTag, ChainBlock.isFree_eq_false]

theorem spaced_singleton : Spaced [b] := .singleton b

/-- The blocks around a block, in their order. -/
theorem around_sublist : (xs ++ ys).Sublist (xs ++ b :: ys) :=
  (List.sublist_cons_self b ys).append_left xs

theorem spaced_cons : Spaced (b :: ys) ↔
    Spaced ys ∧ (b.tag.allocated = true ∨ (firstTag ys).allocated = true) := by
  rw [← List.singleton_append, spaced_append]
  exact and_iff_right spaced_singleton

/-- Blocks whose sizes are multiples of the alignment keep what follows them aligned. -/
theorem Tiles.aligned {first stop : Nat} (tiles : Tiles first xs stop)
    (legal : ∀ b ∈ xs, b.Legal) (start : first % 16 = 0) : stop % 16 = 0 := by
  induction xs generalizing first with
  | nil => exact Eq.subst (motive := fun n => n % 16 = 0) tiles start
  | cons b rest ih =>
    obtain ⟨rfl, rest⟩ := tiles
    have whole := (legal b List.mem_cons_self).size.1
    simp only [Block.alignment] at whole
    exact ih rest (fun c member => legal c (List.mem_cons_of_mem b member))
      (by simp only [ChainBlock.stop]; omega)

theorem Tiles.singleton {first : Nat} {tag : Tag} :
    Tiles first [⟨first, tag⟩] (first + tag.size) := ⟨rfl, rfl⟩

namespace Region

variable {r r' : Region} {nodes front behind chain : List ChainBlock} {c : ChainBlock}
  {touched : Nat → Prop} {first stop size : Nat}

/-- A block of a tiling that does not count leaves a gap. -/
theorem Gap.of_tiles (fenced : r.memory.Fenced) (holds : r.Holds (front ++ behind) nodes)
    (tiles : Tiles 32 (front ++ b :: behind) r.memory.size) (legal : b.Legal)
    (spacedFront : Spaced front) (spacedBehind : Spaced behind)
    (listed : nodes.Perm ((front ++ behind).filter ChainBlock.isFree)) :
    r.Gap front b.bp b.stop behind nodes := by
  obtain ⟨middle, lead, rfl, trail⟩ := Tiles.append_iff.mp tiles
  exact
    { fenced, holds, lead, trail, spacedFront, spacedBehind, listed
      ordered := Nat.le_add_right ..
      firstAligned := legal.aligned
      stopAligned := legal.stop_aligned }

namespace Settled

theorem bounded (settled : r.Settled chain nodes) : r.memory.size < wordLimit :=
  settled.fenced.bounded

theorem mem_nodes (settled : r.Settled chain nodes) :
    b ∈ nodes ↔ b ∈ chain ∧ b.isFree = true := by
  rw [settled.listed.mem_iff, List.mem_filter]

/-- The blocks of a chain start at different offsets. -/
theorem different (settled : r.Settled chain nodes) : (chain.map (·.bp)).Nodup :=
  settled.tiles.different settled.holds.legal

theorem nodup (settled : r.Settled chain nodes) : chain.Nodup :=
  List.Nodup.of_map _ settled.different

theorem eq_of_bp (settled : r.Settled chain nodes) (bMem : b ∈ chain) (cMem : c ∈ chain)
    (same : b.bp = c.bp) : b = c :=
  List.inj_on_of_nodup_map settled.different bMem cMem same

/-- An allocated block leaves a gap. -/
theorem gap (settled : r.Settled (front ++ b :: behind) nodes) (allocated : b.isFree = false) :
    r.Gap front b.bp b.stop behind nodes := by
  obtain ⟨spacedFront, spacedBehind, -⟩ := spaced_append.mp settled.spaced
  have listed : nodes.Perm ((front ++ behind).filter ChainBlock.isFree) := by
    simpa [List.filter_append, allocated] using settled.listed
  have holds : r.Holds (front ++ behind) nodes :=
    settled.holds.subset around_sublist.subset fun c member =>
      (List.mem_filter.mp (listed.mem_iff.mp member)).1
  exact .of_tiles settled.fenced holds settled.tiles (settled.holds.legal b (by simp)) spacedFront
    (spaced_cons.mp spacedBehind).1 listed

end Settled

namespace Gap

theorem bounded (gap : r.Gap front first stop behind nodes) : r.memory.size < wordLimit :=
  gap.fenced.bounded

theorem first_ge (gap : r.Gap front first stop behind nodes) : 32 ≤ first := gap.lead.le

theorem stop_le (gap : r.Gap front first stop behind nodes) : stop ≤ r.memory.size := gap.trail.le

/-- A block in the gap is apart from those around it. -/
theorem apart (gap : r.Gap front first stop behind nodes) (above : first ≤ b.bp)
    (below : b.stop ≤ stop) : ∀ c ∈ front ++ behind, b.Apart c := by
  intro c member
  cases List.mem_append.mp member with
  | inl front =>
    exact .inr (Nat.le_trans (gap.lead.within front).2 above)
  | inr behind =>
    exact .inl (Nat.le_trans below (gap.trail.within behind).1)

/-- No link lies in the gap. -/
theorem not_link (gap : r.Gap front first stop behind nodes) {i : Nat} (above : first ≤ i + 8)
    (below : i + 8 < stop) : ¬ HasLinkOf nodes i := by
  rintro ⟨c, member, linked⟩
  have known := (gap.holds.members c member).1
  have covered := linked.covers (gap.holds.legal c known).large
  simp only [ChainBlock.Covers] at covered
  cases List.mem_append.mp known with
  | inl front =>
    have := (gap.lead.within front).2
    omega
  | inr behind =>
    have := (gap.trail.within behind).1
    omega

/-- In front of the gap is the last block before it, or else the prologue. -/
theorem precedingTag (gap : r.Gap front first stop behind nodes) :
    r.memory.precedingTag first = .ok (lastTag front) := by
  have above := gap.first_ge
  have found : r.memory.precedingTag first = r.memory.readTag (first - 16) := by
    rw [Memory.precedingTag, Checked.sub_eq_ok (by simp only [Block.overhead]; omega)]
    rfl
  rw [found]
  cases List.eq_nil_or_concat front with
  | inl same =>
    subst same
    obtain rfl : 32 = first := gap.lead
    exact gap.fenced.prologueFooter
  | inr found =>
    obtain ⟨before, a, rfl⟩ := found
    rw [List.concat_eq_append] at gap ⊢
    obtain rfl := gap.lead.stop_eq
    rw [lastTag_append_singleton]
    exact (gap.holds.tagged a (by simp)).footer

/-- Behind the gap is the first block after it, or else the epilogue. -/
theorem header_stop (gap : r.Gap front first stop behind nodes) :
    r.memory.header stop = .ok (firstTag behind) := by
  cases behind with
  | nil =>
    obtain rfl : stop = r.memory.size := gap.trail
    exact gap.fenced.epilogue
  | cons c rest =>
    obtain ⟨rfl, -⟩ := gap.trail
    exact (gap.holds.tagged c (by simp)).header

/-- A gap with nothing left in it is none. -/
theorem close (gap : r.Gap front first first behind nodes)
    (meet : (lastTag front).allocated = true ∨ (firstTag behind).allocated = true) :
    r.Settled (front ++ behind) nodes where
  fenced := gap.fenced
  holds := gap.holds
  tiles := Tiles.append_iff.mpr ⟨first, gap.lead, gap.trail⟩
  spaced := spaced_append.mpr ⟨gap.spacedFront, gap.spacedBehind, meet⟩
  listed := gap.listed

/-- The gap survives writes into it. -/
theorem frame (gap : r.Gap front first stop behind nodes) (list : r'.freeList = r.freeList)
    (changed : r.memory.ChangedOnly r'.memory touched)
    (inside : ∀ i, touched i → first ≤ i + 8 ∧ i + 8 < stop) :
    r'.Gap front first stop behind nodes where
  fenced := gap.fenced.frame changed fun i here => by
    have := inside i here
    have := gap.first_ge
    have := gap.stop_le
    omega
  holds := by
    refine gap.holds.frame list changed (fun c member i tag here => ?_) fun i linked here => ?_
    · have covered := tag.covers (gap.holds.legal c member).large
      have := inside i here
      simp only [ChainBlock.Covers] at covered
      cases List.mem_append.mp member with
      | inl front =>
        have := (gap.lead.within front).2
        omega
      | inr behind =>
        have := (gap.trail.within behind).1
        omega
    · exact gap.not_link (inside i here).1 (inside i here).2 linked
  lead := gap.lead
  trail := changed.size ▸ gap.trail
  ordered := gap.ordered
  firstAligned := gap.firstAligned
  stopAligned := gap.stopAligned
  spacedFront := gap.spacedFront
  spacedBehind := gap.spacedBehind
  listed := gap.listed

/-- Tagging the start of the gap makes a block of it. -/
theorem mark_ensures (gap : r.Gap front first stop behind nodes) (tag : Tag)
    (legal : Block.LegalSize tag.size) (fits : first + tag.size ≤ stop) :
    (mark first tag).Ensures r Action.Total fun _ r' =>
      r'.freeList = r.freeList ∧ r'.memory.Fenced ∧
        r'.Holds (⟨first, tag⟩ :: (front ++ behind)) nodes ∧
        r.memory.ChangedOnly r'.memory (ChainBlock.HasTag ⟨first, tag⟩) := by
  have above := gap.first_ge
  have below := gap.stop_le
  have large := legal.2
  refine (gap.holds.mark_ensures (b := ⟨first, tag⟩) gap.bounded ⟨gap.firstAligned, legal⟩
    ⟨above, Nat.le_trans fits below⟩ (gap.apart (Nat.le_refl first) fits)).imp ?_
  rintro _ r' ⟨list, holds, changed⟩
  refine ⟨list, gap.fenced.frame changed fun i tagged => ?_, holds, changed⟩
  have covered := tagged.covers large
  simp only [ChainBlock.Covers, ChainBlock.stop] at covered
  omega

/-- What a gap is like with a block at its start, but for the blocks it then holds. -/
private theorem shorten (gap : r.Gap front first stop behind nodes) {tag : Tag}
    (legal : Block.LegalSize tag.size) (fits : first + tag.size ≤ stop)
    (meet : (lastTag front).allocated = true ∨ tag.allocated = true)
    {nodes' : List ChainBlock} (size : r'.memory.size = r.memory.size) (fenced : r'.memory.Fenced)
    (holds : r'.Holds (⟨first, tag⟩ :: (front ++ behind)) nodes')
    (listed : nodes'.Perm
      ((front ++ [(⟨first, tag⟩ : ChainBlock)] ++ behind).filter ChainBlock.isFree)) :
    r'.Gap (front ++ [⟨first, tag⟩]) (first + tag.size) stop behind nodes' where
  fenced := fenced
  holds := by
    refine holds.subset (fun c member => ?_) fun c member =>
      (List.mem_filter.mp (listed.mem_iff.mp member)).1
    simp only [List.mem_append, List.mem_cons, List.not_mem_nil] at member ⊢
    tauto
  lead := Tiles.append_iff.mpr ⟨first, gap.lead, .singleton⟩
  trail := size ▸ gap.trail
  ordered := fits
  firstAligned := by
    have := gap.firstAligned
    have := legal.1
    simp only [Block.alignment] at this
    omega
  stopAligned := gap.stopAligned
  spacedFront := spaced_append.mpr ⟨gap.spacedFront, spaced_singleton, meet⟩
  spacedBehind := gap.spacedBehind
  listed := listed

/-- Putting an allocated block into the gap. -/
theorem take_ensures (gap : r.Gap front first stop behind nodes) (legal : Block.LegalSize size)
    (fits : first + size ≤ stop) :
    (mark first (Tag.used size)).Ensures r Action.Total fun _ r' =>
      r'.Gap (front ++ [⟨first, Tag.used size⟩]) (first + size) stop behind nodes ∧
        r.memory.ChangedOnly r'.memory (ChainBlock.HasTag ⟨first, Tag.used size⟩) := by
  apply (gap.mark_ensures (Tag.used size) legal fits).imp
  rintro _ r' ⟨-, fenced, holds, changed⟩
  refine ⟨gap.shorten legal fits (.inr rfl) changed.size fenced holds ?_, changed⟩
  simpa [List.filter_append, ChainBlock.isFree, Tag.used] using gap.listed

/-- Tagging the whole gap without taking note of the block. -/
theorem stamp_ensures (gap : r.Gap front first stop behind nodes) (tag : Tag)
    (whole : first + tag.size = stop) (large : 32 ≤ tag.size) :
    (mark first tag).Ensures r Action.Total fun _ r' =>
      r'.Gap front first stop behind nodes ∧ r'.memory.header first = .ok tag ∧
        r.memory.ChangedOnly r'.memory (ChainBlock.HasTag ⟨first, tag⟩) := by
  have starts := gap.firstAligned
  have ends := gap.stopAligned
  have legal : Block.LegalSize tag.size := by
    simp only [Block.LegalSize, Block.alignment, Block.minSize]
    omega
  apply (gap.mark_ensures tag legal (Nat.le_of_eq whole)).imp
  rintro _ r' ⟨list, -, holds, changed⟩
  refine ⟨gap.frame list changed fun i tagged => ?_,
    (holds.tagged ⟨first, tag⟩ List.mem_cons_self).header, changed⟩
  have covered := tagged.covers large
  simp only [ChainBlock.Covers, ChainBlock.stop, whole] at covered
  exact covered

/-- Putting a free block into the gap and on the list. -/
theorem offer_ensures {α : Type} {next : Action Region α} {post : α → Region → Prop}
    (gap : r.Gap front first stop behind nodes) (legal : Block.LegalSize size)
    (fits : first + size ≤ stop) (lone : (lastTag front).allocated = true)
    (rest : ∀ r', r'.Gap (front ++ [⟨first, Tag.free size⟩]) (first + size) stop behind
        (FreeList.enter ⟨first, Tag.free size⟩ nodes) →
      r.memory.ChangedOnly r'.memory (fun i => ChainBlock.HasTag ⟨first, Tag.free size⟩ i ∨
        HasLinkOf (FreeList.enter ⟨first, Tag.free size⟩ nodes) i) →
      next.Ensures r' Action.Total post) :
    (do mark first (Tag.free size); link first; next).Ensures r Action.Total post := by
  have unlisted : (⟨first, Tag.free size⟩ : ChainBlock) ∉ nodes := fun listed =>
    (gap.apart (b := ⟨first, Tag.free size⟩) (Nat.le_refl first) fits _
      (gap.holds.members _ listed).1).ne legal.2 rfl
  apply (gap.mark_ensures (Tag.free size) legal fits).bind
  rintro _ r₁ ⟨-, fenced, holds, marked⟩
  refine (holds.link_ensures (marked.size ▸ gap.bounded) (b := ⟨first, Tag.free size⟩)
    List.mem_cons_self rfl unlisted).bind ?_
  rintro _ r₂ ⟨holds₂, linked⟩
  refine rest r₂ (gap.shorten legal fits (.inl lone) (linked.size.trans marked.size)
    (holds₂.fenced fenced linked) holds₂ ?_) (marked.trans linked)
  refine FreeList.enter_perm.trans ((gap.listed.cons _).trans ?_)
  simp only [List.filter_append, List.append_assoc, List.filter_singleton]
  exact List.perm_middle.symm

end Gap

/-! ## Taking free blocks out -/

/-- A free block is on the list, and without it the list holds the other free blocks. -/
theorem erase_listed (listed : nodes.Perm ((xs ++ b :: ys).filter ChainBlock.isFree))
    (free : b.isFree = true) :
    b ∈ nodes ∧ (nodes.erase b).Perm ((xs ++ ys).filter ChainBlock.isFree) := by
  have first : nodes.Perm (b :: (xs ++ ys).filter ChainBlock.isFree) := by
    apply listed.trans
    rw [List.filter_append, List.filter_cons_of_pos free, List.filter_append]
    exact List.perm_middle
  refine ⟨first.mem_iff.mpr List.mem_cons_self, ?_⟩
  have erased := first.erase b
  rwa [List.erase_cons_head] at erased

/-- Unlinking a free block and forgetting that it is one. -/
theorem detach_ensures (fenced : r.memory.Fenced) (holds : r.Holds (xs ++ b :: ys) nodes)
    (listed : nodes.Perm ((xs ++ b :: ys).filter ChainBlock.isFree)) (free : b.isFree = true) :
    (unlink b.bp).Ensures r Action.Total fun _ r' =>
      r'.memory.Fenced ∧ r'.Holds (xs ++ ys) (nodes.erase b) ∧ r'.memory.header b.bp = .ok b.tag ∧
        r.memory.ChangedOnly r'.memory (HasLinkOf (nodes.erase b)) := by
  obtain ⟨member, others⟩ := erase_listed listed free
  apply (holds.unlink_ensures fenced.bounded member).imp
  rintro _ r' ⟨holds', changed⟩
  have holds'' : r'.Holds (xs ++ ys) (nodes.erase b) :=
    holds'.subset around_sublist.subset fun c cMem =>
      (List.mem_filter.mp (others.mem_iff.mp cMem)).1
  exact ⟨holds'.fenced fenced changed, holds'', (holds'.tagged b (by simp)).header, changed⟩

/-- A free block that is taken off the list leaves a gap between allocated neighbours. -/
theorem Settled.detach_ensures (settled : r.Settled (front ++ b :: behind) nodes)
    (free : b.isFree = true) :
    (unlink b.bp).Ensures r Action.Total fun _ r' =>
      r'.Gap front b.bp b.stop behind (nodes.erase b) ∧ r'.memory.header b.bp = .ok b.tag ∧
        (lastTag front).allocated = true ∧ (firstTag behind).allocated = true ∧
        r.memory.ChangedOnly r'.memory (HasLinkOf (nodes.erase b)) := by
  obtain ⟨spacedFront, spaced, meetFront⟩ := spaced_append.mp settled.spaced
  obtain ⟨spacedBehind, meetBehind⟩ := spaced_cons.mp spaced
  have offered : b.tag.allocated = false := ChainBlock.isFree_iff.mp free
  apply (Region.detach_ensures settled.fenced settled.holds settled.listed free).imp
  rintro _ r' ⟨fenced, holds, header, changed⟩
  refine ⟨?_, header, by simpa [offered] using meetFront,
    by simpa [offered] using meetBehind, changed⟩
  exact .of_tiles fenced holds (changed.size ▸ settled.tiles) (settled.holds.legal b (by simp))
    spacedFront spacedBehind (erase_listed settled.listed free).2

namespace Gap

/-- A free block in front of the gap becomes part of it. -/
theorem absorb_end_ensures {a : ChainBlock} (gap : r.Gap (front ++ [a]) first stop behind nodes)
    (free : a.isFree = true) :
    (unlink a.bp).Ensures r Action.Total fun _ r' =>
      r'.Gap front a.bp stop behind (nodes.erase a) ∧ r'.memory.header a.bp = .ok a.tag ∧
        (lastTag front).allocated = true ∧
        r.memory.ChangedOnly r'.memory (HasLinkOf (nodes.erase a)) := by
  obtain ⟨middle, lead, rfl, ends⟩ := Tiles.append_iff.mp gap.lead
  obtain rfl : a.stop = first := ends
  obtain ⟨spacedFront, -, meet⟩ := spaced_append.mp gap.spacedFront
  have offered : a.tag.allocated = false := ChainBlock.isFree_iff.mp free
  have same : front ++ [a] ++ behind = front ++ a :: behind := by simp
  apply (detach_ensures gap.fenced (same ▸ gap.holds) (same ▸ gap.listed) free).imp
  rintro _ r' ⟨fenced, holds, header, changed⟩
  refine ⟨?_, header, by simpa [offered] using meet, changed⟩
  exact
    { fenced, holds, lead, spacedFront
      trail := changed.size ▸ gap.trail
      ordered := Nat.le_trans (Nat.le_add_right ..) gap.ordered
      firstAligned := (gap.holds.legal a (by simp)).aligned
      stopAligned := gap.stopAligned
      spacedBehind := gap.spacedBehind
      listed := (erase_listed (same ▸ gap.listed) free).2 }

/-- A free block behind the gap becomes part of it. -/
theorem absorb_start_ensures (gap : r.Gap front first stop (c :: behind) nodes)
    (free : c.isFree = true) :
    (unlink c.bp).Ensures r Action.Total fun _ r' =>
      r'.Gap front first c.stop behind (nodes.erase c) ∧ r'.memory.header c.bp = .ok c.tag ∧
        (firstTag behind).allocated = true ∧
        r.memory.ChangedOnly r'.memory (HasLinkOf (nodes.erase c)) := by
  obtain ⟨rfl, trail⟩ := gap.trail
  obtain ⟨spacedBehind, meet⟩ := spaced_cons.mp gap.spacedBehind
  have offered : c.tag.allocated = false := ChainBlock.isFree_iff.mp free
  apply (detach_ensures gap.fenced gap.holds gap.listed free).imp
  rintro _ r' ⟨fenced, holds, header, changed⟩
  refine ⟨?_, header, by simpa [offered] using meet, changed⟩
  exact
    { fenced, holds, spacedBehind
      lead := gap.lead
      trail := changed.size ▸ trail
      ordered := Nat.le_trans gap.ordered (Nat.le_add_right ..)
      firstAligned := gap.firstAligned
      stopAligned := (gap.holds.legal c (by simp)).stop_aligned
      spacedFront := gap.spacedFront
      listed := (erase_listed gap.listed free).2 }

end Gap

end Region

end BoundaryHeap
