import BoundaryHeap.Proofs.Computation
import BoundaryHeap.Proofs.History

/-!
What the test of a pointer comes to, and what a heap does with a pointer that fails it. Only the
header in front of the pointer and the footer that it leads to count. A pointer that fails the test
is counted and recorded, and nothing else happens.
-/

namespace BoundaryHeap

namespace Memory

variable {m : Memory} {ptr : Nat} {tag : Tag}

/-- A header `tag` in front of `ptr` is not refused: an allocated block with the same footer starts
there, or its end does not fit in 64 bits. -/
def Passes (m : Memory) (ptr : Nat) (tag : Tag) : Prop :=
  Block.LegalSize tag.size ∧ (wordLimit ≤ ptr + tag.size ∨
    ptr + tag.size ≤ m.size ∧ m.readTag (ptr + tag.size - 16) = .ok tag ∧ tag.allocated = true)

/-- A pointer that may be that of a block, as far as its place goes. -/
structure Placed (m : Memory) (ptr : Nat) : Prop where
  above : 32 ≤ ptr
  inside : ptr + 8 ≤ m.size
  aligned : ptr % 16 = 0

/-- One of the two sums in the test of a pointer leaves 64 bits: the end of the word at the pointer,
or the end of the block that the header in front of it tells of. -/
inductive Overruns (m : Memory) (ptr : Nat) : Prop
  | word (far : wordLimit ≤ ptr + 8) : Overruns m ptr
  | block {tag : Tag} (placed : m.Placed ptr) (header : m.header ptr = .ok tag)
    (legal : Block.LegalSize tag.size) (far : wordLimit ≤ ptr + tag.size) : Overruns m ptr

/-- How the test of `ptr` comes out. -/
inductive Tested (m : Memory) (ptr : Nat) : Except Fault (Except Violation Tag) → Prop
  | overflows (overruns : m.Overruns ptr) : Tested m ptr (.error .overflow)
  | misplaced {violation : Violation} (near : ptr + 8 < wordLimit) (place : ¬ m.Placed ptr) :
    Tested m ptr (.ok (.error violation))
  | refused {violation : Violation} {tag : Tag} (placed : m.Placed ptr)
    (header : m.header ptr = .ok tag) (fails : ¬ m.Passes ptr tag) :
    Tested m ptr (.ok (.error violation))
  | live {tag : Tag} (placed : m.Placed ptr) (header : m.header ptr = .ok tag)
    (passes : m.Passes ptr tag) (fits : ptr + tag.size < wordLimit) : Tested m ptr (.ok (.ok tag))

theorem exists_readTag {offset : Nat} (inside : offset + 8 ≤ m.size) :
    ∃ tag, m.readTag offset = .ok tag := by
  rw [readTag, readWord, if_pos inside]
  exact ⟨_, rfl⟩

theorem Placed.exists_header (placed : m.Placed ptr) : ∃ tag, m.header ptr = .ok tag := by
  have above := placed.above
  have inside := placed.inside
  rw [header_eq_readTag (by omega)]
  exact exists_readTag (by omega)

/-- A block of a well-formed heap is in its place, and stays so if the memory grows. -/
theorem WellFormed.placed {m' : Memory} {l : FreeList} {chain nodes : List ChainBlock}
    {b : ChainBlock} (formed : m.WellFormed 16 l chain nodes) (member : b ∈ chain)
    (larger : m.size ≤ m'.size) : m'.Placed b.bp := by
  have legal := formed.legal b member
  have large := legal.large
  obtain ⟨above, ends⟩ := formed.tiles.within member
  rw [ChainBlock.stop] at ends
  exact ⟨above, by omega, legal.aligned⟩

/-- The test of a pointer goes through its guards one by one: the place of the pointer, then the
size in the header in front of it, then the footer that this size leads to. -/
theorem liveBlock_tested (m : Memory) (ptr : Nat) :
    m.Tested ptr (m.liveBlock 16 ptr) := by
  unfold liveBlock
  rw [Fault.bind_of_ok (Checked.add_eq_ok (by decide))]
  by_cases above : ptr < 16 + Block.prologueSize
  · rw [if_pos above]
    have short : 40 < wordLimit := by decide
    simp only [Block.prologueSize] at above
    exact .misplaced (by omega) fun placed => Nat.not_lt.mpr placed.above above
  rw [if_neg above]
  by_cases word : ptr + Block.wordSize < wordLimit
  swap
  · have overflow : Checked.add ptr Block.wordSize = .error .overflow := if_neg word
    rw [overflow]
    exact .overflows (.word (Nat.le_of_not_lt word))
  rw [Fault.bind_of_ok (Checked.add_eq_ok word)]
  by_cases inside : m.size < ptr + Block.wordSize
  · rw [if_pos inside]
    exact .misplaced word fun placed => Nat.not_lt.mpr placed.inside inside
  rw [if_neg inside]
  by_cases aligned : ptr % Block.alignment ≠ 0
  · rw [if_pos aligned]
    exact .misplaced word fun placed => aligned placed.aligned
  rw [if_neg aligned]
  have placed : m.Placed ptr :=
    ⟨Nat.le_of_not_lt above, Nat.le_of_not_lt inside, not_not.mp aligned⟩
  obtain ⟨tag, header⟩ := placed.exists_header
  rw [Fault.bind_of_ok header]
  by_cases legal : Block.LegalSize tag.size
  swap
  · rw [if_pos legal]
    exact .refused placed header fun passes => legal passes.1
  have large : 32 ≤ tag.size := legal.2
  rw [if_neg (not_not.mpr legal)]
  by_cases fits : ptr + tag.size < wordLimit
  swap
  · have overflow : Checked.add ptr tag.size = .error .overflow := if_neg fits
    rw [overflow]
    exact .overflows (.block placed header legal (Nat.le_of_not_lt fits))
  rw [Fault.bind_of_ok (Checked.add_eq_ok fits)]
  have near : ¬ wordLimit ≤ ptr + tag.size := Nat.not_le.mpr fits
  by_cases ends : m.size < ptr + tag.size
  · rw [if_pos ends]
    refine .refused placed header fun passes => ?_
    exact Nat.not_le.mpr ends (passes.2.resolve_left near).1
  rw [if_neg ends]
  have within : ptr + tag.size ≤ m.size := Nat.le_of_not_lt ends
  obtain ⟨foot, footer⟩ : ∃ foot, m.readTag (ptr + tag.size - 16) = .ok foot :=
    exists_readTag (by omega)
  rw [Fault.bind_of_ok (Block.footerOffset_eq_ok fits (by omega)), Fault.bind_of_ok footer]
  by_cases same : foot = tag
  swap
  · rw [if_pos same]
    refine .refused placed header fun passes => same ?_
    exact Except.ok.inj (footer.symm.trans (passes.2.resolve_left near).2.1)
  rw [if_neg (not_not.mpr same)]
  by_cases allocated : tag.allocated = true
  swap
  · rw [if_pos allocated]
    exact .refused placed header fun passes => allocated (passes.2.resolve_left near).2.2
  rw [if_neg (not_not.mpr allocated)]
  exact .live placed header ⟨legal, .inr ⟨within, same ▸ footer, allocated⟩⟩ fits

/-- A block that passes the test ends in the memory, wherever the prologue is. -/
theorem liveBlock_inside {prologue : Nat} (live : m.liveBlock prologue ptr = .ok (.ok tag)) :
    ptr + tag.size ≤ m.size := by
  unfold liveBlock at live
  obtain ⟨first, -, live⟩ := Fault.bind_eq_ok.mp live
  split at live
  · cases live
  obtain ⟨word, -, live⟩ := Fault.bind_eq_ok.mp live
  split at live
  · cases live
  split at live
  · cases live
  obtain ⟨head, -, live⟩ := Fault.bind_eq_ok.mp live
  split at live
  · cases live
  obtain ⟨stop, ends, live⟩ := Fault.bind_eq_ok.mp live
  split at live
  · cases live
  next within =>
    obtain rfl := Checked.eq_add_of_ok ends
    obtain ⟨footer, -, live⟩ := Fault.bind_eq_ok.mp live
    obtain ⟨foot, -, live⟩ := Fault.bind_eq_ok.mp live
    split at live
    · cases live
    split at live
    · cases live
    cases live
    exact Nat.le_of_not_lt within

theorem Overruns.ne_zero (overruns : m.Overruns ptr) : ptr ≠ 0 := by
  rintro rfl
  cases overruns with
  | word far => exact absurd far (by decide)
  | block placed => exact absurd placed.above (by decide)

/-- A pointer that is not at the end of 64 bits overruns only in its place. -/
theorem Overruns.placed (overruns : m.Overruns ptr) (near : ptr + 8 < wordLimit) :
    m.Placed ptr := by
  cases overruns with
  | word far => exact absurd near (Nat.not_lt.mpr far)
  | block placed => exact placed

/-- A pointer in its place overruns by the header in front of it. -/
theorem Overruns.header_far (overruns : m.Overruns ptr) (placed : m.Placed ptr)
    (bounded : m.size < wordLimit) (header : m.header ptr = .ok tag) :
    Block.LegalSize tag.size ∧ wordLimit ≤ ptr + tag.size := by
  cases overruns with
  | word far =>
    have inside := placed.inside
    omega
  | block _ found legal far =>
    cases header.symm.trans found
    exact ⟨legal, far⟩

/-- The test of a pointer meets no fault but a sum beyond 64 bits, and meets that exactly where one
of its two sums leaves 64 bits. -/
theorem liveBlock_eq_error_iff (bounded : m.size < wordLimit) {fault : Fault} :
    m.liveBlock 16 ptr = .error fault ↔ fault = .overflow ∧ m.Overruns ptr := by
  have tested := liveBlock_tested m ptr
  constructor
  · intro met
    rw [met] at tested
    cases tested with
    | overflows overruns => exact ⟨rfl, overruns⟩
  · rintro ⟨rfl, overruns⟩
    generalize m.liveBlock 16 ptr = outcome at tested
    cases tested with
    | overflows => rfl
    | misplaced near place => exact absurd (overruns.placed near) place
    | refused placed header fails =>
      obtain ⟨legal, far⟩ := overruns.header_far placed bounded header
      exact absurd ⟨legal, .inl far⟩ fails
    | live placed header passes fits =>
      obtain ⟨-, far⟩ := overruns.header_far placed bounded header
      exact absurd fits (Nat.not_lt.mpr far)

/-- A pointer out of place is refused, unless it is so close to the end of 64 bits that the test
itself overruns. -/
theorem liveBlock_misplaced (near : ptr + 8 < wordLimit) (place : ¬ m.Placed ptr) :
    ∃ violation, m.liveBlock 16 ptr = .ok (.error violation) := by
  have tested := liveBlock_tested m ptr
  generalize m.liveBlock 16 ptr = outcome at tested
  cases tested with
  | overflows overruns => exact absurd (overruns.placed near) place
  | misplaced => exact ⟨_, rfl⟩
  | refused => exact ⟨_, rfl⟩
  | live placed => exact absurd placed place

/-- An aligned pointer inside the memory is refused unless its header passes. -/
theorem liveBlock_refuses_iff (above : 32 ≤ ptr) (inside : ptr + 8 ≤ m.size)
    (bounded : m.size < wordLimit) (aligned : ptr % 16 = 0) (header : m.header ptr = .ok tag) :
    (∃ violation, m.liveBlock 16 ptr = .ok (.error violation)) ↔ ¬ m.Passes ptr tag := by
  have place : m.Placed ptr := ⟨above, inside, aligned⟩
  have tested := liveBlock_tested m ptr
  constructor
  · rintro ⟨violation, refused⟩
    rw [refused] at tested
    cases tested with
    | misplaced _ elsewhere => exact absurd place elsewhere
    | refused _ found fails =>
      cases header.symm.trans found
      exact fails
  · intro fails
    generalize m.liveBlock 16 ptr = outcome at tested
    cases tested with
    | overflows overruns =>
      obtain ⟨legal, far⟩ := overruns.header_far place bounded header
      exact absurd ⟨legal, .inl far⟩ fails
    | misplaced => exact ⟨_, rfl⟩
    | refused => exact ⟨_, rfl⟩
    | live _ found passes =>
      cases header.symm.trans found
      exact absurd passes fails

/-- The header of a free block does not pass. -/
theorem not_passes_free {rest : Nat} (fits : ptr + rest < wordLimit) :
    ¬ m.Passes ptr (Tag.free rest) := by
  rintro ⟨-, overflows | ⟨-, -, allocated⟩⟩
  · exact absurd fits (Nat.not_lt.mpr overflows)
  · cases allocated

end Memory

namespace Heap

variable {h h' : Heap LimitedArena} {chain nodes : List ChainBlock} {ptr : Nat}

/-- What is usable at a pointer lies in the memory, whatever state the heap is in. -/
theorem usable_inside {length : Nat} (usable : h.usableSize ptr = .ok (some length)) :
    ptr + length ≤ h.memory.size := by
  unfold usableSize at usable
  split at usable
  · obtain ⟨outcome, known, usable⟩ := Fault.bind_eq_ok.mp usable
    cases outcome with
    | error violation => cases usable
    | ok tag =>
      have within := Memory.liveBlock_inside known
      obtain ⟨capacity, payload, same⟩ := Fault.bind_eq_ok.mp usable
      cases same
      obtain ⟨-, rfl⟩ := Checked.eq_sub_of_ok payload
      omega
  · cases usable

/-- The heap with one more refused pointer. -/
def pointerRefused (h : Heap LimitedArena) : Heap LimitedArena :=
  { h with counters := { h.counters with invalidPointers := h.counters.invalidPointers + 1 } }

theorem Agrees.pointerRefused_laid (agrees : Agrees h.pointerRefused h')
    (laid : h.Laid chain nodes) : h'.Laid chain nodes := by
  obtain ⟨_, _, rfl⟩ := agrees
  exact ⟨laid.settled, laid.prologue, laid.initialized⟩

/-- The heap takes `ptr` for the pointer of no block: there is nothing to use at it, and a release
or a resize of it does no more than count and record that. -/
structure Rejects (h : Heap LimitedArena) (ptr : Nat) : Prop where
  unusable : h.usableSize ptr = .ok none
  release : ∃ h', (Heap.release ptr).run h = .ok () h' ∧ Agrees h.pointerRefused h'
  resize : ∀ request, ∃ h', (Heap.resize ptr request).run h = .ok none h' ∧
    Agrees h.pointerRefused h'

section Refused

variable {violation : Violation} {symbol : String}

/-- A pointer that fails the test is counted and recorded. -/
theorem readyFor_refuses (laid : h.Laid chain nodes) (tests : h.config.check.testsPointers = true)
    (refused : h.memory.liveBlock h.prologue ptr = .ok (.error violation)) :
    (readyFor symbol ptr).Ensures h Action.Total fun answer h' =>
      answer = false ∧ Agrees h.pointerRefused h' := by
  unfold readyFor
  apply ready_ensures laid
  rw [if_pos rfl, accepts]
  apply view_ensures tests
  rw [if_pos rfl]
  refine .ask refused (count_ensures (record_ensures fun h' agrees => ?_))
  exact .pure ⟨rfl, agrees⟩

theorem releaseAs_refuses (laid : h.Laid chain nodes) (tests : h.config.check.testsPointers = true)
    (refused : h.memory.liveBlock h.prologue ptr = .ok (.error violation)) (some : ptr ≠ 0) :
    (releaseAs symbol ptr).Ensures h Action.Total fun _ h' => Agrees h.pointerRefused h' := by
  rw [releaseAs, if_neg some]
  apply (readyFor_refuses laid tests refused).bind
  rintro _ h' ⟨rfl, agrees⟩
  exact .pure agrees

theorem resizeAs_refuses (laid : h.Laid chain nodes) (tests : h.config.check.testsPointers = true)
    (refused : h.memory.liveBlock h.prologue ptr = .ok (.error violation)) (some : ptr ≠ 0)
    (request : Nat) :
    (resizeAs symbol ptr request).Ensures h Action.Total fun answer h' =>
      answer = none ∧ Agrees h.pointerRefused h' := by
  rw [resizeAs, if_neg some]
  by_cases nothing : request = 0
  · rw [if_pos nothing]
    apply (releaseAs_refuses laid tests refused some).bind
    exact fun _ h' agrees => .pure ⟨rfl, agrees⟩
  · rw [if_neg nothing]
    apply (readyFor_refuses laid tests refused).bind
    rintro _ h' ⟨rfl, agrees⟩
    exact .pure ⟨rfl, agrees⟩

end Refused

/-- A pointer of no block is rejected exactly if it fails the test. -/
theorem Laid.rejects_iff (laid : h.Laid chain nodes) (tests : h.config.check.testsPointers = true)
    (some : ptr ≠ 0) :
    h.Rejects ptr ↔ ∃ violation, h.memory.liveBlock h.prologue ptr = .ok (.error violation) := by
  constructor
  · intro rejects
    have unusable := rejects.unusable
    rw [usableSize, if_pos laid.initialized] at unusable
    obtain ⟨outcome, tested, rest⟩ := Fault.bind_eq_ok.mp unusable
    cases outcome with
    | error violation => exact ⟨violation, tested⟩
    | ok tag =>
      obtain ⟨_, -, rest⟩ := Fault.bind_eq_ok.mp rest
      cases rest
  · rintro ⟨violation, refused⟩
    refine ⟨?_, ?_, fun request => ?_⟩
    · rw [usableSize, if_pos laid.initialized, Fault.bind_of_ok refused]
      rfl
    · have released : (Heap.release ptr).Ensures h Action.Total fun _ h' =>
          Agrees h.pointerRefused h' := by
        refine (releaseAs_refuses laid tests refused some).bind fun _ h₁ agrees => ?_
        have clean := (agrees.pointerRefused_laid laid).check_eq
        exact (afterwards_ensures clean "release").imp fun _ _ same => same ▸ agrees
      obtain ⟨_, h', ran, agrees⟩ := released.exists_run
      exact ⟨h', ran, agrees⟩
    · have resized : (Heap.resize ptr request).Ensures h Action.Total fun answer h' =>
          answer = none ∧ Agrees h.pointerRefused h' :=
        scanned_ensures (resizeAs_refuses laid tests refused some request)
          (fun _ _ holds => (holds.2.pointerRefused_laid laid).check_eq) "resize"
      obtain ⟨_, h', ran, rfl, agrees⟩ := resized.exists_run
      exact ⟨h', ran, agrees⟩

/-- A pointer behind the header of a free block is rejected. -/
theorem Laid.rejects_of_free (laid : h.Laid chain nodes)
    (tests : h.config.check.testsPointers = true) (placed : h.memory.Placed ptr) {rest : Nat}
    (header : h.memory.header ptr = .ok (Tag.free rest)) (ends : ptr + rest ≤ h.memory.size) :
    h.Rejects ptr := by
  have above := placed.above
  have bounded : h.memory.size < wordLimit := laid.settled.bounded
  rw [laid.rejects_iff tests (by omega), laid.prologue,
    Memory.liveBlock_refuses_iff placed.above placed.inside bounded placed.aligned header]
  exact Memory.not_passes_free (by omega)

end Heap

end BoundaryHeap
