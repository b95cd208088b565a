import BoundaryHeap.Proofs.Pointer
import BoundaryHeap.Proofs.ReplayStep

/-!
The overlap test of a replay, apart from what its heap guarantees. A block is taken in at an
aligned pointer with enough usable bytes, and the table lists ranges that have no byte in common;
nothing else is known of the heap or of the table. The test then finds a range that the new one
meets exactly if there is one, and the ranges stay apart when it finds none.
-/

namespace BoundaryHeap

namespace Heap

variable {h : Heap LimitedArena} {excused : Fault → Prop} {ptr offset length : Nat}
  {values : List UInt8}

/-- Writing within what is usable at a pointer, whatever state the heap is in. -/
theorem patch_answers (usable : h.usableSize ptr = .ok (some length))
    (fits : offset + values.length ≤ length) :
    (patch ptr offset values).Ensures h excused fun answer _ => answer = true := by
  have within := usable_inside usable
  have inside : ptr + offset + values.length ≤ h.region.memory.size :=
    Nat.le_trans (by omega) within
  unfold patch
  refine .ask usable ?_
  simp only []
  rw [if_neg (Nat.not_lt.mpr fits)]
  exact edit_ensures (Region.writeRange_ensures inside) fun _ _ _ => .pure rfl

end Heap

namespace Replay

variable {s : State} {index id ptr size length : Nat} {other : LiveBlock}

/-- A part that does not stop the replay answers or meets a fault. -/
theorem Step.Meets.run_or_fault {α : Type} {act : Step α} {excused : Fault → Prop}
    {post : α → State → Prop} (outcome : act.Meets s excused (fun _ => False) post) :
    (∃ answer s', act.run.run s = .ok (.ok answer) s' ∧ post answer s') ∨
      ∃ fault s', act.run.run s = .error fault s' ∧ excused fault := by
  rw [Step.Meets, Action.Ensures] at outcome
  split at outcome
  next result s' ran =>
    cases result with
    | ok answer => exact .inl ⟨answer, s', ran, outcome⟩
    | error error => exact outcome.elim
  next fault s' ran => exact .inr ⟨fault, s', ran, outcome⟩

/-- Entering a block leaves the table with it, unless the count of live bytes leaves 64 bits. -/
theorem enter_outcome (block : LiveBlock) :
    (enter block).Meets s (fun fault => fault = .overflow ∧ wordLimit ≤ s.liveBytes + block.size)
      (fun _ => False) fun _ s' => s'.live = s.live.insert block := by
  unfold enter
  apply Step.Meets.update
  by_cases fits : s.liveBytes + block.size < wordLimit
  · exact Step.Meets.ask (Checked.add_eq_ok fits) (Action.Ensures.of_run rfl rfl)
  · exact Step.Meets.ask_error (if_neg fits) ⟨rfl, Nat.le_of_not_lt fits⟩

/-- A block that clashes is reported, and nothing has happened. -/
theorem takeIn_run_of_clash (aligned : ptr % Block.alignment = 0)
    (usable : s.heap.usableSize ptr = .ok (some length)) (enough : size ≤ length)
    (clash : s.live.clash? ptr (ptr + size) = some other) :
    (takeIn index id ptr size).run.run s =
      .ok (.error (.overlap index id other.id ptr (ptr + size))) s := by
  unfold takeIn
  rw [Step.require_bind (decide_eq_true aligned), Step.run_ask_bind usable]
  simp only [Option.getD_some]
  rw [Step.require_bind (decide_eq_true enough)]
  rw [Step.run_look_bind (s := s) clash]
  rfl

/-- A block that clashes with nothing is entered. -/
theorem takeIn_outcome_of_clear (aligned : ptr % Block.alignment = 0)
    (usable : s.heap.usableSize ptr = .ok (some length)) (enough : size ≤ length)
    (clear : s.live.clash? ptr (ptr + size) = none) :
    (takeIn index id ptr size).Meets s
      (fun fault => fault = .overflow ∧ wordLimit ≤ s.liveBytes + size) (fun _ => False)
      fun _ s' => s'.live = s.live.insert ⟨id, ptr, size⟩ := by
  have fits : 0 + (patternFrom id 0 size).length ≤ length := by
    rw [length_patternFrom, Nat.zero_add]
    exact enough
  unfold takeIn
  apply Step.Meets.require (decide_eq_true aligned)
  apply Step.Meets.ask usable
  apply Step.Meets.require (decide_eq_true enough)
  apply Step.Meets.look clear
  apply Step.Meets.bind (Step.Meets.onHeap (Heap.patch_answers usable fits)).discard
  rintro - _ ⟨-, heap, -, rfl⟩
  exact enter_outcome ⟨id, ptr, size⟩

/-- The overlap test is exact. Where the table lists ranges that are apart, an aligned block with
enough usable bytes is refused for an overlap exactly if it has a byte in common with some range,
and it is refused for nothing else; the number in the refusal is that of a range it does meet. A
block that is taken in becomes one range more, and the ranges are apart again. A block that meets
no range is taken in, unless the count of live bytes leaves 64 bits. -/
theorem takeIn_exact (index id : Nat) (ranges : s.live.Ranges) (asks : 0 < size)
    (aligned : ptr % Block.alignment = 0)
    (usable : s.heap.usableSize ptr = .ok (some length)) (enough : size ≤ length) :
    ((∃ number, (takeIn index id ptr size).run.run s =
        .ok (.error (.overlap index id number ptr (ptr + size))) s) ↔
      ∃ block ∈ s.live, block.Meets ptr (ptr + size)) ∧
    (∀ error s', (takeIn index id ptr size).run.run s = .ok (.error error) s' →
      s' = s ∧ ∃ block ∈ s.live, block.Meets ptr (ptr + size) ∧
        error = .overlap index id block.id ptr (ptr + size)) ∧
    (∀ s', (takeIn index id ptr size).run.run s = .ok (.ok ()) s' →
      s'.live.Perm (⟨id, ptr, size⟩ :: s.live) ∧ s'.live.Ranges) ∧
    ((∀ block ∈ s.live, ¬ block.Meets ptr (ptr + size)) → s.liveBytes + size < wordLimit →
      ∃ s', (takeIn index id ptr size).run.run s = .ok (.ok ()) s') := by
  have stretch : ptr < ptr + size := Nat.lt_add_of_pos_right asks
  cases clash : s.live.clash? ptr (ptr + size) with
  | some other =>
    obtain ⟨member, meets⟩ := ranges.meets_of_clash? stretch clash
    have ran : (takeIn index id ptr size).run.run s = _ :=
      takeIn_run_of_clash aligned usable enough clash
    rw [ran]
    refine ⟨⟨fun _ => ⟨other, member, meets⟩, fun _ => ⟨other.id, rfl⟩⟩, ?_, ?_, ?_⟩
    · rintro _ _ ⟨⟩
      exact ⟨rfl, other, member, meets, rfl⟩
    · rintro _ ⟨⟩
    · intro clear
      exact absurd meets (clear other member)
  | none =>
    have clear := (ranges.clash?_eq_none_iff stretch).mp clash
    have unmet : ¬ ∃ block ∈ s.live, block.Meets ptr (ptr + size) := by
      rintro ⟨block, member, meets⟩
      exact clear block member meets
    have outcome : (takeIn index id ptr size).Meets s _ _ _ :=
      takeIn_outcome_of_clear aligned usable enough clash
    obtain ⟨⟨⟩, s', ran, entered⟩ | ⟨fault, s', ran, -, far⟩ := outcome.run_or_fault <;> rw [ran]
    · refine ⟨⟨by rintro ⟨_, ⟨⟩⟩, fun meets => absurd meets unmet⟩, ?_, ?_, ?_⟩
      · rintro _ _ ⟨⟩
      · rintro _ ⟨⟩
        rw [entered]
        exact ⟨LiveTable.perm_insert .., ranges.insert asks clear⟩
      · exact fun _ _ => ⟨s', rfl⟩
    · refine ⟨⟨by rintro ⟨_, ⟨⟩⟩, fun meets => absurd meets unmet⟩, ?_, ?_, ?_⟩
      · rintro _ _ ⟨⟩
      · rintro _ ⟨⟩
      · exact fun _ fits => absurd far (Nat.not_le.mpr fits)

/-- A block between two that it touches, and one that swallows the block behind it whole. -/
theorem takeIn_exact_between :
    ∃ s : State, s.live = [⟨4, 16, 16⟩, ⟨7, 56, 8⟩, ⟨9, 96, 16⟩] ∧
      (∃ s', (takeIn 0 2 32 24).run.run s = .ok (.ok ()) s' ∧ s'.live.Ranges) ∧
      (takeIn 0 2 32 64).run.run s = .ok (.error (.overlap 0 2 7 32 96)) s := by
  have ran : ((do
      let laidOut ← Heap.init
      let block ← Heap.allocate 64
      let usable ← Action.ask (·.usableSize 32)
      return (laidOut, block, usable) :
        Action (Heap LimitedArena) (Except HeapError Unit × Option Nat × Option Nat)).result
        (Heap.withConfig { HeapConfig.standard with chunkSize := 96, placement := .front })).map
          (·.1) = .ok (.ok (), some 32, some 80) := by decide +kernel
  obtain ⟨_, ran⟩ := Action.exists_run_of_result ran
  obtain ⟨_, _, -, ran⟩ := Action.run_bind_eq_ok.mp ran
  obtain ⟨_, h, -, ran⟩ := Action.run_bind_eq_ok.mp ran
  obtain ⟨_, _, asked, ran⟩ := Action.run_bind_eq_ok.mp ran
  cases ran
  obtain ⟨usable, -⟩ := Action.run_ask_eq_ok.mp asked
  let table : LiveTable := [⟨4, 16, 16⟩, ⟨7, 56, 8⟩, ⟨9, 96, 16⟩]
  have ranges : table.Ranges := .of_apart (by decide) (by decide)
  have touches : ∀ block ∈ table, ¬ block.Meets 32 56 := by decide
  have swallows : ∃ block ∈ table, block.Meets 32 96 := by decide
  have only : ∀ block ∈ table, block.Meets 32 96 → block.id = 7 := by decide
  let s : State := ⟨h, table, 40, 40, 3, 0, 0⟩
  obtain ⟨-, -, taken, answers⟩ :=
    takeIn_exact (s := s) 0 2 ranges (show 0 < 24 by decide) (by decide) usable (by decide)
  obtain ⟨overlaps, refused, -, -⟩ :=
    takeIn_exact (s := s) 0 2 ranges (show 0 < 64 by decide) (by decide) usable (by decide)
  obtain ⟨s', ran⟩ := answers touches (show 40 + 24 < wordLimit by decide)
  obtain ⟨number, met⟩ := overlaps.mpr swallows
  obtain ⟨-, block, member, meets, same⟩ := refused _ _ met
  cases same
  rw [only block member meets] at met
  exact ⟨s, rfl, ⟨s', ran, (taken s' ran).2⟩, met⟩

end Replay

end BoundaryHeap
