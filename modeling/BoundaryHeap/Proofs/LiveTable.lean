import BoundaryHeap.Replay.Run
import Mathlib.Algebra.Ring.Nat
import Mathlib.Data.List.Nodup
import Mathlib.Data.List.TakeWhile

/-!
The table of live blocks and the pattern that fills them. The blocks of a table are ranges of
addresses. As long as these have no byte in common, the two that a stretch is tested against, the
last one below and the first one above, stand for all: a block before the one below ends before it
starts, and one behind the one above starts after it. A sound table lies in a memory too, so the
bytes asked for add up to no more than the memory has.
-/

namespace BoundaryHeap.Replay

/-! ## The pattern -/

section Pattern

variable {id offset count index : Nat}

theorem length_patternFrom (id offset count : Nat) :
    (patternFrom id offset count).length = count := by
  induction count generalizing offset with
  | zero => rfl
  | succ count ih => rw [patternFrom, List.length_cons, ih]

theorem getElem?_patternFrom (within : index < count) :
    (patternFrom id offset count)[index]? = some (patternByte id (offset + index)) := by
  induction count generalizing offset index with
  | zero => cases within
  | succ count ih =>
    unfold patternFrom
    cases index with
    | zero => rfl
    | succ index =>
      rw [List.getElem?_cons_succ, ih (Nat.lt_of_succ_lt_succ within), Nat.add_assoc,
        Nat.add_comm 1 index]

/-- Bytes that follow the pattern are not found to differ from it. -/
theorem mismatchFrom_eq_none {bytes : List UInt8}
    (follows : ∀ index < count, bytes[index]? = some (patternByte id (offset + index))) :
    mismatchFrom id offset count bytes = none := by
  induction count generalizing offset bytes with
  | zero => rfl
  | succ count ih =>
    cases bytes with
    | nil => cases follows 0 (Nat.succ_pos count)
    | cons first rest =>
      have same : first = patternByte id offset := by
        simpa using follows 0 (Nat.succ_pos count)
      rw [mismatchFrom, if_pos same]
      apply ih
      intro index within
      have next := follows (index + 1) (Nat.succ_lt_succ within)
      rwa [List.getElem?_cons_succ, ← Nat.add_assoc, Nat.add_right_comm] at next

end Pattern

/-! ## The table -/

namespace LiveBlock

/-- A block has a byte in `[start, stop)`. -/
def Meets (block : LiveBlock) (start stop : Nat) : Prop :=
  ∃ offset, (block.start ≤ offset ∧ offset < block.stop) ∧ start ≤ offset ∧ offset < stop

variable {block : LiveBlock} {start stop : Nat}

theorem meets_iff_max_lt_min :
    block.Meets start stop ↔ max block.start start < min block.stop stop := by
  constructor
  · rintro ⟨offset, ⟨starts, ends⟩, first, last⟩
    omega
  · intro common
    exact ⟨max block.start start, by omega⟩

instance : Decidable (block.Meets start stop) := decidable_of_iff' _ meets_iff_max_lt_min

theorem meets_iff (bytes : 0 < block.size) (stretch : start < stop) :
    block.Meets start stop ↔ block.start < stop ∧ start < block.stop := by
  have inside : block.start < block.stop := Nat.lt_add_of_pos_right bytes
  rw [meets_iff_max_lt_min]
  omega

theorem not_meets_iff (bytes : 0 < block.size) (stretch : start < stop) :
    ¬ block.Meets start stop ↔ block.stop ≤ start ∨ stop ≤ block.start := by
  rw [meets_iff bytes stretch]
  omega

end LiveBlock

namespace LiveTable

variable {table : LiveTable} {block other : LiveBlock} {id start stop : Nat}

theorem perm_insert (table : LiveTable) (block : LiveBlock) :
    (table.insert block).Perm (block :: table) := by
  induction table with
  | nil => exact .refl _
  | cons other rest ih =>
    unfold insert
    split
    · exact .refl _
    · exact (ih.cons other).trans (.swap ..)

theorem mem_insert : other ∈ table.insert block ↔ other = block ∨ other ∈ table := by
  rw [(perm_insert table block).mem_iff, List.mem_cons]

theorem sum_insert (table : LiveTable) (block : LiveBlock) :
    ((table.insert block).map (·.size)).sum = (table.map (·.size)).sum + block.size := by
  rw [((perm_insert table block).map (·.size)).sum_nat, List.map_cons, List.sum_cons, Nat.add_comm]

theorem mem_erase : other ∈ table.erase id ↔ other ∈ table ∧ other.id ≠ id := by
  simp [erase]

theorem erase_eq_self (dead : ∀ block ∈ table, block.id ≠ id) : table.erase id = table :=
  List.filter_eq_self.mpr fun block member => by simpa using dead block member

/-- A block found by its number is in the table. -/
theorem mem_of_find? (found : table.find? id = some block) : block ∈ table ∧ block.id = id := by
  refine ⟨List.mem_of_find?_eq_some found, ?_⟩
  simpa using List.find?_some found

theorem find?_eq_none : table.find? id = none ↔ ∀ block ∈ table, block.id ≠ id := by
  simp [find?, List.find?_eq_none]

/-- The blocks are ranges of addresses in ascending order: each has bytes, and no two have a byte in
common. -/
structure Ranges (table : LiveTable) : Prop where
  ascending : table.Pairwise fun block other => block.start < other.start
  held : ∀ block ∈ table, 0 < block.size
  disjoint : table.Pairwise fun block other => ¬ block.Meets other.start other.stop

namespace Ranges

theorem of_apart (held : ∀ block ∈ table, 0 < block.size)
    (apart : table.Pairwise fun block other => block.stop ≤ other.start) : table.Ranges where
  ascending := apart.imp_of_mem fun {block _} member _ ends =>
    Nat.lt_of_lt_of_le (Nat.lt_add_of_pos_right (held block member)) ends
  held := held
  disjoint := apart.imp_of_mem fun {_ _} blockMem otherMem ends =>
    (LiveBlock.not_meets_iff (held _ blockMem)
      (Nat.lt_add_of_pos_right (held _ otherMem))).mpr (.inl ends)

/-- Each range ends where the next one starts or before it. -/
theorem apart (ranges : table.Ranges) :
    table.Pairwise fun block other => block.stop ≤ other.start := by
  refine (ranges.ascending.and ranges.disjoint).imp_of_mem ?_
  rintro block other blockMem otherMem ⟨before, clear⟩
  have bytes := ranges.held other otherMem
  have sides := (LiveBlock.not_meets_iff (ranges.held block blockMem)
    (Nat.lt_add_of_pos_right bytes)).mp clear
  simp only [LiveBlock.stop] at sides ⊢
  omega

/-- A range that meets none of the table can be entered. -/
theorem insert (ranges : table.Ranges) (bytes : 0 < block.size)
    (clear : ∀ other ∈ table, ¬ other.Meets block.start block.stop) :
    (table.insert block).Ranges := by
  have sides : ∀ other ∈ table, other.stop ≤ block.start ∨ block.stop ≤ other.start :=
    fun other member => (LiveBlock.not_meets_iff (ranges.held other member)
      (Nat.lt_add_of_pos_right bytes)).mp (clear other member)
  have order := ranges.apart
  have held := ranges.held
  clear clear ranges
  apply of_apart
  · intro other member
    rcases mem_insert.mp member with rfl | member
    · exact bytes
    · exact held other member
  induction table with
  | nil => exact List.pairwise_singleton ..
  | cons first rest ih =>
    obtain ⟨firstApart, restApart⟩ := List.pairwise_cons.mp order
    have firstBytes := held first (List.mem_cons_self ..)
    have firstSide := sides first (List.mem_cons_self ..)
    simp only [LiveBlock.stop] at firstSide firstApart
    unfold LiveTable.insert
    split
    next before =>
      refine List.pairwise_cons.mpr ⟨fun other member => ?_, order⟩
      simp only [LiveBlock.stop]
      rcases List.mem_cons.mp member with rfl | member
      · omega
      · have := firstApart other member
        omega
    next behind =>
      refine List.pairwise_cons.mpr ⟨fun other member => ?_, ih ?_ restApart ?_⟩
      · simp only [LiveBlock.stop]
        rcases mem_insert.mp member with rfl | member
        · omega
        · exact firstApart other member
      · exact fun other member => sides other (List.mem_cons_of_mem _ member)
      · exact fun other member => held other (List.mem_cons_of_mem _ member)

/-- A block that starts at or before `start` is among the first ones that do. -/
theorem mem_takeWhile (ranges : table.Ranges) (member : block ∈ table)
    (begins : block.start ≤ start) : block ∈ table.takeWhile fun other => other.start ≤ start := by
  have order := ranges.ascending
  clear ranges
  induction table with
  | nil => cases member
  | cons first rest ih =>
    obtain ⟨firstBefore, restOrder⟩ := List.pairwise_cons.mp order
    rcases List.mem_cons.mp member with rfl | behind
    · rw [List.takeWhile_cons_of_pos (by simpa using begins)]
      exact List.mem_cons_self ..
    · have firstBegins : first.start ≤ start := by
        have := firstBefore block behind
        omega
      rw [List.takeWhile_cons_of_pos (by simpa using firstBegins)]
      exact List.mem_cons_of_mem _ (ih behind restOrder)

/-- The last of the blocks that start at or before `start` is `block`, or starts behind its end. -/
theorem exists_below (ranges : table.Ranges) (member : block ∈ table)
    (begins : block.start ≤ start) :
    ∃ last, (table.takeWhile fun other => other.start ≤ start).getLast? = some last ∧
      last.start ≤ start ∧ (block = last ∨ block.stop ≤ last.start) := by
  have here := ranges.mem_takeWhile member begins
  have order := ranges.apart.sublist (List.takeWhile_sublist fun other => other.start ≤ start)
  have begin : ∀ other ∈ table.takeWhile fun other => other.start ≤ start,
      other.start ≤ start := fun other found => by simpa using List.mem_takeWhile_imp found
  generalize table.takeWhile (fun other => other.start ≤ start) = below at here order begin
  obtain rfl | ⟨front, last, rfl⟩ := List.eq_nil_or_concat' below
  · cases here
  refine ⟨last, List.getLast?_concat, begin last (List.mem_concat_self ..), ?_⟩
  rcases List.mem_append.mp here with before | here
  · exact .inr ((List.pairwise_append.mp order).2.2 block before last (List.mem_singleton_self _))
  · exact .inl (List.mem_singleton.mp here)

/-- The first of the blocks that start at or after `start` starts where `block` does or before
it. -/
theorem exists_above (ranges : table.Ranges) (member : block ∈ table)
    (begins : start ≤ block.start) :
    ∃ first, List.find? (fun other => start ≤ other.start) table = some first ∧
      first.start ≤ block.start := by
  have some : (List.find? (fun other => start ≤ other.start) table).isSome :=
    List.find?_isSome.mpr ⟨block, member, decide_eq_true begins⟩
  obtain ⟨first, found⟩ := Option.isSome_iff_exists.mp some
  refine ⟨first, found, ?_⟩
  obtain ⟨-, front, behind, rfl, before⟩ := List.find?_eq_some_iff_append.mp found
  have order := (List.pairwise_append.mp ranges.ascending).2.1
  rcases List.mem_append.mp member with early | here
  · simpa [begins] using before block early
  rcases List.mem_cons.mp here with rfl | late
  · exact Nat.le_refl _
  · exact Nat.le_of_lt (List.rel_of_pairwise_cons order late)

/-- What a stretch clashes with is a block of the table that has one of its bytes. -/
theorem meets_of_clash? (ranges : table.Ranges) (stretch : start < stop)
    (clash : table.clash? start stop = some block) : block ∈ table ∧ block.Meets start stop := by
  rw [clash?, Option.or_eq_some_iff] at clash
  rcases clash with below | ⟨-, above⟩
  · obtain ⟨last, reaches⟩ := Option.filter_eq_some_iff.mp below
    have here := List.mem_of_getLast? last
    have member := (List.takeWhile_sublist _).subset here
    have begins : block.start ≤ start := by simpa using List.mem_takeWhile_imp here
    exact ⟨member, (LiveBlock.meets_iff (ranges.held block member) stretch).mpr
      ⟨Nat.lt_of_le_of_lt begins stretch, of_decide_eq_true reaches⟩⟩
  · obtain ⟨first, reaches⟩ := Option.filter_eq_some_iff.mp above
    have member := List.mem_of_find?_eq_some first
    have bytes := ranges.held block member
    have begins : start ≤ block.start := by simpa using List.find?_some first
    exact ⟨member, (LiveBlock.meets_iff bytes stretch).mpr ⟨of_decide_eq_true reaches,
      Nat.lt_of_le_of_lt begins (Nat.lt_add_of_pos_right bytes)⟩⟩

/-- A stretch that clashes with nothing has no byte of any block, though only two are looked at. -/
theorem clash?_eq_none_iff (ranges : table.Ranges) (stretch : start < stop) :
    table.clash? start stop = none ↔ ∀ block ∈ table, ¬ block.Meets start stop := by
  constructor
  · intro clear block member meets
    obtain ⟨starts, ends⟩ := (LiveBlock.meets_iff (ranges.held block member) stretch).mp meets
    rw [clash?, Option.or_eq_none_iff, Option.filter_eq_none_iff,
      Option.filter_eq_none_iff] at clear
    obtain ⟨below, above⟩ := clear
    by_cases begins : block.start ≤ start
    · obtain ⟨last, found, lastBegins, place⟩ := ranges.exists_below member begins
      have passed : ¬ start < last.stop := by simpa using below last found
      rcases place with rfl | before
      · exact passed ends
      · omega
    · obtain ⟨first, found, firstStarts⟩ :=
        ranges.exists_above member (Nat.le_of_not_le begins)
      have passed : ¬ first.start < stop := by simpa using above first found
      omega
  · intro clear
    cases clash : table.clash? start stop with
    | none => rfl
    | some block =>
      obtain ⟨member, meets⟩ := ranges.meets_of_clash? stretch clash
      exact absurd meets (clear block member)

end Ranges

/-- The blocks lie apart in the order of their addresses and below `bound`, each has bytes, and no
number comes twice. -/
structure Sound (table : LiveTable) (bound : Nat) : Prop where
  apart : table.Pairwise fun block other => block.stop ≤ other.start
  below : ∀ block ∈ table, block.stop ≤ bound
  some : ∀ block ∈ table, 0 < block.size
  numbered : (table.map (·.id)).Nodup

namespace Sound

variable {bound larger : Nat}

theorem nil (bound : Nat) : Sound [] bound where
  apart := .nil
  below := fun _ member => absurd member List.not_mem_nil
  some := fun _ member => absurd member List.not_mem_nil
  numbered := List.nodup_nil

theorem mono (sound : table.Sound bound) (le : bound ≤ larger) : table.Sound larger where
  apart := sound.apart
  below := fun block member => Nat.le_trans (sound.below block member) le
  some := sound.some
  numbered := sound.numbered

theorem ranges (sound : table.Sound bound) : table.Ranges := .of_apart sound.some sound.apart

/-- No two blocks of a sound table start at one place. -/
theorem starts_nodup (sound : table.Sound bound) : (table.map (·.start)).Nodup :=
  List.pairwise_map.mpr (sound.ranges.ascending.imp Nat.ne_of_lt)

theorem eq_of_start (sound : table.Sound bound) (blockMem : block ∈ table)
    (otherMem : other ∈ table)
    (same : block.start = other.start) : block = other :=
  List.inj_on_of_nodup_map sound.starts_nodup blockMem otherMem same

/-- A new block that is apart from those of the table can be entered. -/
theorem insert (sound : table.Sound bound) (below : block.stop ≤ bound) (some : 0 < block.size)
    (new : ∀ other ∈ table, other.id ≠ block.id)
    (apart : ∀ other ∈ table, other.stop ≤ block.start ∨ block.stop ≤ other.start) :
    (table.insert block).Sound bound := by
  have entered := sound.ranges.insert some fun other member =>
    (LiveBlock.not_meets_iff (sound.some other member)
      (Nat.lt_add_of_pos_right some)).mpr (apart other member)
  constructor
  · exact entered.apart
  · intro other member
    rcases mem_insert.mp member with rfl | member
    · exact below
    · exact sound.below other member
  · exact entered.held
  · rw [((perm_insert table block).map (·.id)).nodup_iff, List.map_cons, List.nodup_cons]
    refine ⟨fun member => ?_, sound.numbered⟩
    obtain ⟨other, otherMem, same⟩ := List.mem_map.mp member
    exact new other otherMem same

theorem erase (sound : table.Sound bound) (id : Nat) : (table.erase id).Sound bound where
  apart := sound.apart.filter _
  below := fun block member => sound.below block (mem_erase.mp member).1
  some := fun block member => sound.some block (mem_erase.mp member).1
  numbered := sound.numbered.sublist (List.filter_sublist.map _)

/-- Taking a block out leaves the others. -/
theorem perm_erase (sound : table.Sound bound) (member : block ∈ table) :
    table.Perm (block :: table.erase block.id) := by
  have nodup := List.Nodup.of_map _ sound.numbered
  refine (List.perm_ext_iff_of_nodup nodup ?_).mpr fun other => ?_
  · refine List.nodup_cons.mpr ⟨fun here => (mem_erase.mp here).2 rfl, nodup.filter _⟩
  · rw [List.mem_cons, mem_erase]
    constructor
    · intro otherMem
      by_cases same : other.id = block.id
      · exact .inl (List.inj_on_of_nodup_map sound.numbered otherMem member same)
      · exact .inr ⟨otherMem, same⟩
    · rintro (rfl | ⟨otherMem, -⟩)
      · exact member
      · exact otherMem

theorem sum_erase (sound : table.Sound bound) (member : block ∈ table) :
    (table.map (·.size)).sum = block.size + ((table.erase block.id).map (·.size)).sum := by
  rw [((sound.perm_erase member).map (·.size)).sum_nat, List.map_cons, List.sum_cons]

/-- The bytes asked for fit in the memory they lie in, with what comes before all of them. -/
theorem add_sum_le {first : Nat} (sound : table.Sound bound)
    (starts : ∀ block ∈ table, first ≤ block.start) (within : first ≤ bound) :
    first + (table.map (·.size)).sum ≤ bound := by
  have order := sound.apart
  have below := sound.below
  clear sound
  induction table generalizing first with
  | nil => simpa using within
  | cons block rest ih =>
    obtain ⟨blockApart, restApart⟩ := List.pairwise_cons.mp order
    have start := starts block (List.mem_cons_self ..)
    have stop := below block (List.mem_cons_self ..)
    have tail := ih blockApart stop restApart
      fun other member => below other (List.mem_cons_of_mem _ member)
    rw [List.map_cons, List.sum_cons]
    simp only [LiveBlock.stop] at tail
    omega

/-- The bytes asked for fit in the memory they lie in. -/
theorem sum_le (sound : table.Sound bound) : (table.map (·.size)).sum ≤ bound := by
  have fits := sound.add_sum_le (fun _ _ => Nat.zero_le _) (Nat.zero_le _)
  rwa [Nat.zero_add] at fits

/-- A stretch that is apart from all blocks clashes with none. -/
theorem clash?_eq_none (sound : table.Sound bound) (some : start < stop)
    (apart : ∀ other ∈ table, other.stop ≤ start ∨ stop ≤ other.start) :
    table.clash? start stop = none :=
  (sound.ranges.clash?_eq_none_iff some).mpr fun other member =>
    (LiveBlock.not_meets_iff (sound.some other member) some).mpr (apart other member)

end Sound

end LiveTable

end BoundaryHeap.Replay
