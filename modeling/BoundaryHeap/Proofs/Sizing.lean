import BoundaryHeap.Block
import Mathlib.Order.Bounds.Basic
import Mathlib.Order.MinMax

/-!
How large the block for a request is, and how a tag keeps that size. Rounding up finds the least
multiple of the alignment from a bound on, and a request gets the least such multiple that has room
for its payload and both tags. Only the last thirty-one requests of 64 bits have no block, because
the sum that is rounded leaves 64 bits. The word of a tag is its size with the flag in the lowest
bit, which no such size uses.
-/

namespace BoundaryHeap

namespace Block

variable {value bound floor less request size : Nat}

/-- The multiples of the alignment from a bound on. -/
def wholesFrom (bound : Nat) : Set Nat := {size | alignment ∣ size ∧ bound ≤ size}

theorem wholesFrom_anti (le : value ≤ bound) : wholesFrom bound ⊆ wholesFrom value :=
  fun _ ⟨whole, large⟩ => ⟨whole, le.trans large⟩

/-- A bound that is itself such a multiple can be put in afterwards. -/
theorem isLeast_wholesFrom_max (least : IsLeast (wholesFrom value) size)
    (whole : alignment ∣ floor) : IsLeast (wholesFrom (max value floor)) (max size floor) := by
  obtain ⟨⟨wholeSize, large⟩, least⟩ := least
  refine ⟨⟨?_, max_le_max_right floor large⟩, ?_⟩
  · rcases max_choice size floor with same | same <;> rwa [same]
  · rintro other ⟨wholeOther, above⟩
    obtain ⟨aboveValue, aboveFloor⟩ := max_le_iff.mp above
    exact max_le (least ⟨wholeOther, aboveValue⟩) aboveFloor

/-! ## Rounding up -/

theorem roundUp_eq_none_iff : roundUp value = none ↔ wordLimit ≤ value + 15 := by
  rw [roundUp]
  split <;> simp <;> omega

theorem roundUp_eq_some_iff :
    roundUp value = some size ↔ value + 15 < wordLimit ∧ IsLeast (wholesFrom value) size := by
  have least : IsLeast (wholesFrom value) ((value + 15) / 16 * 16) := by
    refine ⟨⟨Nat.dvd_mul_left .., by omega⟩, ?_⟩
    rintro other ⟨⟨count, rfl⟩, large⟩
    simp only [alignment] at *
    omega
  rw [roundUp]
  split
  next fits =>
    refine ⟨fun same => ⟨fits, Option.some.inj same ▸ least⟩, fun ⟨_, found⟩ => ?_⟩
    rw [least.unique found]
  next far => simp [far]

theorem le_of_roundUp (rounded : roundUp value = some size) : value ≤ size :=
  (roundUp_eq_some_iff.mp rounded).2.1.2

/-- Rounding up changes nothing exactly at the multiples of the alignment. -/
theorem roundUp_eq_self_iff :
    roundUp value = some value ↔ alignment ∣ value ∧ value < wordLimit := by
  rw [roundUp_eq_some_iff]
  constructor
  · rintro ⟨fits, ⟨whole, -⟩, -⟩
    exact ⟨whole, by omega⟩
  · rintro ⟨whole, small⟩
    refine ⟨?_, ⟨whole, le_rfl⟩, fun other ⟨_, large⟩ => large⟩
    simp only [alignment, wordLimit] at *
    omega

/-! ## The block for a request -/

theorem sizeFor_eq_none_iff : sizeFor request = none ↔ wordLimit - 32 < request := by
  rw [sizeFor]
  split
  next fits =>
    rw [Option.map_eq_none_iff, roundUp_eq_none_iff]
    simp only [overhead, wordLimit]
    omega
  next far =>
    simp only [overhead, wordLimit] at *
    simp only [true_iff]
    omega

theorem sizeFor_eq_some_iff : sizeFor request = some size ↔
    request ≤ wordLimit - 32 ∧ IsLeast (wholesFrom (max (request + overhead) minSize)) size := by
  have isLeast : ∀ size, sizeFor request = some size →
      IsLeast (wholesFrom (max (request + overhead) minSize)) size := by
    intro size found
    rw [sizeFor] at found
    split at found
    · obtain ⟨rounded, known, rfl⟩ := Option.map_eq_some_iff.mp found
      exact isLeast_wholesFrom_max (roundUp_eq_some_iff.mp known).2 (by decide)
    · cases found
  constructor
  · intro found
    refine ⟨?_, isLeast size found⟩
    by_contra large
    rw [sizeFor_eq_none_iff.mpr (Nat.lt_of_not_le large)] at found
    cases found
  · -- there is an answer below the edge, and a set has one least element
    rintro ⟨small, least⟩
    cases known : sizeFor request with
    | none => exact absurd (sizeFor_eq_none_iff.mp known) (Nat.not_lt.mpr small)
    | some found => rw [least.unique (isLeast found known)]

theorem sizeFor_eq_some (found : sizeFor request = some size) :
    LegalSize size ∧ request + 16 ≤ size := by
  obtain ⟨-, ⟨whole, large⟩, -⟩ := sizeFor_eq_some_iff.mp found
  obtain ⟨room, large⟩ := max_le_iff.mp large
  exact ⟨⟨Nat.mod_eq_zero_of_dvd whole, large⟩, room⟩

/-- A smaller request has a block too, and none that is larger. -/
theorem sizeFor_mono (fewer : less ≤ request) (found : sizeFor request = some size) :
    ∃ smaller ≤ size, sizeFor less = some smaller := by
  obtain ⟨small, least⟩ := sizeFor_eq_some_iff.mp found
  cases known : sizeFor less with
  | none => exact absurd (sizeFor_eq_none_iff.mp known) (Nat.not_lt.mpr (fewer.trans small))
  | some smaller =>
    have within := wholesFrom_anti (max_le_max_right minSize (Nat.add_le_add_right fewer overhead))
    exact ⟨smaller, least.mono (sizeFor_eq_some_iff.mp known).2 within, rfl⟩

theorem sizeFor_lt (found : sizeFor request = some size) : size < wordLimit := by
  obtain ⟨small, least⟩ := sizeFor_eq_some_iff.mp found
  -- the last multiple of the alignment in 64 bits is large enough for any request that is served
  have last : wordLimit - 16 ∈ wholesFrom (max (request + overhead) minSize) := by
    refine ⟨by decide, ?_⟩
    simp only [overhead, minSize, wordLimit] at *
    omega
  exact Nat.lt_of_le_of_lt (least.2 last) (by decide)

/-- The payload holds the request, with less than sixteen bytes to spare unless nothing was
requested. -/
theorem payloadCapacity_of_sizeFor (found : sizeFor request = some size) :
    ∃ capacity, payloadCapacity size = .ok capacity ∧ request ≤ capacity ∧
      (0 < request → capacity < request + 16) := by
  obtain ⟨-, -, least⟩ := sizeFor_eq_some_iff.mp found
  obtain ⟨-, room⟩ := sizeFor_eq_some found
  refine ⟨size - 16, Checked.sub_eq_ok (show 16 ≤ size by omega), by omega, fun some => ?_⟩
  -- a request of at least one byte lifts this candidate to the smallest block; none would not
  have next : (request + 31) / 16 * 16 ∈ wholesFrom (max (request + overhead) minSize) := by
    refine ⟨Nat.dvd_mul_left .., ?_⟩
    simp only [overhead, minSize]
    omega
  have most := least next
  omega

end Block

namespace Tag

variable {tag : Tag}

/-- The flag takes the place of the lowest bit of the size. -/
theorem testBit_toWord (tag : Tag) (place : Nat) :
    tag.toWord.testBit place = if place = 0 then tag.allocated else tag.size.testBit place := by
  have flag : tag.allocated.toNat ≤ 1 := Bool.toNat_le _
  cases place with
  | zero =>
    have low : tag.toWord % 2 = tag.allocated.toNat := by
      rw [toWord]
      omega
    rw [Nat.testBit_zero, low]
    cases tag.allocated <;> rfl
  | succ place =>
    have high : tag.toWord / 2 = tag.size / 2 := by
      rw [toWord]
      omega
    rw [if_neg (Nat.succ_ne_zero place), Nat.testBit_succ, Nat.testBit_succ, high]

theorem toWord_lt_iff : tag.toWord < wordLimit ↔ tag.size < wordLimit := by
  have flag : tag.allocated.toNat ≤ 1 := Bool.toNat_le _
  rw [toWord]
  simp only [wordLimit]
  omega

theorem ofWord_toWord_iff : ofWord tag.toWord = tag ↔ tag.size % 2 = 0 := by
  refine ⟨fun same => ?_, ofWord_toWord⟩
  rw [← same]
  exact Nat.mul_mod_left ..

end Tag

/-- A request has a block exactly if it is at most thirty-two below the limit of 64 bits. The block
is the least multiple of the alignment that holds the request with both tags and is no smaller than
the smallest block. So it grows with the request, leaves less than sixteen bytes of its payload
unasked for, and is rounded already. A tag is written as its size with the flag in the lowest bit;
the word fits in 64 bits exactly if the size does, and reads back as the tag exactly if the size is
even. Every word is that of the tag read from it. -/
theorem Block.sizeFor_exact (request : Nat) (tag : Tag) (word : Nat) :
    (sizeFor request = none ↔ wordLimit - 32 < request) ∧
    (∀ size, sizeFor request = some size ↔ request ≤ wordLimit - 32 ∧
      IsLeast (wholesFrom (max (request + overhead) minSize)) size) ∧
    (∀ size, sizeFor request = some size →
      (∀ less ≤ request, ∃ smaller ≤ size, sizeFor less = some smaller) ∧
      (∃ capacity, payloadCapacity size = .ok capacity ∧ request ≤ capacity ∧
        (0 < request → capacity < request + 16)) ∧
      roundUp size = some size) ∧
    (∀ place, tag.toWord.testBit place =
      if place = 0 then tag.allocated else tag.size.testBit place) ∧
    (tag.toWord < wordLimit ↔ tag.size < wordLimit) ∧
    (Tag.ofWord tag.toWord = tag ↔ tag.size % 2 = 0) ∧
    (Tag.ofWord word).toWord = word := by
  refine ⟨sizeFor_eq_none_iff, fun _ => sizeFor_eq_some_iff, fun size found => ?_,
    tag.testBit_toWord, Tag.toWord_lt_iff, Tag.ofWord_toWord_iff, Tag.toWord_ofWord word⟩
  obtain ⟨-, ⟨whole, -⟩, -⟩ := sizeFor_eq_some_iff.mp found
  exact ⟨fun _ fewer => sizeFor_mono fewer found, payloadCapacity_of_sizeFor found,
    roundUp_eq_self_iff.mpr ⟨whole, sizeFor_lt found⟩⟩

/-- The largest request that has a block, and the one after it. -/
theorem Block.sizeFor_exact_edge :
    sizeFor (wordLimit - 32) = some (wordLimit - 16) ∧
    (∃ smaller ≤ wordLimit - 16, sizeFor 1 = some smaller) ∧
    (∃ capacity, payloadCapacity (wordLimit - 16) = .ok capacity ∧
      wordLimit - 32 ≤ capacity ∧ capacity < wordLimit - 32 + 16) ∧
    roundUp (wordLimit - 16) = some (wordLimit - 16) ∧
    Tag.ofWord (Tag.used (wordLimit - 16)).toWord = .used (wordLimit - 16) ∧
    sizeFor (wordLimit - 31) = none := by
  have found : sizeFor (wordLimit - 32) = some (wordLimit - 16) := by decide
  obtain ⟨-, -, served, -, -, reads, -⟩ :=
    sizeFor_exact (wordLimit - 32) (.used (wordLimit - 16)) 0
  obtain ⟨fewer, ⟨capacity, known, holds, spare⟩, rounded⟩ := served _ found
  obtain ⟨refused, -⟩ := sizeFor_exact (wordLimit - 31) (.used 0) 0
  exact ⟨found, fewer 1 (by decide), ⟨capacity, known, holds, spare (by decide)⟩, rounded,
    reads.mpr (by decide), refused.mpr (by decide)⟩

end BoundaryHeap
