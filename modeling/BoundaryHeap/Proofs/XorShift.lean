import BoundaryHeap.Proofs.Computation
import BoundaryHeap.Workload.XorShift
import Mathlib.Data.FinEnum
import Mathlib.Data.Nat.ModEq
import Mathlib.Data.Nat.Prime.Basic

/-!
The generator of the workloads never runs dry. Each of the three shifts of a step can be taken back,
since no word but zero is its own shifted copy; so a step leads from different states to different
ones, and to zero from zero alone. No seed starts there, and an odd factor makes no other word zero.
-/

namespace BoundaryHeap.Workload.XorShift

/-- The generator after it has given some numbers. -/
def after (g : XorShift) : Nat → XorShift
  | 0 => g
  | steps + 1 => (g.after steps).next.2

/-! ## A step -/

/-- Mixing a shifted copy into a word loses nothing if zero alone is its own shifted copy. -/
theorem injective_xor {shift : UInt64 → UInt64}
    (spreads : ∀ x y, shift (x ^^^ y) = shift x ^^^ shift y) (moves : ∀ x, shift x = x → x = 0) :
    Function.Injective fun x => x ^^^ shift x := by
  intro x y same
  have cancelled : (x ^^^ shift x) ^^^ (y ^^^ shift y) = 0 := UInt64.xor_eq_zero_iff.mpr same
  have swapped : (x ^^^ shift x) ^^^ (y ^^^ shift y) = (shift x ^^^ shift y) ^^^ (x ^^^ y) := by
    ac_rfl
  rw [swapped, ← spreads, UInt64.xor_eq_zero_iff] at cancelled
  exact UInt64.xor_eq_zero_iff.mp (moves _ cancelled)

variable {x count : UInt64}

/-- A shift to the right makes every word but zero smaller. -/
theorem eq_zero_of_shiftRight (some : 0 < count.toNat % 64) (same : x >>> count = x) : x = 0 := by
  have values := congrArg UInt64.toNat same
  rw [UInt64.toNat_shiftRight, Nat.shiftRight_eq_div_pow] at values
  by_contra other
  have positive : 0 < x.toNat := Nat.pos_of_ne_zero fun zero => other (UInt64.toNat_inj.mp zero)
  have smaller := Nat.div_lt_self positive (Nat.one_lt_two_pow (Nat.ne_of_gt some))
  omega

/-- A shift to the left adds the word times an odd factor, which is nothing for zero alone. -/
theorem eq_zero_of_shiftLeft (some : 0 < count.toNat % 64) (same : x <<< count = x) : x = 0 := by
  have values := congrArg UInt64.toNat same
  rw [UInt64.toNat_shiftLeft, Nat.shiftLeft_eq] at values
  have bounded : x.toNat < 2 ^ 64 := x.toNat_lt
  generalize count.toNat % 64 = places at some values
  have power : 1 ≤ 2 ^ places := Nat.one_le_two_pow
  have wraps : x.toNat ≡ x.toNat * 2 ^ places [MOD 2 ^ 64] := by
    rw [Nat.ModEq, values, Nat.mod_eq_of_lt bounded]
  have divides := (Nat.modEq_iff_dvd' (Nat.le_mul_of_pos_right x.toNat power)).mp wraps
  rw [← Nat.mul_sub_one] at divides
  have odd : Odd (2 ^ places - 1) :=
    Nat.Even.sub_odd power ((even_two).pow_of_ne_zero (Nat.ne_of_gt some)) odd_one
  have coprime : Nat.Coprime (2 ^ 64) (2 ^ places - 1) :=
    Nat.Coprime.pow_left 64 (Nat.coprime_two_left.mpr odd)
  exact UInt64.toNat_inj.mp
    (Nat.eq_zero_of_dvd_of_lt (coprime.dvd_of_dvd_mul_right divides) bounded)

theorem injective_xor_shiftRight (count : UInt64) (some : 0 < count.toNat % 64) :
    Function.Injective fun x => x ^^^ (x >>> count) :=
  injective_xor (fun _ _ => UInt64.shiftRight_xor) fun _ => eq_zero_of_shiftRight some

theorem injective_xor_shiftLeft (count : UInt64) (some : 0 < count.toNat % 64) :
    Function.Injective fun x => x ^^^ (x <<< count) :=
  injective_xor (fun _ _ => UInt64.shiftLeft_xor) fun _ => eq_zero_of_shiftLeft some

theorem mix_bijective : Function.Bijective mix :=
  Finite.injective_iff_bijective.mp <|
    ((injective_xor_shiftRight 27 (by decide)).comp
      (injective_xor_shiftLeft 25 (by decide))).comp
        (injective_xor_shiftRight 12 (by decide))

theorem mix_zero : mix 0 = 0 := by decide

/-- The factor of the numbers can be divided out again. -/
theorem eq_zero_of_mul (product : x * 0x2545F4914F6CDD1D = 0) : x = 0 := by
  have inverse : (0x2545F4914F6CDD1D : UInt64) * 0x59071D96D81ECD35 = 1 := by decide
  calc x = x * (0x2545F4914F6CDD1D * 0x59071D96D81ECD35) := by rw [inverse, UInt64.mul_one]
    _ = 0 := by rw [← UInt64.mul_assoc, product, UInt64.zero_mul]

/-! ## Steps and ranges -/

variable {g g' : XorShift} {low high number : Nat}

theorem ofSeed_ne_zero (seed : UInt64) : (ofSeed seed).state ≠ 0 := by
  unfold ofSeed
  by_cases zero : seed = 0
  · rw [if_pos zero]
    decide
  · rwa [if_neg zero]

/-- A step from a state other than zero gives another number than zero, and such a state again. -/
theorem next_ne_zero (live : g.state ≠ 0) : g.next.1 ≠ 0 ∧ g.next.2.state ≠ 0 := by
  have mixed : mix g.state ≠ 0 := fun zero =>
    live (mix_bijective.injective (zero.trans mix_zero.symm))
  exact ⟨fun zero => mixed (eq_zero_of_mul zero), mixed⟩

theorem after_ne_zero (live : g.state ≠ 0) (steps : Nat) : (g.after steps).state ≠ 0 := by
  induction steps with
  | zero => exact live
  | succ steps ih => exact (next_ne_zero ih).2

/-- A range is drawn from exactly if it is one and its width is a word. -/
theorem range_eq_ok_iff : g.range low high = .ok (number, g') ↔
    low ≤ high ∧ high - low + 1 < wordLimit ∧
      number = low + g.next.1.toNat % (high - low + 1) ∧ g' = g.next.2 := by
  constructor
  · intro known
    obtain ⟨width, difference, known⟩ := Fault.bind_eq_ok.mp known
    obtain ⟨span, sum, drawn⟩ := Fault.bind_eq_ok.mp known
    obtain ⟨ordered, rfl⟩ := Checked.eq_sub_of_ok difference
    obtain ⟨fits, rfl⟩ := Checked.add_eq_ok_iff.mp sum
    cases drawn
    exact ⟨ordered, fits, rfl, rfl⟩
  · rintro ⟨ordered, fits, rfl, rfl⟩
    rw [range, Fault.bind_of_ok (Checked.sub_eq_ok ordered),
      Fault.bind_of_ok (Checked.add_eq_ok fits)]
    rfl

theorem range_within (known : g.range low high = .ok (number, g')) :
    low ≤ number ∧ number ≤ high := by
  obtain ⟨ordered, -, rfl, -⟩ := range_eq_ok_iff.mp known
  have below := Nat.mod_lt g.next.1.toNat (Nat.succ_pos (high - low))
  rw [Nat.succ_eq_add_one] at below
  omega

/-- From any seed on the generator never comes to zero and never gives zero. A step maps the states
one to one onto all of them and zero to zero, and every range of at most 64 bits has an answer,
which lies in it. -/
theorem never_stuck (seed : UInt64) :
    (∀ steps, ((ofSeed seed).after steps).state ≠ 0 ∧ ((ofSeed seed).after steps).next.1 ≠ 0) ∧
    ((∀ g : XorShift, g.next.2.state = mix g.state) ∧ Function.Bijective mix ∧ mix 0 = 0) ∧
    ∀ (g : XorShift) (low high : Nat),
      (∃ number, g.range low high = .ok (number, g.next.2) ∧ low ≤ number ∧ number ≤ high) ↔
        low ≤ high ∧ high - low + 1 < wordLimit := by
  refine ⟨fun steps => ?_, ⟨fun _ => rfl, mix_bijective, mix_zero⟩, fun g low high => ?_⟩
  · have live := after_ne_zero (ofSeed_ne_zero seed) steps
    exact ⟨live, (next_ne_zero live).1⟩
  · constructor
    · rintro ⟨number, known, -⟩
      obtain ⟨ordered, fits, -⟩ := range_eq_ok_iff.mp known
      exact ⟨ordered, fits⟩
    · rintro ⟨ordered, fits⟩
      have known := range_eq_ok_iff (g := g).mpr ⟨ordered, fits, rfl, rfl⟩
      exact ⟨_, known, range_within known⟩

end BoundaryHeap.Workload.XorShift
