import BoundaryHeap.Proofs.Generate

/-!
The sizes that generated traces ask for. Every profile draws some of its sizes up to the largest
size it is given and others from a range of its own. The former keep the bound that the largest size
sets; the latter keep it only if it is at least as large as the range reaches, and for every smaller
one there is a seed that goes beyond.
-/

namespace BoundaryHeap

namespace Workload

open Builder (drawn_of_ok alloc_eq_ok realloc_eq_ok)

/-- The largest request that a profile is to make of blocks up to `maxSize` bytes. The binary
profile asks again for sixteen bytes more. -/
def Profile.most (maxSize : Nat) : Profile → Nat
  | .binary => maxSize + 16
  | _ => maxSize

/-- The largest size that a profile draws without regard to the largest size it is given: the length
of a wave whose steps are single bytes, the first size of a block that grows, a small block beside a
large one. -/
def Profile.ownRange : Profile → Nat
  | .churn => 0
  | .sawtooth => 32
  | .reallocGrowth => 64
  | .binary => 64

/-- An operation keeps the bound of its profile, or it allocates a block whose size was drawn
without regard to that bound. -/
def Profile.Asks (profile : Profile) (maxSize : Nat) (op : TraceOp) : Prop :=
  op.size ≤ profile.most maxSize ∨ op.isAlloc ∧ op.size ≤ profile.ownRange

/-- From `b` to `b'` only operations that are allowed are written, behind those of `b`. -/
def Builder.Appends (allowed : TraceOp → Prop) (b b' : Builder) : Prop :=
  ∃ more, b'.ops.toList = b.ops.toList ++ more ∧ ∀ op ∈ more, allowed op

variable {b b' c : Builder} {count maxSize : Nat}

/-! ## Operations of a builder -/

namespace Builder

variable {allowed : TraceOp → Prop} {op : TraceOp} {id size low high number : Nat}

namespace Appends

theorem of_eq (ops : b'.ops = b.ops) : Appends allowed b b' := by
  refine ⟨[], ?_, fun _ never => absurd never List.not_mem_nil⟩
  rw [ops, List.append_nil]

theorem push (ops : b'.ops = b.ops.push op) (here : allowed op) : Appends allowed b b' :=
  ⟨[op], by rw [ops, Array.toList_push], List.forall_mem_singleton.mpr here⟩

theorem trans (first : Appends allowed b c) (second : Appends allowed c b') :
    Appends allowed b b' := by
  obtain ⟨more, ops, here⟩ := first
  obtain ⟨further, ops', there⟩ := second
  refine ⟨more ++ further, ?_, List.forall_mem_append.mpr ⟨here, there⟩⟩
  rw [ops', ops, List.append_assoc]

theorem mem (appends : Appends allowed b b') (member : op ∈ b.ops.toList) :
    op ∈ b'.ops.toList := by
  obtain ⟨more, ops, -⟩ := appends
  rw [ops]
  exact List.mem_append_left more member

/-- What every round appends, the rounds together append. -/
theorem repeatUntil {σ : Type} {round : σ × Builder → Except Fault (σ × Builder)}
    (step : ∀ state state', round state = .ok state' → Appends allowed state.2 state'.2)
    {rounds : Nat} {state state' : σ × Builder}
    (known : repeatUntil count round rounds state = .ok state') :
    Appends allowed state.2 state'.2 := by
  induction rounds generalizing state with
  | zero =>
    cases known
    exact .of_eq rfl
  | succ rounds ih =>
    rw [Workload.repeatUntil] at known
    split at known
    · obtain ⟨middle, ran, rest⟩ := Fault.bind_eq_ok.mp known
      exact (step _ _ ran).trans (ih rest)
    · cases known
      exact .of_eq rfl

theorem repeatRound {round : Builder → Except Fault Builder}
    (step : ∀ b b', round b = .ok b' → Appends allowed b b')
    (known : repeatRound count round b = .ok b') : Appends allowed b b' := by
  obtain ⟨⟨_, c⟩, ran, same⟩ := Fault.bind_eq_ok.mp known
  cases same
  refine repeatUntil (fun state state' round => ?_) ran
  obtain ⟨c, once, same⟩ := Fault.bind_eq_ok.mp round
  cases same
  exact step _ _ once

end Appends

theorem draw_appends (known : b.draw low high = .ok (number, b')) :
    low ≤ number ∧ number ≤ high ∧ Appends allowed b b' :=
  have drawn := drawn_of_ok known
  ⟨drawn.low, drawn.high, .of_eq drawn.ops⟩

theorem alloc_ops (known : b.alloc size = .ok (id, b')) : b'.ops = b.ops.push (.alloc id size) := by
  obtain ⟨rfl, rfl⟩ := alloc_eq_ok known
  rfl

theorem alloc_mem (known : b.alloc size = .ok (id, b')) : .alloc id size ∈ b'.ops.toList := by
  rw [alloc_ops known, Array.toList_push]
  exact List.mem_concat_self

theorem alloc_appends (here : ∀ id, allowed (.alloc id size))
    (known : b.alloc size = .ok (id, b')) : Appends allowed b b' :=
  .push (alloc_ops known) (here id)

theorem realloc_appends (here : allowed (.realloc id size))
    (known : b.realloc id size = .ok b') : Appends allowed b b' :=
  .push (by rw [realloc_eq_ok known]; rfl) here

theorem pickLive_appends {picked : Option Nat} (known : b.pickLive = .ok (picked, b')) :
    Appends allowed b b' := by
  rw [pickLive] at known
  split at known
  · cases known
    exact .of_eq rfl
  · obtain ⟨⟨place, c⟩, drawn, same⟩ := Fault.bind_eq_ok.mp known
    cases same
    exact (draw_appends drawn).2.2

theorem allocAll_appends {sizes ids : List Nat}
    (here : ∀ size ∈ sizes, ∀ id, allowed (.alloc id size))
    (known : b.allocAll sizes = .ok (ids, b')) : Appends allowed b b' := by
  induction sizes generalizing b ids with
  | nil =>
    cases known
    exact .of_eq rfl
  | cons size rest ih =>
    obtain ⟨first, here⟩ := List.forall_mem_cons.mp here
    obtain ⟨⟨id, c⟩, allocated, known⟩ := Fault.bind_eq_ok.mp known
    obtain ⟨⟨others, d⟩, rest, same⟩ := Fault.bind_eq_ok.mp known
    cases same
    exact (alloc_appends first allocated).trans (ih here rest)

/-- Every size that is allocated is that of an operation. -/
theorem allocAll_mem {sizes ids : List Nat} (known : b.allocAll sizes = .ok (ids, b'))
    (member : size ∈ sizes) : ∃ id, .alloc id size ∈ b'.ops.toList := by
  induction sizes generalizing b ids with
  | nil => cases member
  | cons first rest ih =>
    obtain ⟨⟨id, c⟩, allocated, known⟩ := Fault.bind_eq_ok.mp known
    obtain ⟨⟨others, d⟩, further, same⟩ := Fault.bind_eq_ok.mp known
    cases same
    rcases List.mem_cons.mp member with rfl | later
    · have kept : Appends (fun _ => True) c b' := allocAll_appends (fun _ _ _ => trivial) further
      exact ⟨id, kept.mem (alloc_mem allocated)⟩
    · exact ih further later

section Releases

variable (releases : ∀ id, allowed (.free id))

include releases

theorem free_appends (known : b.free id = .ok b') : Appends allowed b b' := by
  rw [free] at known
  split at known
  · cases known
    exact .of_eq rfl
  · obtain ⟨liveBytes, -, same⟩ := Fault.bind_eq_ok.mp known
    cases same
    exact .push rfl (releases id)

theorem freeAll_appends {ids : List Nat} (known : b.freeAll ids = .ok b') :
    Appends allowed b b' := by
  induction ids generalizing b with
  | nil =>
    cases known
    exact .of_eq rfl
  | cons id rest ih =>
    obtain ⟨c, freed, rest⟩ := Fault.bind_eq_ok.mp known
    exact (free_appends releases freed).trans (ih rest)

end Releases

end Builder

open Builder (Appends draw_appends alloc_appends realloc_appends pickLive_appends allocAll_appends
  free_appends freeAll_appends)

/-! ## Rounds -/

namespace Profile

theorem asks_free (profile : Profile) (id : Nat) : profile.Asks maxSize (.free id) :=
  .inl (Nat.zero_le _)

theorem asks_of_le {profile : Profile} {op : TraceOp} (within : op.size ≤ maxSize) :
    profile.Asks maxSize op := by
  refine .inl (within.trans ?_)
  cases profile
  case binary => exact Nat.le_add_right ..
  all_goals exact Nat.le_refl _

theorem asks_alloc {profile : Profile} {size : Nat} (within : size ≤ profile.ownRange) (id : Nat) :
    profile.Asks maxSize (.alloc id size) := .inr ⟨rfl, within⟩

end Profile

open Profile (asks_free asks_of_le asks_alloc)

theorem Churn.round_appends (known : Churn.round maxSize b = .ok b') :
    Appends (Profile.churn.Asks maxSize) b b' := by
  obtain ⟨⟨roll, b₁⟩, rolled, known⟩ := Fault.bind_eq_ok.mp known
  obtain ⟨-, -, first⟩ := draw_appends rolled
  obtain ⟨⟨size, b₂⟩, drawn, known⟩ := Fault.bind_eq_ok.mp known
  obtain ⟨-, within, second⟩ := draw_appends drawn
  obtain ⟨⟨picked, b₃⟩, chosen, known⟩ := Fault.bind_eq_ok.mp known
  refine (first.trans (second.trans (pickLive_appends chosen))).trans ?_
  have allocates (known : (do return (← b₃.alloc size).2) = Except.ok (ε := Fault) b') :
      Appends (Profile.churn.Asks maxSize) b₃ b' := by
    obtain ⟨⟨id, c⟩, allocated, same⟩ := Fault.bind_eq_ok.mp known
    cases same
    exact alloc_appends (fun id => asks_of_le within) allocated
  cases picked with
  | none => exact allocates known
  | some id =>
    dsimp only at known
    split at known
    · exact realloc_appends (asks_of_le within) known
    split at known
    · exact free_appends (asks_free _) known
    · exact allocates known

theorem Sawtooth.round_appends (known : Sawtooth.round maxSize b = .ok b') :
    Appends (Profile.sawtooth.Asks maxSize) b b' := by
  obtain ⟨⟨wave, b₁⟩, drawn, known⟩ := Fault.bind_eq_ok.mp known
  obtain ⟨-, short, first⟩ := draw_appends drawn
  obtain ⟨⟨ids, b₂⟩, allocated, freed⟩ := Fault.bind_eq_ok.mp known
  refine first.trans (.trans (allocAll_appends ?_ allocated) (freeAll_appends (asks_free _) freed))
  intro size member id
  obtain ⟨i, listed, rfl⟩ := List.mem_map.mp member
  have lower : (i + 1) * max (maxSize / wave) 1 ≤ wave * max (maxSize / wave) 1 :=
    Nat.mul_le_mul_right _ (List.mem_range.mp listed)
  rw [← Nat.mul_max_mul_left wave, Nat.mul_one] at lower
  -- the steps are single bytes where a wave is longer than the largest size
  rcases le_max_iff.mp lower with whole | single
  · exact asks_of_le (whole.trans (Nat.mul_div_le maxSize wave))
  · exact .inr ⟨rfl, single.trans short⟩

namespace Binary

theorem plant_appends {low pairs : Nat} {smalls larges : List Nat}
    (known : plant low maxSize b pairs = .ok (smalls, larges, b')) :
    Appends (Profile.binary.Asks maxSize) b b' := by
  induction pairs generalizing b smalls larges with
  | zero =>
    cases known
    exact .of_eq rfl
  | succ pairs ih =>
    obtain ⟨⟨size, b₁⟩, drawn, known⟩ := Fault.bind_eq_ok.mp known
    obtain ⟨-, small, first⟩ := draw_appends drawn
    obtain ⟨⟨one, b₂⟩, allocated, known⟩ := Fault.bind_eq_ok.mp known
    have one : Appends (Profile.binary.Asks maxSize) b b₂ :=
      first.trans (alloc_appends (asks_alloc small) allocated)
    obtain ⟨⟨size', b₃⟩, drawn, known⟩ := Fault.bind_eq_ok.mp known
    obtain ⟨-, large, second⟩ := draw_appends drawn
    obtain ⟨⟨other, b₄⟩, allocated, known⟩ := Fault.bind_eq_ok.mp known
    have other : Appends (Profile.binary.Asks maxSize) b₂ b₄ :=
      second.trans (alloc_appends (fun id => asks_of_le large) allocated)
    obtain ⟨⟨_, _, c⟩, planted, same⟩ := Fault.bind_eq_ok.mp known
    cases same
    exact (one.trans other).trans (ih planted)

/-- The first small block planted has the first size drawn. -/
theorem plant_mem {low pairs size : Nat} {smalls larges : List Nat}
    (known : plant low maxSize b (pairs + 1) = .ok (smalls, larges, b'))
    (drawn : b.draw 8 64 = .ok (size, c)) : ∃ id, .alloc id size ∈ b'.ops.toList := by
  rw [plant, Fault.bind_of_ok drawn] at known
  obtain ⟨⟨one, b₁⟩, allocated, known⟩ := Fault.bind_eq_ok.mp known
  obtain ⟨⟨size', b₂⟩, drawn, known⟩ := Fault.bind_eq_ok.mp known
  obtain ⟨-, large, first⟩ := draw_appends drawn
  obtain ⟨⟨other, b₃⟩, allocated', known⟩ := Fault.bind_eq_ok.mp known
  obtain ⟨⟨_, _, b₄⟩, planted, same⟩ := Fault.bind_eq_ok.mp known
  cases same
  have rest : Appends (Profile.binary.Asks maxSize) b₁ b' :=
    (first.trans (alloc_appends (fun id => asks_of_le large) allocated')).trans
      (plant_appends planted)
  exact ⟨one, rest.mem (Builder.alloc_mem allocated)⟩

/-- The second half of a round: the large blocks make room for as many larger ones, and everything
is released. -/
def refill (maxSize pairs : Nat) (smalls larges : List Nat) (b : Builder) :
    Except Fault Builder := do
  let b ← b.freeAll larges
  let bigger ← Checked.add maxSize 16
  let (biggers, b) ← b.allocAll (List.replicate pairs bigger)
  b.freeAll (smalls ++ biggers)

/-- A round draws how many pairs there are, allocates them and goes on to the second half. -/
theorem round_eq_ok (known : round maxSize b = .ok b') :
    ∃ pairs b₁ smalls larges b₂, b.draw 8 24 = .ok (pairs, b₁) ∧
      plant (max (maxSize / 2) 1) maxSize b₁ pairs = .ok (smalls, larges, b₂) ∧
      refill maxSize pairs smalls larges b₂ = .ok b' := by
  obtain ⟨⟨pairs, b₁⟩, drawn, known⟩ := Fault.bind_eq_ok.mp known
  obtain ⟨⟨smalls, larges, b₂⟩, planted, refilled⟩ := Fault.bind_eq_ok.mp known
  exact ⟨pairs, b₁, smalls, larges, b₂, drawn, planted, refilled⟩

theorem refill_appends {pairs : Nat} {smalls larges : List Nat}
    (known : refill maxSize pairs smalls larges b = .ok b') :
    Appends (Profile.binary.Asks maxSize) b b' := by
  obtain ⟨b₁, freed, known⟩ := Fault.bind_eq_ok.mp known
  obtain ⟨bigger, sum, known⟩ := Fault.bind_eq_ok.mp known
  obtain rfl := Checked.eq_add_of_ok sum
  obtain ⟨⟨biggers, b₂⟩, allocated, freed'⟩ := Fault.bind_eq_ok.mp known
  refine (freeAll_appends (asks_free _) freed).trans
    (.trans (allocAll_appends ?_ allocated) (freeAll_appends (asks_free _) freed'))
  intro size member id
  obtain rfl := List.eq_of_mem_replicate member
  exact .inl (Nat.le_refl _)

theorem round_appends (known : round maxSize b = .ok b') :
    Appends (Profile.binary.Asks maxSize) b b' := by
  obtain ⟨pairs, b₁, smalls, larges, b₂, drawn, planted, refilled⟩ := round_eq_ok known
  obtain ⟨-, -, first⟩ := draw_appends drawn
  exact first.trans ((plant_appends planted).trans (refill_appends refilled))

end Binary

namespace ReallocGrowth

theorem plant_appends {number : Nat} {ids : List Nat} (known : plant b number = .ok (ids, b')) :
    Appends (Profile.reallocGrowth.Asks maxSize) b b' := by
  induction number generalizing b ids with
  | zero =>
    cases known
    exact .of_eq rfl
  | succ number ih =>
    obtain ⟨⟨size, b₁⟩, drawn, known⟩ := Fault.bind_eq_ok.mp known
    obtain ⟨-, small, first⟩ := draw_appends drawn
    obtain ⟨⟨id, b₂⟩, allocated, known⟩ := Fault.bind_eq_ok.mp known
    obtain ⟨⟨_, c⟩, planted, same⟩ := Fault.bind_eq_ok.mp known
    cases same
    exact (first.trans (alloc_appends (asks_alloc small) allocated)).trans (ih planted)

/-- The first block planted has the first size drawn. -/
theorem plant_mem {number size : Nat} {ids : List Nat}
    (known : plant b (number + 1) = .ok (ids, b')) (drawn : b.draw 1 64 = .ok (size, c)) :
    ∃ id, .alloc id size ∈ b'.ops.toList := by
  rw [plant, Fault.bind_of_ok drawn] at known
  obtain ⟨⟨id, b₁⟩, allocated, known⟩ := Fault.bind_eq_ok.mp known
  obtain ⟨⟨_, b₂⟩, planted, same⟩ := Fault.bind_eq_ok.mp known
  cases same
  have rest : Appends (Profile.reallocGrowth.Asks 0) b₁ b' := plant_appends planted
  exact ⟨id, rest.mem (Builder.alloc_mem allocated)⟩

/-- A block grows up to the largest size and no further; where it starts over, its size is one that
does not depend on it. -/
theorem grow_appends {growing growing' : Array Nat}
    (known : grow maxSize growing b = .ok (growing', b')) :
    Appends (Profile.reallocGrowth.Asks maxSize) b b' := by
  obtain ⟨⟨slot, b₁⟩, drawn, known⟩ := Fault.bind_eq_ok.mp known
  obtain ⟨-, -, first⟩ := draw_appends drawn
  obtain ⟨⟨growth, b₂⟩, drawn, known⟩ := Fault.bind_eq_ok.mp known
  obtain ⟨-, -, second⟩ := draw_appends drawn
  obtain ⟨next, -, known⟩ := Fault.bind_eq_ok.mp known
  refine (first.trans second).trans ?_
  split at known
  next large =>
    obtain ⟨b₃, freed, known⟩ := Fault.bind_eq_ok.mp known
    obtain ⟨⟨size, b₄⟩, drawn, known⟩ := Fault.bind_eq_ok.mp known
    obtain ⟨-, small, third⟩ := draw_appends drawn
    obtain ⟨⟨fresh, b₅⟩, allocated, same⟩ := Fault.bind_eq_ok.mp known
    cases same
    exact ((free_appends (asks_free _) freed).trans third).trans
      (alloc_appends (asks_alloc small) allocated)
  next fits =>
    obtain ⟨c, resized, same⟩ := Fault.bind_eq_ok.mp known
    cases same
    exact realloc_appends (asks_of_le (Nat.le_of_not_lt fits)) resized

theorem renew_appends {p p' : Population} (known : renew p b = .ok (p', b')) :
    Appends (Profile.reallocGrowth.Asks maxSize) b b' := by
  obtain ⟨⟨size, b₁⟩, drawn, known⟩ := Fault.bind_eq_ok.mp known
  obtain ⟨-, small, first⟩ := draw_appends drawn
  obtain ⟨⟨id, b₂⟩, allocated, known⟩ := Fault.bind_eq_ok.mp known
  refine (first.trans (alloc_appends (asks_alloc small) allocated)).trans ?_
  dsimp only at known
  split at known
  · split at known
    · obtain ⟨c, freed, same⟩ := Fault.bind_eq_ok.mp known
      cases same
      exact free_appends (asks_free _) freed
    · cases known
      exact .of_eq rfl
  · cases known
    exact .of_eq rfl

theorem round_appends {p p' : Population} (known : round maxSize (p, b) = .ok (p', b')) :
    Appends (Profile.reallocGrowth.Asks maxSize) b b' := by
  rw [round_eq] at known
  obtain ⟨⟨growing, b₁⟩, grown, renewed⟩ := Fault.bind_eq_ok.mp known
  exact (grow_appends grown).trans (renew_appends renewed)

end ReallocGrowth

/-! ## Whole traces -/

variable {profile : Profile} {seed : UInt64} {trace : Trace}

theorem build_appends (known : build profile seed count maxSize = .ok b) :
    Appends (profile.Asks maxSize) (.ofSeed seed) b := by
  cases profile with
  | churn => exact .repeatRound (fun _ _ => Churn.round_appends) known
  | sawtooth => exact .repeatRound (fun _ _ => Sawtooth.round_appends) known
  | binary => exact .repeatRound (fun _ _ => Binary.round_appends) known
  | reallocGrowth =>
    obtain ⟨⟨growers, b₁⟩, drawn, known⟩ := Fault.bind_eq_ok.mp known
    obtain ⟨-, -, first⟩ := draw_appends drawn
    obtain ⟨⟨growing, b₂⟩, planted, known⟩ := Fault.bind_eq_ok.mp known
    obtain ⟨⟨population, c⟩, ran, same⟩ := Fault.bind_eq_ok.mp known
    cases same
    exact (first.trans (ReallocGrowth.plant_appends planted)).trans
      (.repeatUntil (fun _ _ => ReallocGrowth.round_appends) ran)

/-- Every operation of a generated trace is one that its profile asks for. -/
theorem generate_asks (known : generate profile seed count maxSize = .ok trace) :
    ∀ op ∈ trace.ops, profile.Asks (max maxSize 16) op := by
  obtain ⟨b, built, same⟩ := Fault.bind_eq_ok.mp known
  cases same
  obtain ⟨more, ops, asks⟩ := build_appends built
  refine List.forall_mem_append.mpr ⟨?_, fun op member => ?_⟩
  · rw [ops]
    exact asks
  · obtain ⟨id, -, rfl⟩ := List.mem_map.mp member
    exact asks_free profile id

/-! ## Sizes beyond the bound -/

/-- A draw behind another, where the two of them together are known. -/
theorem second_draw {low high number : Nat} (low' high' second : Nat)
    (first : b.draw low high = .ok (number, c))
    (known : (do return (← (← b.draw low high).2.draw low' high').1) =
      Except.ok (ε := Fault) second) :
    ∃ b', c.draw low' high' = .ok (second, b') := by
  rw [Fault.bind_of_ok first] at known
  obtain ⟨⟨number', b'⟩, drawn, same⟩ := Fault.bind_eq_ok.mp known
  cases same
  exact ⟨b', drawn⟩

/-- A single operation asked for takes a single round. -/
theorem round_of_repeatRound_one {round : Builder → Except Fault Builder}
    (known : repeatRound 1 round (.ofSeed seed) = .ok b) : round (.ofSeed seed) = .ok b := by
  obtain ⟨⟨_, c⟩, ran, same⟩ := Fault.bind_eq_ok.mp known
  cases same
  obtain ⟨middle, once, rest⟩ := Fault.bind_eq_ok.mp ran
  cases rest
  obtain ⟨c, once, same⟩ := Fault.bind_eq_ok.mp once
  cases same
  exact once

/-- With this seed the first wave is one of 32 blocks. -/
theorem Sawtooth.steep (small : maxSize < 32) (known : build .sawtooth 11 1 maxSize = .ok b) :
    ∃ id, .alloc id 32 ∈ b.ops.toList := by
  obtain ⟨⟨wave, b₁⟩, drawn, known⟩ := Fault.bind_eq_ok.mp (round_of_repeatRound_one known)
  have longest : ((Builder.ofSeed 11).draw 8 32).map (·.1) = .ok 32 := by decide +kernel
  rw [drawn] at longest
  obtain rfl : wave = 32 := Except.ok.inj longest
  obtain ⟨⟨ids, b₂⟩, allocated, freed⟩ := Fault.bind_eq_ok.mp known
  have step : max (maxSize / 32) 1 = 1 := by
    rw [Nat.div_eq_of_lt small]
    rfl
  have last : 32 ∈ (List.range 32).map fun i => (i + 1) * max (maxSize / 32) 1 := by
    rw [step]
    decide
  obtain ⟨id, written⟩ := Builder.allocAll_mem allocated last
  have rest : Appends (Profile.sawtooth.Asks maxSize) b₂ b := freeAll_appends (asks_free _) freed
  exact ⟨id, rest.mem written⟩

/-- With this seed the first block that grows starts with 64 bytes. -/
theorem ReallocGrowth.steep (known : build .reallocGrowth 9 1 maxSize = .ok b) :
    ∃ id, .alloc id 64 ∈ b.ops.toList := by
  obtain ⟨⟨growers, b₁⟩, counted, known⟩ := Fault.bind_eq_ok.mp known
  obtain ⟨⟨growing, b₂⟩, planted, known⟩ := Fault.bind_eq_ok.mp known
  obtain ⟨⟨population, b₃⟩, ran, same⟩ := Fault.bind_eq_ok.mp known
  cases same
  have some : 1 ≤ growers := (drawn_of_ok counted).low
  obtain ⟨others, rfl⟩ := Nat.exists_eq_add_of_le' some
  obtain ⟨c, drawn⟩ := second_draw 1 64 64 counted (by decide +kernel)
  obtain ⟨id, written⟩ := plant_mem planted drawn
  exact ⟨id, (Appends.repeatUntil (fun _ _ => ReallocGrowth.round_appends) ran).mem written⟩

/-- With this seed the first small block has 64 bytes. -/
theorem Binary.steep (known : build .binary 50 1 maxSize = .ok b) :
    ∃ id, .alloc id 64 ∈ b.ops.toList := by
  obtain ⟨pairs, b₁, smalls, larges, b₂, counted, planted, refilled⟩ :=
    round_eq_ok (round_of_repeatRound_one known)
  have some : 1 ≤ pairs := Nat.le_trans (by decide) (drawn_of_ok counted).low
  obtain ⟨others, rfl⟩ := Nat.exists_eq_add_of_le' some
  obtain ⟨c, drawn⟩ := second_draw 8 64 64 counted (by decide +kernel)
  obtain ⟨id, written⟩ := plant_mem planted drawn
  exact ⟨id, (refill_appends refilled).mem written⟩

/-- For every largest size below what a profile draws without regard to it there is a seed with
which the profile goes beyond its bound. -/
theorem exists_beyond (below : profile.most (max maxSize 16) < profile.ownRange) :
    ∃ seed trace, generate profile seed 1 maxSize = .ok trace ∧
      ∃ op ∈ trace.ops, profile.most (max maxSize 16) < op.size := by
  have some : 16 ≤ max maxSize 16 := Nat.le_max_right ..
  generalize known : max maxSize 16 = largest at *
  have small : largest < 64 := by
    cases profile <;> simp only [Profile.most, Profile.ownRange] at below <;> omega
  have builds (seed : UInt64) : ∃ b, build profile seed 1 largest = .ok b := by
    have computes : Computes (reach 1 largest) _ (build profile seed 1 largest) :=
      build_computes some
    rcases computes.overflow_or_ok with ⟨-, huge⟩ | ⟨b, built, -⟩
    · simp only [reach, wordLimit] at huge
      omega
    · exact ⟨b, built⟩
  have beyond {seed : UInt64} {size : Nat} (large : profile.most largest < size)
      (writes : ∀ b, build profile seed 1 largest = .ok b →
        ∃ id, TraceOp.alloc id size ∈ b.ops.toList) :
      ∃ seed trace, generate profile seed 1 maxSize = .ok trace ∧
        ∃ op ∈ trace.ops, profile.most largest < op.size := by
    obtain ⟨b, built⟩ := builds seed
    obtain ⟨id, written⟩ := writes b built
    refine ⟨seed, b.finish, ?_, _, List.mem_append_left _ written, large⟩
    rw [generate, known, built]
    rfl
  cases profile with
  | churn => exact absurd below (Nat.not_lt_zero _)
  | sawtooth => exact beyond below fun b => Sawtooth.steep below
  | reallocGrowth => exact beyond below fun b => ReallocGrowth.steep
  | binary => exact beyond below fun b => Binary.steep

/-- Every request of a generated trace keeps the bound of its profile, or is for a new block of a
size that the profile draws without regard to it; so the bound is kept by every trace exactly if it
is as large as what the profile draws so. -/
theorem generate_sizes (profile : Profile) (maxSize : Nat) :
    (∀ seed count trace, generate profile seed count maxSize = .ok trace →
      ∀ op ∈ trace.ops, op.size ≤ profile.most (max maxSize 16) ∨
        op.isAlloc ∧ op.size ≤ profile.ownRange) ∧
    ((∀ seed count trace, generate profile seed count maxSize = .ok trace →
      ∀ op ∈ trace.ops, op.size ≤ profile.most (max maxSize 16)) ↔
        profile.ownRange ≤ profile.most (max maxSize 16)) := by
  refine ⟨fun seed count trace known => generate_asks known, fun kept => ?_, fun large => ?_⟩
  · by_contra below
    obtain ⟨seed, trace, known, op, member, beyond⟩ := exists_beyond (Nat.lt_of_not_le below)
    exact absurd (kept seed 1 trace known op member) (Nat.not_le_of_lt beyond)
  · intro seed count trace known op member
    rcases generate_asks known op member with within | ⟨-, within⟩
    · exact within
    · exact within.trans large

end Workload

end BoundaryHeap
