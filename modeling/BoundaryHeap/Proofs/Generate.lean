import BoundaryHeap.Proofs.Builder

/-!
Generated traces. Every round of every profile keeps the builder's account of its trace and writes
something, so that the rounds come to an end with as many operations as were asked for, unless a
number leaves 64 bits; and the closing releases leave nothing live. So a generated trace is orderly,
whatever the profile, and suggests the most bytes that it has live.
-/

namespace BoundaryHeap

open TraceOp (liveIds peakBytes isAlloc)

namespace Workload

open Builder (Tracks Keeps Drawn draw_computes)

variable {b b' : Builder} {count maxSize : Nat}

/-! ## Rounds -/

/-- A bound on all numbers on the way to `count` operations. No round writes more than 144: a binary
round has at most 24 pairs, and six operations for each of them. No request is larger than 64 bytes
and the largest size together. -/
abbrev reach (count maxSize : Nat) : Nat := (count + 144) * (maxSize + 64)

theorem size_le_reach : maxSize + 64 ≤ reach count maxSize :=
  Nat.le_mul_of_pos_left _ (Nat.succ_pos _)

theorem count_le_reach : count + 144 ≤ reach count maxSize :=
  Nat.le_mul_of_pos_right _ (Nat.succ_pos _)

/-- A round keeps the account of the trace and writes something, but not too much. -/
structure Advances (limit : Nat) (b b' : Builder) : Prop where
  keeps : b'.Keeps limit
  longer : b.ops.size < b'.ops.size
  most : b'.ops.size ≤ b.ops.size + 144

/-- The trace under construction is long enough, and not much longer. -/
structure Reaches (count limit : Nat) (b : Builder) : Prop where
  keeps : b.Keeps limit
  enough : count ≤ b.ops.size
  most : b.ops.size ≤ count + 144

/-- The rounds come to an end because the trace is long enough. What every round keeps holds then,
and all numbers on the way are bounded as they are in one round. -/
theorem repeatUntil_computes {σ : Type} {bound limit : Nat} {holds : σ × Builder → Prop}
    {round : σ × Builder → Except Fault (σ × Builder)}
    (step : ∀ state, holds state → state.2.Keeps limit → state.2.ops.size < count →
      Computes bound (fun state' => holds state' ∧ Advances limit state.2 state'.2) (round state))
    {rounds : Nat} {state : σ × Builder} (start : holds state) (keeps : state.2.Keeps limit)
    (enough : count ≤ state.2.ops.size + rounds)
    (most : state.2.ops.size ≤ count + 144) :
    Computes bound (fun state' => holds state' ∧ Reaches count limit state'.2)
      (repeatUntil count round rounds state) := by
  induction rounds generalizing state with
  | zero => exact ⟨start, keeps, enough, most⟩
  | succ rounds ih =>
    rw [repeatUntil]
    split
    next short =>
      refine Computes.bind (step state start keeps short) ?_
      rintro middle ⟨still, advances⟩
      have longer := advances.longer
      have most := advances.most
      exact ih still advances.keeps (by omega) (by omega)
    next long => exact ⟨start, keeps, Nat.le_of_not_lt long, most⟩

theorem repeatRound_computes {bound limit : Nat} {round : Builder → Except Fault Builder}
    (step : ∀ b, b.Keeps limit → b.ops.size < count → Computes bound (Advances limit b) (round b))
    (keeps : b.Keeps limit) (empty : b.ops.size = 0) :
    Computes bound (Reaches count limit) (repeatRound count round b) := by
  have step : ∀ state : Unit × Builder, True → state.2.Keeps limit → state.2.ops.size < count →
      Computes bound (fun state' => True ∧ Advances limit state.2 state'.2)
        (do return ((), ← round state.2)) := by
    intro state _ keeps short
    refine Computes.bind (step state.2 keeps short) fun b' advances => ?_
    exact ⟨trivial, advances⟩
  refine Computes.bind (repeatUntil_computes step trivial keeps (Nat.le_add_left ..) ?_) ?_
  · exact empty.trans_le (Nat.zero_le _)
  · rintro ⟨_, b'⟩ ⟨-, reaches⟩
    exact reaches

theorem Binary.plant_computes {low pairs : Nat} (positive : 0 < low) (ordered : low ≤ maxSize)
    (keeps : b.Keeps (maxSize + 64)) (room : b.ops.size + 2 * pairs ≤ count + 144) :
    Computes (reach count maxSize) (fun (smalls, larges, b') => smalls.length = pairs ∧
      larges.length = pairs ∧ b'.Keeps (maxSize + 64) ∧ b'.ops.size = b.ops.size + 2 * pairs)
      (Binary.plant low maxSize b pairs) := by
  have sizes : maxSize + 64 ≤ reach count maxSize := size_le_reach
  induction pairs generalizing b with
  | zero => exact ⟨rfl, rfl, keeps, rfl⟩
  | succ pairs ih =>
    refine Computes.bind (draw_computes (by omega) (by omega)) ?_
    rintro ⟨size, b₁⟩ first
    obtain ⟨least, small⟩ : 8 ≤ size ∧ size ≤ 64 := ⟨first.low, first.high⟩
    have length₁ : b₁.ops.size = b.ops.size := congrArg Array.size first.ops
    refine Computes.bind
      ((first.keeps keeps).alloc_computes (by omega) (by omega) (by dsimp only; omega)) ?_
    rintro ⟨one, b₂⟩ ⟨-, keeps₂, longer₂⟩
    refine Computes.bind (draw_computes ordered (by omega)) ?_
    rintro ⟨size', b₃⟩ second
    obtain ⟨some, large⟩ : low ≤ size' ∧ size' ≤ maxSize := ⟨second.low, second.high⟩
    have length₃ : b₃.ops.size = b₂.ops.size := congrArg Array.size second.ops
    dsimp only at longer₂
    refine Computes.bind
      ((second.keeps keeps₂).alloc_computes (by omega) (by omega) (by dsimp only; omega)) ?_
    rintro ⟨other, b₄⟩ ⟨-, keeps₄, longer₄⟩
    dsimp only at longer₄
    refine Computes.bind (ih keeps₄ (by omega)) ?_
    rintro ⟨smalls, larges, b₅⟩ ⟨manySmalls, manyLarges, keeps₅, longer₅⟩
    refine ⟨congrArg Nat.succ manySmalls, congrArg Nat.succ manyLarges, keeps₅, ?_⟩
    omega

section Rounds

variable (some : 16 ≤ maxSize) (keeps : b.Keeps (maxSize + 64)) (short : b.ops.size < count)

include some keeps short

theorem Churn.round_computes : Computes (reach count maxSize) (Advances (maxSize + 64) b)
    (Churn.round maxSize b) := by
  have sizes : maxSize + 64 ≤ reach count maxSize := size_le_reach
  have counts : count + 144 ≤ reach count maxSize := count_le_reach
  refine Computes.bind (draw_computes (Nat.zero_le _) (by omega)) ?_
  rintro ⟨roll, b₁⟩ first
  refine Computes.bind (draw_computes (by omega) (by omega)) ?_
  rintro ⟨size, b₂⟩ second
  have ops : b₂.ops = b.ops := second.ops.trans first.ops
  have keeps₂ := second.keeps (first.keeps keeps)
  refine Computes.bind (keeps₂.pickLive_computes (by rw [ops]; omega)) ?_
  rintro ⟨picked, b₃⟩ ⟨keeps₃, same, live⟩
  have length : b₃.ops.size = b.ops.size := congrArg Array.size (same.trans ops)
  have positive : 0 < size := second.low
  have within : size ≤ maxSize + 64 := second.high.trans (Nat.le_add_right ..)
  have room : b₃.ops.size < count + 144 := by omega
  have writes : ∀ b', b'.Keeps (maxSize + 64) → b'.ops.size = b₃.ops.size + 1 →
      Advances (maxSize + 64) b b' :=
    fun b' keeps longer => ⟨keeps, by omega, by omega⟩
  have allocates : Computes (reach count maxSize) (Advances (maxSize + 64) b)
      (do return (← b₃.alloc size).2) := by
    refine Computes.bind (keeps₃.alloc_computes positive within room) ?_
    rintro ⟨id, b'⟩ ⟨-, keeps', longer⟩
    exact writes b' keeps' longer
  cases picked with
  | none => exact allocates
  | some id =>
    by_cases resizes : 80 ≤ roll
    · simp only [if_pos resizes]
      refine (keeps₃.realloc_computes (live id rfl) positive within room).imp ?_
      exact fun b' known => writes b' known.2.1 known.2.2
    by_cases releases : 45 ≤ roll
    · simp only [if_neg resizes, if_pos releases]
      refine (keeps₃.free_computes id).imp ?_
      exact fun b' known => writes b' known.2.1 (known.2.2.2.2 (live id rfl))
    · simp only [if_neg resizes, if_neg releases]
      exact allocates

theorem Sawtooth.round_computes : Computes (reach count maxSize) (Advances (maxSize + 64) b)
    (Sawtooth.round maxSize b) := by
  have counts : count + 144 ≤ reach count maxSize := count_le_reach
  refine Computes.bind (draw_computes (by omega) (by omega)) ?_
  rintro ⟨wave, b₁⟩ drawn
  obtain ⟨low, high⟩ : 8 ≤ wave ∧ wave ≤ 32 := ⟨drawn.low, drawn.high⟩
  have ops : b₁.ops = b.ops := drawn.ops
  have tallest : wave * max (maxSize / wave) 1 ≤ maxSize + 64 := by
    rw [← Nat.mul_max_mul_left, Nat.mul_one]
    have whole := Nat.mul_div_le maxSize wave
    omega
  have sized : ∀ size ∈ (List.range wave).map (fun i => (i + 1) * max (maxSize / wave) 1),
      0 < size ∧ size ≤ maxSize + 64 := by
    intro size member
    obtain ⟨i, listed, rfl⟩ := List.mem_map.mp member
    have lower : (i + 1) * max (maxSize / wave) 1 ≤ wave * max (maxSize / wave) 1 :=
      Nat.mul_le_mul_right _ (List.mem_range.mp listed)
    exact ⟨Nat.mul_pos (Nat.succ_pos i) (Nat.le_max_right ..), lower.trans tallest⟩
  refine Computes.bind ((drawn.keeps keeps).allocAll_computes sized ?_) ?_
  · rw [ops, List.length_map, List.length_range]
    omega
  rintro ⟨ids, b₂⟩ ⟨counted, keeps₂, longer⟩
  dsimp only at counted longer
  rw [List.length_map, List.length_range] at counted longer
  have passing : ((ids.zipIdx.filter fun pair => pair.2 % 4 != 3).map (·.1)).length ≤ wave := by
    rw [List.length_map]
    exact (List.length_filter_le ..).trans_eq (List.length_zipIdx.trans counted)
  refine (keeps₂.freeAll_computes _).imp ?_
  rintro b' ⟨keeps', more, most⟩
  dsimp only at more most
  have length : b₁.ops.size = b.ops.size := congrArg Array.size ops
  exact ⟨keeps', by omega, by omega⟩

theorem Binary.round_computes : Computes (reach count maxSize) (Advances (maxSize + 64) b)
    (Binary.round maxSize b) := by
  have sizes : maxSize + 64 ≤ reach count maxSize := size_le_reach
  refine Computes.bind (draw_computes (by omega) (by omega)) ?_
  rintro ⟨pairs, b₁⟩ drawn
  obtain ⟨low, high⟩ : 8 ≤ pairs ∧ pairs ≤ 24 := ⟨drawn.low, drawn.high⟩
  have length : b₁.ops.size = b.ops.size := congrArg Array.size drawn.ops
  have positive : 0 < max (maxSize / 2) 1 := Nat.lt_of_lt_of_le Nat.one_pos (Nat.le_max_right ..)
  refine Computes.bind
    (plant_computes positive (by omega) (drawn.keeps keeps) (by omega)) ?_
  rintro ⟨smalls, larges, b₂⟩ ⟨manySmalls, manyLarges, keeps₂, longer₂⟩
  refine Computes.bind (keeps₂.freeAll_computes larges) ?_
  rintro b₃ ⟨keeps₃, more₃, most₃⟩
  refine Computes.bind (Checked.add_computes (by omega)) ?_
  rintro _ ⟨rfl, -⟩
  have sized : ∀ size ∈ List.replicate pairs (maxSize + 16), 0 < size ∧ size ≤ maxSize + 64 := by
    intro size member
    rw [List.eq_of_mem_replicate member]
    omega
  refine Computes.bind (keeps₃.allocAll_computes sized ?_) ?_
  · rw [List.length_replicate]
    omega
  rintro ⟨biggers, b₄⟩ ⟨counted, keeps₄, longer₄⟩
  dsimp only at counted longer₄
  rw [List.length_replicate] at counted longer₄
  refine (keeps₄.freeAll_computes _).imp ?_
  rintro b' ⟨keeps', more, most⟩
  dsimp only at more most
  rw [List.length_append] at most
  exact ⟨keeps', by omega, by omega⟩

end Rounds

/-! ## Blocks that grow -/

namespace ReallocGrowth

variable {growing : Array Nat} {small ids : List Nat} {id size slot : Nat}

/-- The blocks that grow are live, and none of them is one of the small blocks. -/
structure Stands (p : Population) (b : Builder) : Prop where
  tracks : b.Tracks
  some : 0 < p.growing.size
  live : ∀ id ∈ p.growing, id ∈ b.live
  different : p.growing.toList.Nodup
  older : ∀ id ∈ p.small, id < b.sizes.size
  apart : ∀ id ∈ p.small, id ∉ p.growing

/-- Drawing a number leaves the population as it is. -/
theorem Stands.drawn {p : Population} {low high number : Nat} (stands : Stands p b)
    (drawn : Drawn low high number b b') : Stands p b' := by
  obtain ⟨random, rfl⟩ := drawn.same
  exact ⟨stands.tracks.random random, stands.some, stands.live, stands.different, stands.older,
    stands.apart⟩

/-- There are no more growing blocks than operations. -/
theorem Stands.size_le {p : Population} (stands : Stands p b) : p.growing.size ≤ b.ops.size := by
  have live : p.growing.toList ⊆ b.live.toList := by
    intro id member
    rw [Array.mem_toList_iff] at member ⊢
    exact stands.live id member
  exact (stands.different.subperm live).length_le.trans stands.tracks.live_le

/-- One more small block. -/
theorem Stands.alloc (stands : Stands ⟨growing, small⟩ b) (some : 0 < size)
    (known : b.alloc size = .ok (id, b')) : Stands ⟨growing, small ++ [id]⟩ b' := by
  obtain ⟨tracks, named, more, live⟩ := stands.tracks.alloc some known
  constructor
  case tracks => exact tracks
  case some => exact stands.some
  case live => exact fun other member => (live other).mpr (.inl (stands.live other member))
  case different => exact stands.different
  case older =>
    intro other member
    rw [more]
    rcases List.mem_append.mp member with older | new
    · exact Nat.lt_add_right 1 (stands.older other older)
    · rw [List.mem_singleton.mp new, named]
      exact Nat.lt_succ_self _
  case apart =>
    intro other member
    rcases List.mem_append.mp member with older | new
    · exact stands.apart other older
    · rw [List.mem_singleton.mp new]
      intro grows
      exact absurd (stands.tracks.lt_size (stands.live id grows)) (by omega)

/-- The oldest small block is released. -/
theorem Stands.free {victim : Nat} (stands : Stands ⟨growing, victim :: small⟩ b)
    (known : b.free victim = .ok b') : Stands ⟨growing, small⟩ b' := by
  obtain ⟨tracks, sizes, live⟩ := stands.tracks.free known
  obtain ⟨-, older⟩ := List.forall_mem_cons.mp stands.older
  obtain ⟨other, apart⟩ := List.forall_mem_cons.mp stands.apart
  constructor
  case tracks => exact tracks
  case some => exact stands.some
  case live =>
    exact fun id member => (live id).mpr ⟨stands.live id member, fun same => other (same ▸ member)⟩
  case different => exact stands.different
  case older => rwa [sizes]
  case apart => exact apart

/-- A block grows by one step. -/
theorem Stands.realloc (stands : Stands ⟨growing, small⟩ b) (member : id ∈ growing)
    (some : 0 < size) (known : b.realloc id size = .ok b') : Stands ⟨growing, small⟩ b' := by
  obtain ⟨tracks, live, sizes⟩ := stands.tracks.realloc some (stands.live id member) known
  constructor
  case tracks => exact tracks
  case some => exact stands.some
  case live =>
    rw [live]
    exact stands.live
  case different => exact stands.different
  case older =>
    rw [sizes]
    exact stands.older
  case apart => exact stands.apart

/-- A block that has grown too large starts over as another one. -/
theorem Stands.replace {fresh high : Nat} {c d : Builder} (stands : Stands ⟨growing, small⟩ b)
    (within : slot < growing.size) (freed : b.free growing[slot] = .ok c)
    (drawn : Drawn 1 high size c d) (known : d.alloc size = .ok (fresh, b')) :
    Stands ⟨growing.setIfInBounds slot fresh, small⟩ b' := by
  obtain ⟨tracks, sizes, left⟩ := stands.tracks.free freed
  obtain ⟨tracks', named, more, live⟩ := (drawn.tracks tracks).alloc drawn.low known
  obtain ⟨random, rfl⟩ := drawn.same
  simp only [sizes] at named more
  have member : ∀ id, id ∈ growing.setIfInBounds slot fresh ↔
      id = fresh ∨ id ∈ growing ∧ id ≠ growing[slot] :=
    fun id => mem_setIfInBounds stands.different within
  have new : fresh ∉ growing := by
    intro grows
    exact absurd (stands.tracks.lt_size (stands.live fresh grows)) (by omega)
  constructor
  case tracks => exact tracks'
  case some =>
    rw [Array.size_setIfInBounds]
    exact stands.some
  case live =>
    intro id grows
    rcases (member id).mp grows with rfl | ⟨older, other⟩
    · exact (live id).mpr (.inr rfl)
    · exact (live id).mpr (.inl ((left id).mpr ⟨stands.live id older, other⟩))
  case different =>
    rw [Array.toList_setIfInBounds]
    exact stands.different.set (by rwa [Array.mem_toList_iff])
  case older =>
    intro id member
    rw [more]
    exact Nat.lt_add_right 1 (stands.older id member)
  case apart =>
    intro id isSmall grows
    rcases (member id).mp grows with rfl | ⟨older, -⟩
    · exact absurd (stands.older id isSmall) (by omega)
    · exact stands.apart id isSmall older

/-- The blocks planted are live and different, and the others stay live. -/
theorem plant_computes {number : Nat} (keeps : b.Keeps (maxSize + 64))
    (room : b.ops.size + number ≤ count + 144) :
    Computes (reach count maxSize) (fun (ids, b') => b'.Keeps (maxSize + 64) ∧
      ids.length = number ∧ ids.Nodup ∧ (∀ id ∈ b.live, id ∈ b'.live) ∧
      (∀ id ∈ ids, id ∈ b'.live ∧ b.sizes.size ≤ id) ∧ b'.ops.size = b.ops.size + number)
      (plant b number) := by
  have limits : maxSize + 64 ≤ reach count maxSize := size_le_reach
  induction number generalizing b with
  | zero =>
    exact ⟨keeps, rfl, List.nodup_nil, fun _ member => member,
      fun _ never => absurd never List.not_mem_nil, rfl⟩
  | succ number ih =>
    refine Computes.bind (draw_computes (by omega) (by omega)) ?_
    rintro ⟨size, b₁⟩ drawn
    obtain ⟨least, small⟩ : 1 ≤ size ∧ size ≤ 64 := ⟨drawn.low, drawn.high⟩
    have length : b₁.ops.size = b.ops.size := congrArg Array.size drawn.ops
    have keeps₁ := drawn.keeps keeps
    refine Computes.bind (keeps₁.alloc_computes least (by omega) (by dsimp only; omega)) ?_
    rintro ⟨id, b₂⟩ ⟨allocated, keeps₂, longer⟩
    obtain ⟨-, named, more, live⟩ := keeps₁.tracks.alloc least allocated
    obtain ⟨random, rfl⟩ := drawn.same
    dsimp only at longer named more live
    refine Computes.bind (ih keeps₂ (by omega)) ?_
    rintro ⟨others, b₃⟩ ⟨keeps₃, counted, different, kept, planted, further⟩
    refine ⟨keeps₃, congrArg Nat.succ counted, ?different, ?kept, ?planted, ?longer⟩
    case different =>
      refine List.nodup_cons.mpr ⟨fun member => ?_, different⟩
      have later := (planted id member).2
      omega
    case kept => exact fun other member => kept other ((live other).mpr (.inl member))
    case planted =>
      refine List.forall_mem_cons.mpr ⟨⟨kept id ((live id).mpr (.inr rfl)), ?_⟩, ?_⟩
      · exact Nat.le_of_eq named.symm
      · intro other member
        obtain ⟨here, later⟩ := planted other member
        exact ⟨here, by omega⟩
    case longer => omega

/-- The first half of a round: one step of growth for a random block, which starts over when it gets
too large. -/
def grow (maxSize : Nat) (growing : Array Nat) (b : Builder) :
    Except Fault (Array Nat × Builder) := do
  let (slot, b) ← b.draw 0 (growing.size - 1)
  let id := growing.getD slot 0
  let (growth, b) ← b.draw 1 (max (maxSize / 8) 1)
  let next ← Checked.add (b.sizes.getD id 0) growth
  if maxSize < next then
    let b ← b.free id
    let (size, b) ← b.draw 1 64
    let (fresh, b) ← b.alloc size
    return (growing.setIfInBounds slot fresh, b)
  else
    return (growing, ← b.realloc id next)

/-- The second half of a round: one more small block, of which at most eight are kept. -/
def renew (p : Population) (b : Builder) : Except Fault (Population × Builder) := do
  let (size, b) ← b.draw 16 64
  let (id, b) ← b.alloc size
  match p.small ++ [id] with
  | victim :: rest =>
    if 8 ≤ rest.length then return (⟨p.growing, rest⟩, ← b.free victim)
    else return (⟨p.growing, victim :: rest⟩, b)
  | [] => return (⟨p.growing, []⟩, b)

theorem round_eq (p : Population) (b : Builder) : round maxSize (p, b) =
    grow maxSize p.growing b >>= fun grown => renew ⟨grown.1, p.small⟩ grown.2 := by
  simp only [round, grow, renew, bind_assoc]
  congr 1
  funext drawn
  obtain ⟨slot, b₁⟩ := drawn
  simp only
  congr 1
  funext drawn
  obtain ⟨growth, b₂⟩ := drawn
  simp only
  congr 1
  funext next
  split
  · refine Eq.trans (bind_congr fun freed => ?_) (bind_assoc _ _ _).symm
    refine Eq.trans (bind_congr fun drawn => ?_) (bind_assoc _ _ _).symm
    exact (bind_assoc _ _ _).symm
  · exact (bind_assoc _ _ _).symm

section Halves

variable {p : Population} (stands : Stands p b) (keeps : b.Keeps (maxSize + 64))

include stands keeps

theorem grow_computes (some : 16 ≤ maxSize) (short : b.ops.size < count) :
    Computes (reach count maxSize) (fun (growing, b') => Stands ⟨growing, p.small⟩ b' ∧
      b'.Keeps (maxSize + 64) ∧ b.ops.size < b'.ops.size ∧ b'.ops.size ≤ b.ops.size + 2)
      (grow maxSize p.growing b) := by
  have limits : maxSize + 64 ≤ reach count maxSize := size_le_reach
  have counts : count + 144 ≤ reach count maxSize := count_le_reach
  have fewer := stands.size_le
  obtain ⟨growing, small⟩ := p
  have filled : 0 < growing.size := stands.some
  dsimp only at fewer ⊢
  refine Computes.bind (draw_computes (Nat.zero_le _) (by omega)) ?_
  rintro ⟨slot, b₁⟩ first
  refine Computes.bind (draw_computes (Nat.le_max_right ..) (by omega)) ?_
  rintro ⟨growth, b₂⟩ second
  have within : slot < growing.size := by
    have high : slot ≤ growing.size - 1 := first.high
    omega
  obtain ⟨least, step⟩ : 1 ≤ growth ∧ growth ≤ max (maxSize / 8) 1 := ⟨second.low, second.high⟩
  have length : b₂.ops.size = b.ops.size := congrArg Array.size (second.ops.trans first.ops)
  have keeps₂ : b₂.Keeps (maxSize + 64) := second.keeps (first.keeps keeps)
  have stands₂ : Stands ⟨growing, small⟩ b₂ := (stands.drawn first).drawn second
  have member := Array.getElem_mem within
  have picked : growing.getD slot 0 = growing[slot] := (Array.getElem_eq_getD 0).symm
  have held : b₂.sizes.getD growing[slot] 0 ≤ b₂.liveBytes := by
    rw [keeps₂.tracks.sizes _ (stands₂.live _ member)]
    exact keeps₂.tracks.sizes_le _
  have bytes := keeps₂.liveBytes_le
  have longest : (b.ops.size + 1) * (maxSize + 64) ≤ reach count maxSize :=
    Nat.mul_le_mul_right _ (by omega)
  rw [Nat.succ_mul] at longest
  rw [length] at bytes
  dsimp only
  rw [picked]
  refine Computes.bind (Checked.add_computes (by omega)) ?_
  rintro next ⟨sum, -⟩
  split
  next large =>
    refine Computes.bind (keeps₂.free_computes growing[slot]) ?_
    rintro b₃ ⟨freed, keeps₃, -, -, shorter⟩
    have longer₃ := shorter (stands₂.live _ member)
    refine Computes.bind (draw_computes (by omega) (by omega)) ?_
    rintro ⟨size, b₄⟩ drawn
    obtain ⟨some, small⟩ : 1 ≤ size ∧ size ≤ 64 := ⟨drawn.low, drawn.high⟩
    have length₄ : b₄.ops.size = b₃.ops.size := congrArg Array.size drawn.ops
    refine Computes.bind
      ((drawn.keeps keeps₃).alloc_computes some (by omega) (by dsimp only; omega)) ?_
    rintro ⟨fresh, b₅⟩ ⟨allocated, keeps₅, longer₅⟩
    dsimp only at longer₅
    refine Computes.pure ?_
    dsimp only
    exact ⟨stands₂.replace within freed drawn allocated, keeps₅, by omega, by omega⟩
  next fits =>
    have some : 0 < next := by omega
    refine Computes.bind
      (keeps₂.realloc_computes (stands₂.live _ member) some (by omega) (by omega)) ?_
    rintro b' ⟨resized, keeps', longer⟩
    refine Computes.pure ?_
    dsimp only
    exact ⟨stands₂.realloc member some resized, keeps', by omega, by omega⟩

theorem renew_computes (room : b.ops.size < count + 144) :
    Computes (reach count maxSize) (fun (p', b') => Stands p' b' ∧ b'.Keeps (maxSize + 64) ∧
      b.ops.size < b'.ops.size ∧ b'.ops.size ≤ b.ops.size + 2) (renew p b) := by
  have limits : maxSize + 64 ≤ reach count maxSize := size_le_reach
  refine Computes.bind (draw_computes (by omega) (by omega)) ?_
  rintro ⟨size, b₁⟩ drawn
  obtain ⟨least, most⟩ : 16 ≤ size ∧ size ≤ 64 := ⟨drawn.low, drawn.high⟩
  have length : b₁.ops.size = b.ops.size := congrArg Array.size drawn.ops
  have some : 0 < size := Nat.lt_of_lt_of_le (Nat.succ_pos _) least
  refine Computes.bind
    ((drawn.keeps keeps).alloc_computes some (by omega) (by dsimp only; omega)) ?_
  rintro ⟨id, b₂⟩ ⟨allocated, keeps₂, longer⟩
  have larger := (stands.drawn drawn).alloc some allocated
  dsimp only at keeps₂ longer ⊢
  cases all : p.small ++ [id] with
  | nil => simp at all
  | cons victim rest =>
    rw [all] at larger
    dsimp only
    split
    next full =>
      refine Computes.bind (keeps₂.free_computes victim) ?_
      rintro b' ⟨freed, keeps', more, most, -⟩
      refine Computes.pure ?_
      dsimp only
      exact ⟨larger.free freed, keeps', by omega, by omega⟩
    next =>
      refine Computes.pure ?_
      dsimp only
      exact ⟨larger, keeps₂, by omega, by omega⟩

theorem round_computes (some : 16 ≤ maxSize) (short : b.ops.size < count) :
    Computes (reach count maxSize)
      (fun state => Stands state.1 state.2 ∧ Advances (maxSize + 64) b state.2)
      (round maxSize (p, b)) := by
  rw [round_eq]
  refine Computes.bind (grow_computes stands keeps some short) ?_
  rintro ⟨growing, b₁⟩ ⟨stands₁, keeps₁, longer₁, most₁⟩
  refine (renew_computes stands₁ keeps₁ (by omega)).imp ?_
  rintro ⟨p', b'⟩ ⟨stands', keeps', longer, most⟩
  dsimp only at stands' keeps' longer most ⊢
  exact ⟨stands', keeps', by omega, by omega⟩

end Halves

end ReallocGrowth

/-! ## Whole traces -/

variable {profile : Profile} {seed : UInt64} {trace : Trace}

theorem build_computes (some : 16 ≤ maxSize) : Computes (reach count maxSize)
    (Reaches count (maxSize + 64)) (build profile seed count maxSize) := by
  have limits : maxSize + 64 ≤ reach count maxSize := size_le_reach
  have start : (Builder.ofSeed seed).Keeps (maxSize + 64) := Builder.keeps_ofSeed seed
  cases profile with
  | churn => exact repeatRound_computes (fun _ => Churn.round_computes some) start rfl
  | sawtooth => exact repeatRound_computes (fun _ => Sawtooth.round_computes some) start rfl
  | binary => exact repeatRound_computes (fun _ => Binary.round_computes some) start rfl
  | reallocGrowth =>
    refine Computes.bind (draw_computes (by omega) (by omega)) ?_
    rintro ⟨growers, b₁⟩ drawn
    obtain ⟨least, few⟩ : 1 ≤ growers ∧ growers ≤ 4 := ⟨drawn.low, drawn.high⟩
    have empty : b₁.ops.size = 0 := congrArg Array.size drawn.ops
    refine Computes.bind
      (ReallocGrowth.plant_computes (drawn.keeps start) (by omega)) ?_
    rintro ⟨growing, b₂⟩ ⟨keeps, counted, different, -, live, length⟩
    have stands : ReallocGrowth.Stands ⟨growing.toArray, []⟩ b₂ :=
      { tracks := keeps.tracks
        some := by
          rw [List.size_toArray]
          omega
        live := fun id member => (live id (by simpa using member)).1
        different := different
        older := fun _ never => absurd never List.not_mem_nil
        apart := fun _ never => absurd never List.not_mem_nil }
    have step : ∀ state : ReallocGrowth.Population × Builder,
        ReallocGrowth.Stands state.1 state.2 → state.2.Keeps (maxSize + 64) →
        state.2.ops.size < count → Computes (reach count maxSize)
          (fun state' => ReallocGrowth.Stands state'.1 state'.2 ∧
            Advances (maxSize + 64) state.2 state'.2) (ReallocGrowth.round maxSize state) :=
      fun state stands keeps => ReallocGrowth.round_computes stands keeps some
    refine Computes.bind (repeatUntil_computes step stands keeps ?_ ?_) ?_
    · exact Nat.le_add_left ..
    · dsimp only at length ⊢
      omega
    · rintro ⟨population, b'⟩ ⟨-, reaches⟩
      exact reaches

/-- What a generated trace is and says of itself. -/
structure Balanced (trace : Trace) : Prop where
  orderly : Orderly trace.ops
  numbered : trace.idCount = trace.ops.countP isAlloc
  released : liveIds trace.ops = ∅
  suggested : trace.suggestedHeapSize = peakBytes trace.ops

/-- The closing releases leave nothing live and do not change the peak. -/
theorem Builder.Tracks.finish (tracks : b.Tracks) : Balanced b.finish := by
  have perm : (b.live.toList.mergeSort).Perm b.live.toList := List.mergeSort_perm ..
  have listed : ∀ id, id ∈ b.live.toList.mergeSort ↔ id ∈ liveIds b.ops.toList := by
    intro id
    rw [perm.mem_iff, Array.mem_toList_iff, tracks.listed]
  obtain ⟨orderly, left, counted, peak⟩ :=
    tracks.orderly.freeAll (perm.nodup_iff.mpr tracks.different) fun id => (listed id).mp
  constructor
  case orderly => exact orderly
  case numbered => exact tracks.numbered.trans counted.symm
  case released =>
    refine Finset.eq_empty_of_forall_notMem fun id member => ?_
    obtain ⟨live, others⟩ := (left id).mp member
    exact others ((listed id).mpr live)
  case suggested => exact tracks.peakBytes.trans peak.symm

theorem generate_balanced (known : generate profile seed count maxSize = .ok trace) :
    Balanced trace := by
  obtain ⟨b, built, same⟩ := Fault.bind_eq_ok.mp known
  cases same
  have some : 16 ≤ max maxSize 16 := Nat.le_max_right ..
  exact ((build_computes some).holds_of_ok built).keeps.tracks.finish

end Workload

end BoundaryHeap
