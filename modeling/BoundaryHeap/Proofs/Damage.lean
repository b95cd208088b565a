import BoundaryHeap.Proofs.Pointer
import Mathlib.Algebra.BigOperators.Group.List.Basic

/-!
What the diagnoses of a heap make of damaged memory. The scan, the totals and the walk along the
free list read tags and links that may be any words at all. None of them reads outside the memory or
goes on for ever; each meets a fault exactly if one of the sums it forms with such a word leaves 64
bits, and where that is the case is told here from the memory alone.
-/

namespace BoundaryHeap

/-! ## Computations that overflow -/

/-- The computation overflows if `far` holds, and has an answer otherwise. -/
def OverflowsIff {α : Type} (computation : Except Fault α) (far : Prop) : Prop :=
  ∀ fault, computation = .error fault ↔ fault = .overflow ∧ far

namespace OverflowsIff

variable {α β : Type} {computation : Except Fault α} {next : α → Except Fault β} {answer : α}
  {far far' : Prop}

theorem answers (known : computation = .ok answer) (near : ¬ far) :
    OverflowsIff computation far := by
  intro fault
  rw [known]
  constructor
  · rintro ⟨⟩
  · rintro ⟨-, holds⟩
    exact absurd holds near

theorem overflows (known : computation = .error .overflow) (holds : far) :
    OverflowsIff computation far := by
  intro fault
  rw [known]
  constructor
  · rintro ⟨⟩
    exact ⟨rfl, holds⟩
  · rintro ⟨rfl, -⟩
    rfl

theorem congr (first : OverflowsIff computation far) (same : far ↔ far') :
    OverflowsIff computation far' := fun fault => (first fault).trans (and_congr_right' same)

/-- Without an overflow there is an answer. -/
theorem exists_ok (first : OverflowsIff computation far) (near : ¬ far) :
    ∃ answer, computation = .ok answer := by
  cases known : computation with
  | ok answer => exact ⟨answer, rfl⟩
  | error fault => exact absurd ((first fault).mp known).2 near

theorem eq_error (first : OverflowsIff computation far) (holds : far) :
    computation = .error .overflow := (first .overflow).mpr ⟨rfl, holds⟩

/-- One computation after another. -/
theorem bind (first : OverflowsIff computation far)
    (then_ : ∀ answer, computation = .ok answer → OverflowsIff (next answer) far') :
    OverflowsIff (computation >>= next) (far ∨ far') := by
  by_cases holds : far
  · refine .overflows ?_ (.inl holds)
    rw [first.eq_error holds]
    rfl
  · obtain ⟨answer, known⟩ := first.exists_ok holds
    rw [Fault.bind_of_ok known]
    exact (then_ answer known).congr (by simp [holds])

/-- A computation whose answer is only put in another form. -/
theorem map (first : OverflowsIff computation far)
    (then_ : ∀ answer, ∃ found, next answer = .ok found) :
    OverflowsIff (computation >>= next) far := by
  have step : OverflowsIff (computation >>= next) (far ∨ False) := by
    refine first.bind fun answer _ => ?_
    obtain ⟨found, known⟩ := then_ answer
    exact .answers known id
  exact step.congr (by simp)

theorem add (a b : Nat) : OverflowsIff (Checked.add a b) (wordLimit ≤ a + b) := by
  by_cases fits : a + b < wordLimit
  · exact .answers (Checked.add_eq_ok fits) (Nat.not_le_of_lt fits)
  · exact .overflows (if_neg fits) (Nat.le_of_not_lt fits)

end OverflowsIff

/-! ## Where the sums leave 64 bits -/

namespace Memory

/-- From `bp` on, headers with sizes that a walk takes, all of blocks that end in the memory, lead
to one of a block that ends beyond 64 bits. -/
inductive ChainOverruns (m : Memory) (takes : Nat → Prop) : Nat → Prop
  | here {bp : Nat} {head : Tag} (header : m.header bp = .ok head) (taken : takes head.size)
    (far : wordLimit ≤ bp + head.size) : ChainOverruns m takes bp
  | later {bp : Nat} {head : Tag} (header : m.header bp = .ok head) (taken : takes head.size)
    (ends : bp + head.size ≤ m.size) (rest : ChainOverruns m takes (bp + head.size)) :
    ChainOverruns m takes bp

/-- Among the `steps` nodes from `node` on, links inside the memory lead to one whose links end
beyond 64 bits. -/
inductive WalkOverruns (m : Memory) : Nat → Nat → Prop
  | here {steps node : Nat} (far : wordLimit ≤ node + 16) : WalkOverruns m (steps + 1) node
  | later {steps node next : Nat} (inside : node + 16 ≤ m.size)
    (link : m.onLink node = .ok (some next)) (rest : WalkOverruns m steps next) :
    WalkOverruns m (steps + 1) node

/-- A block of the smallest size fits at `node`, behind the sentinels and inside the memory. -/
structure Roomy (m : Memory) (node : Nat) : Prop where
  above : 32 ≤ node
  aligned : node % 16 = 0
  ends : node + 32 ≤ m.size

/-- Among the `steps` nodes from `node` on, places of blocks lead to a node whose links end beyond
64 bits, or to an aligned one, not the last, where the smallest block would. -/
inductive ListOverruns (m : Memory) : Nat → Nat → Prop
  | links {steps node : Nat} (far : wordLimit ≤ node + 16) : ListOverruns m (steps + 1) node
  | block {steps node : Nat} (aligned : node % 16 = 0) (far : wordLimit ≤ node + 32) :
    ListOverruns m (steps + 2) node
  | later {steps node next : Nat} (roomy : m.Roomy node) (link : m.onLink node = .ok (some next))
    (rest : ListOverruns m steps next) : ListOverruns m (steps + 1) node

section Chain

variable {m : Memory} {takes : Nat → Prop} {bp : Nat} {head : Tag}

theorem chainOverruns_iff (header : m.header bp = .ok head) :
    m.ChainOverruns takes bp ↔ takes head.size ∧
      (wordLimit ≤ bp + head.size ∨
        bp + head.size ≤ m.size ∧ m.ChainOverruns takes (bp + head.size)) := by
  constructor
  · intro overruns
    cases overruns with
    | here header' taken far =>
      cases header.symm.trans header'
      exact ⟨taken, .inl far⟩
    | later header' taken ends rest =>
      cases header.symm.trans header'
      exact ⟨taken, .inr ⟨ends, rest⟩⟩
  · rintro ⟨taken, far | ⟨ends, rest⟩⟩
    · exact .here header taken far
    · exact .later header taken ends rest

theorem exists_header (above : 8 ≤ bp) (inside : bp ≤ m.size) : ∃ tag, m.header bp = .ok tag := by
  rw [header_eq_readTag above]
  exact exists_readTag (by omega)

/-- The walk for the totals overflows where a header of at least the smallest size tells of an end
beyond 64 bits. -/
theorem chainFrom_overflowsIff (above : 8 ≤ bp) (inside : bp ≤ m.size) :
    OverflowsIff (m.chainFrom bp) (m.ChainOverruns (Block.minSize ≤ ·) bp) := by
  induction left : m.size - bp using Nat.strongRecOn generalizing bp with
  | ind left ih =>
    subst left
    obtain ⟨head, header⟩ := exists_header above inside
    rw [chainFrom, Fault.bind_of_ok (Block.headerOffset_eq_ok above),
      dif_neg (Nat.not_lt.mpr inside), Fault.bind_of_ok header]
    refine OverflowsIff.congr ?_ (chainOverruns_iff header).symm
    by_cases small : head.size < Block.minSize
    · rw [dif_pos small]
      exact .answers rfl fun overruns => Nat.not_le_of_lt small overruns.1
    rw [dif_neg small]
    have large : Block.minSize ≤ head.size := Nat.le_of_not_lt small
    refine ((OverflowsIff.add bp head.size).bind (fun stop sum => ?_)).congr
      (and_iff_right large).symm
    obtain ⟨-, rfl⟩ := Checked.add_eq_ok_iff.mp sum
    by_cases ends : m.size < bp + head.size
    · rw [if_pos ends]
      exact .answers rfl fun overruns => Nat.not_le_of_lt ends overruns.1
    rw [if_neg ends]
    have within : bp + head.size ≤ m.size := Nat.le_of_not_lt ends
    simp only [Block.minSize] at large
    have rest := ih (m.size - (bp + head.size)) (by omega) (by omega) within rfl
    exact (rest.map fun _ => ⟨_, rfl⟩).congr (and_iff_right within).symm

/-- The scan of the chain overflows where a header of a legal size tells of an end beyond 64
bits. -/
theorem scanChain_overflowsIff (above : 32 ≤ bp) (inside : bp ≤ m.size) (aligned : bp % 16 = 0)
    (lastFree : Option Nat) :
    OverflowsIff (Scan.chainFrom m bp lastFree) (m.ChainOverruns Block.LegalSize bp) := by
  induction left : m.size - bp using Nat.strongRecOn generalizing bp lastFree with
  | ind left ih =>
    subst left
    have word : 8 ≤ bp := by omega
    obtain ⟨head, header⟩ := exists_header word inside
    rw [Scan.chainFrom, Fault.bind_of_ok (Block.headerOffset_eq_ok word),
      dif_neg (Nat.not_lt.mpr inside), Fault.bind_of_ok header]
    refine OverflowsIff.congr ?_ (chainOverruns_iff header).symm
    by_cases empty : head.size = 0
    · rw [if_pos empty]
      have illegal : ¬ Block.LegalSize head.size := by
        rw [empty]
        decide
      split <;> exact .answers rfl fun overruns => illegal overruns.1
    rw [if_neg empty, if_neg (not_not.mpr aligned)]
    by_cases legal : Block.LegalSize head.size
    swap
    · rw [dif_neg legal]
      exact .answers rfl fun overruns => legal overruns.1
    rw [dif_pos legal]
    refine ((OverflowsIff.add bp head.size).bind (fun stop sum => ?_)).congr
      (and_iff_right legal).symm
    obtain ⟨fits, rfl⟩ := Checked.add_eq_ok_iff.mp sum
    by_cases ends : m.size < bp + head.size
    · rw [if_pos ends]
      exact .answers rfl fun overruns => Nat.not_le_of_lt ends overruns.1
    rw [if_neg ends]
    have within : bp + head.size ≤ m.size := Nat.le_of_not_lt ends
    obtain ⟨sized, large⟩ := legal
    simp only [Block.minSize, Block.alignment] at large sized
    obtain ⟨foot, footer⟩ : ∃ foot, m.readTag (bp + head.size - 16) = .ok foot :=
      exists_readTag (by omega)
    rw [Fault.bind_of_ok (Block.footerOffset_eq_ok fits (by omega)), Fault.bind_of_ok footer]
    have rest := fun lastFree => (ih (m.size - (bp + head.size)) (by omega) (by omega) within
      (by omega) lastFree rfl).congr (and_iff_right within).symm
    cases head.allocated with
    | true => exact (rest none).map fun _ => ⟨_, rfl⟩
    | false => exact (rest (some bp)).map fun _ => ⟨_, rfl⟩

end Chain

/-! ## The free list -/

section List

variable {m : Memory} {node steps : Nat}

theorem exists_onLink (inside : node + 16 ≤ m.size) (bounded : m.size < wordLimit) :
    ∃ link, m.onLink node = .ok link := by
  have fits : node + Block.wordSize < wordLimit := by simp only [Block.wordSize]; omega
  have within : node + Block.wordSize + 8 ≤ m.size := by simp only [Block.wordSize]; omega
  rw [onLink, Fault.bind_of_ok (Checked.add_eq_ok fits), readWord, if_pos within]
  exact ⟨_, rfl⟩

/-- The step to the next node, where it does not overflow. -/
theorem exists_follow (bounded : m.size < wordLimit) (near : node + 16 < wordLimit) :
    ∃ next, FreeList.follow m node = .ok next ∧
      ∀ other, next = some other ↔
        node + 16 ≤ m.size ∧ m.onLink node = .ok (some other) := by
  have fits : node + 2 * Block.wordSize < wordLimit := near
  rw [FreeList.follow, Fault.bind_of_ok (Checked.add_eq_ok fits)]
  by_cases inside : node + 2 * Block.wordSize ≤ m.size
  · have within : node + 16 ≤ m.size := inside
    obtain ⟨link, known⟩ := exists_onLink within bounded
    rw [if_pos inside, known]
    exact ⟨link, rfl, fun other => by simp [within]⟩
  · have beyond : ¬ node + 16 ≤ m.size := inside
    rw [if_neg inside]
    exact ⟨none, rfl, fun other => by simp [beyond]⟩

theorem follow_far (far : wordLimit ≤ node + 16) : FreeList.follow m node = .error .overflow := by
  have overflow : Checked.add node (2 * Block.wordSize) = .error .overflow :=
    if_neg (Nat.not_lt.mpr far)
  rw [FreeList.follow, overflow]
  rfl

/-- The walk along the list overflows where it comes to a node whose links end beyond 64 bits. -/
theorem walkFrom_overflowsIff (bounded : m.size < wordLimit) (node : Option Nat) :
    OverflowsIff (FreeList.walkFrom m steps node)
      (∃ first, node = some first ∧ m.WalkOverruns steps first) := by
  induction steps generalizing node with
  | zero =>
    refine .answers (by rfl) ?_
    rintro ⟨_, _, overruns⟩
    cases overruns
  | succ steps ih =>
    cases node with
    | none =>
      refine .answers (by rfl) ?_
      rintro ⟨_, none, _⟩
      cases none
    | some node =>
      rw [FreeList.walkFrom]
      by_cases far : wordLimit ≤ node + 16
      · rw [follow_far far]
        exact .overflows rfl ⟨node, rfl, .here far⟩
      obtain ⟨next, follows, leads⟩ := exists_follow bounded (Nat.lt_of_not_le far)
      rw [Fault.bind_of_ok follows]
      refine ((ih next).map fun _ => ⟨_, rfl⟩).congr ?_
      constructor
      · rintro ⟨other, rfl, rest⟩
        obtain ⟨inside, link⟩ := (leads other).mp rfl
        exact ⟨node, rfl, .later inside link rest⟩
      · rintro ⟨_, ⟨⟩, overruns⟩
        cases overruns with
        | here far' => exact absurd far' far
        | later inside link rest => exact ⟨_, (leads _).mpr ⟨inside, link⟩, rest⟩

theorem length_walkFrom_le {nodes : List Nat} {node : Option Nat}
    (walked : FreeList.walkFrom m steps node = .ok nodes) : nodes.length ≤ steps := by
  induction steps generalizing node nodes with
  | zero =>
    cases walked
    exact Nat.le_refl 0
  | succ steps ih =>
    cases node with
    | none =>
      cases walked
      exact Nat.zero_le _
    | some node =>
      rw [FreeList.walkFrom, Fault.bind_eq_ok] at walked
      obtain ⟨next, -, walked⟩ := walked
      obtain ⟨rest, later, same⟩ := Fault.bind_eq_ok.mp walked
      cases same
      exact Nat.succ_le_succ (ih later)

/-- The nodes seen are places of blocks, and lead to each other and to the node at hand only. -/
def Closed (m : Memory) (seen : Std.TreeSet Nat) (node : Option Nat) : Prop :=
  ∀ other, seen.contains other = true → m.Roomy other ∧
    ∀ next, m.onLink other = .ok (some next) → seen.contains next = true ∨ node = some next

/-- The node at hand has been seen, and its link leads on. -/
theorem Closed.insert {seen : Std.TreeSet Nat} {next : Option Nat}
    (closed : m.Closed seen (some node)) (roomy : m.Roomy node)
    (leads : ∀ other, m.onLink node = .ok (some other) → next = some other) :
    m.Closed (seen.insert node) next := by
  intro other member
  simp only [Std.TreeSet.contains_insert, Bool.or_eq_true, beq_iff_eq, compare_eq_iff_eq]
    at member ⊢
  rcases member with rfl | member
  · exact ⟨roomy, fun other link => .inr (leads other link)⟩
  · obtain ⟨roomy', goesOn⟩ := closed other member
    refine ⟨roomy', fun later link => ?_⟩
    rcases goesOn later link with seenBefore | same
    · exact .inl (.inr seenBefore)
    · cases same
      exact .inl (.inl rfl)

/-- From a node seen before, a walk goes in a circle of places of blocks. -/
theorem Closed.not_listOverruns {seen : Std.TreeSet Nat} (bounded : m.size < wordLimit)
    (closed : m.Closed seen (some node)) (again : seen.contains node = true) {other : Nat}
    (member : seen.contains other = true) : ¬ m.ListOverruns steps other := by
  intro overruns
  induction overruns with
  | links far =>
    have ends := (closed _ member).1.ends
    omega
  | block aligned far =>
    have ends := (closed _ member).1.ends
    omega
  | later roomy link rest ih =>
    rcases (closed _ member).2 _ link with seenBefore | same
    · exact ih seenBefore
    · cases same
      exact ih again

/-- The scan of the list overflows where it comes to a node whose links end beyond 64 bits, or to an
aligned one at which the smallest block would. -/
theorem listFrom_overflowsIff {recorded : Nat} {known : Std.TreeSet Nat} {state : Scan.ListState}
    {node : Option Nat} (bounded : m.size < wordLimit)
    (counted : state.listed + steps = recorded + 1) (closed : m.Closed state.seen node) :
    OverflowsIff (Scan.listFrom m 32 recorded known steps node state)
      (∃ first, node = some first ∧ m.ListOverruns steps first) := by
  induction steps generalizing node state with
  | zero =>
    refine .answers (by rfl) ?_
    rintro ⟨_, _, overruns⟩
    cases overruns
  | succ steps ih =>
    cases node with
    | none =>
      refine .answers (by rfl) ?_
      rintro ⟨_, none, _⟩
      cases none
    | some node =>
      rw [Scan.listFrom]
      by_cases far : wordLimit ≤ node + 16
      · rw [follow_far far]
        exact .overflows rfl ⟨node, rfl, .links far⟩
      obtain ⟨next, follows, leads⟩ := exists_follow bounded (Nat.lt_of_not_le far)
      rw [Fault.bind_of_ok follows]
      by_cases cyclic : recorded < state.listed + 1 ∨ state.seen.contains node = true
      · rw [if_pos cyclic]
        refine .answers rfl ?_
        rintro ⟨_, ⟨⟩, overruns⟩
        rcases cyclic with long | again
        · obtain rfl : steps = 0 := by omega
          cases overruns with
          | links far' => exact far far'
          | later _ _ rest => cases rest
        · exact closed.not_listOverruns bounded again again overruns
      rw [if_neg cyclic]
      by_cases astray : node < 32 ∨ node % Block.alignment ≠ 0
      · rw [if_pos astray]
        refine .answers rfl ?_
        rintro ⟨_, ⟨⟩, overruns⟩
        have short : 64 < wordLimit := by decide
        simp only [Block.alignment] at astray
        cases overruns with
        | links far' => exact far far'
        | block aligned far' => omega
        | later roomy => exact astray.elim (Nat.not_lt.mpr roomy.above) (absurd roomy.aligned)
      rw [if_neg astray]
      have placed : 32 ≤ node ∧ node % 16 = 0 := by
        simp only [Block.alignment] at astray
        omega
      obtain ⟨steps, rfl⟩ : ∃ fewer, steps = fewer + 1 := ⟨steps - 1, by omega⟩
      by_cases huge : wordLimit ≤ node + Block.minSize
      · rw [(OverflowsIff.add node Block.minSize).eq_error huge]
        exact .overflows rfl ⟨node, rfl, .block placed.2 huge⟩
      rw [Fault.bind_of_ok (Checked.add_eq_ok (Nat.lt_of_not_le huge))]
      by_cases beyond : m.size < node + Block.minSize
      · rw [if_pos beyond]
        refine .answers rfl ?_
        rintro ⟨_, ⟨⟩, overruns⟩
        cases overruns with
        | links far' => exact far far'
        | block _ far' => exact huge far'
        | later roomy => exact Nat.not_lt.mpr roomy.ends beyond
      rw [if_neg beyond]
      have roomy : m.Roomy node := ⟨placed.1, placed.2, Nat.le_of_not_lt beyond⟩
      have ends := roomy.ends
      obtain ⟨head, header⟩ : ∃ head, m.header node = .ok head :=
        exists_header (by omega) (by omega)
      have back : m.backLink node = .ok (linkOfWord (m.word node)) := by
        rw [backLink, readWord, if_pos (by omega)]
        rfl
      rw [Fault.bind_of_ok header, Fault.bind_of_ok back]
      have within : node + 16 ≤ m.size := by omega
      have closed' : m.Closed (state.seen.insert node) next :=
        closed.insert roomy fun other link => (leads other).mpr ⟨within, link⟩
      refine ((ih (by simp only; omega) closed').map fun _ => ⟨_, rfl⟩).congr ?_
      constructor
      · rintro ⟨other, rfl, rest⟩
        exact ⟨node, rfl, .later roomy ((leads other).mp rfl).2 rest⟩
      · rintro ⟨_, ⟨⟩, overruns⟩
        cases overruns with
        | links far' => exact absurd far' far
        | block _ far' => exact absurd far' huge
        | later _ link rest => exact ⟨_, (leads _).mpr ⟨within, link⟩, rest⟩

end List

/-! ## The diagnoses -/

section Diagnoses

variable {m : Memory} {l : FreeList}

/-- The free list leads to a node that a diagnosis overflows at. -/
def Leads (l : FreeList) (overruns : Nat → Nat → Prop) : Prop :=
  ∃ first, l.head = some first ∧ overruns (l.length + 1) first

theorem list_overflowsIff (bounded : m.size < wordLimit) (l : FreeList) (free : List Nat) :
    OverflowsIff (Scan.list m 16 l free) (Leads l m.ListOverruns) := by
  have closed : m.Closed ∅ l.head := fun _ member => by simp at member
  have first : Checked.add 16 Block.prologueSize = .ok 32 := rfl
  rw [Scan.list, Fault.bind_of_ok first]
  refine (listFrom_overflowsIff bounded ?_ closed).map ?_
  · exact Nat.zero_add _
  · rintro ⟨violations, outcome⟩
    cases outcome <;> exact ⟨_, rfl⟩

theorem scan_overflowsIff (room : 32 ≤ m.size) (bounded : m.size < wordLimit) (l : FreeList) :
    OverflowsIff (m.scan 16 l)
      (m.ChainOverruns Block.LegalSize 32 ∨ Leads l m.ListOverruns) := by
  have early : ¬ (16 : Nat) < Block.wordSize := by decide
  have stop : Checked.add 16 Block.prologueSize = .ok 32 := rfl
  have place : Block.footerOffset 16 Block.prologueSize = .ok 16 := rfl
  obtain ⟨head, header⟩ : ∃ head, m.header 16 = .ok head := exists_header (by omega) (by omega)
  obtain ⟨foot, footer⟩ : ∃ foot, m.readTag 16 = .ok foot := exists_readTag (by omega)
  rw [scan, if_neg early, Fault.bind_of_ok stop, if_neg (Nat.not_lt.mpr room),
    Fault.bind_of_ok header, Fault.bind_of_ok place, Fault.bind_of_ok footer]
  refine (scanChain_overflowsIff (Nat.le_refl 32) room (by decide) none).bind fun chain _ => ?_
  exact (list_overflowsIff bounded l chain.2).map fun _ => ⟨_, rfl⟩

theorem stats_overflowsIff (room : 32 ≤ m.size) (count : Nat) :
    OverflowsIff (m.stats 16 count) (m.ChainOverruns (Block.minSize ≤ ·) 32) := by
  have stop : Checked.add 16 Block.prologueSize = .ok 32 := rfl
  rw [stats, Fault.bind_of_ok stop]
  exact (chainFrom_overflowsIff (by decide) room).map fun _ => ⟨_, rfl⟩

theorem walk_overflowsIff (bounded : m.size < wordLimit) (l : FreeList) :
    OverflowsIff (l.walk m) (Leads l m.WalkOverruns) := walkFrom_overflowsIff bounded l.head

/-- However damaged the memory, the blocks that the walk for the totals collects lie one behind the
other in it. -/
theorem chainFrom_within {blocks : List ChainBlock} {bp : Nat} (inside : bp ≤ m.size)
    (walked : m.chainFrom bp = .ok blocks) :
    bp + (blocks.map (·.tag.size)).sum ≤ m.size ∧
      32 * blocks.length ≤ (blocks.map (·.tag.size)).sum := by
  induction left : m.size - bp using Nat.strongRecOn generalizing bp blocks with
  | ind left ih =>
    subst left
    rw [chainFrom, Fault.bind_eq_ok] at walked
    obtain ⟨_, -, walked⟩ := walked
    rw [dif_neg (Nat.not_lt.mpr inside), Fault.bind_eq_ok] at walked
    obtain ⟨head, -, walked⟩ := walked
    split at walked
    · cases walked
      exact ⟨inside, by simp⟩
    rename_i large
    obtain ⟨stop, sum, walked⟩ := Fault.bind_eq_ok.mp walked
    obtain ⟨-, rfl⟩ := Checked.add_eq_ok_iff.mp sum
    split at walked
    · cases walked
      exact ⟨inside, by simp⟩
    rename_i ends
    obtain ⟨rest, later, same⟩ := Fault.bind_eq_ok.mp walked
    cases same
    simp only [Block.minSize] at large
    obtain ⟨total, many⟩ := ih (m.size - (bp + head.size)) (by omega) (by omega) later rfl
    rw [List.map_cons, List.sum_cons, List.length_cons]
    constructor
    · rw [← Nat.add_assoc]
      exact total
    · simp only
      omega

end Diagnoses

end Memory

theorem foldl_max_le (sizes : List Nat) (start : Nat) :
    sizes.foldl max start ≤ start + sizes.sum := by
  induction sizes generalizing start with
  | nil => exact Nat.le_refl start
  | cons size rest ih =>
    have below := ih (max start size)
    rw [List.foldl_cons, List.sum_cons]
    omega

/-- Blocks that take no more than `room` bytes together have totals that do not either. -/
theorem HeapStats.ofBlocks_le {blocks : List ChainBlock} {room : Nat}
    (total : (blocks.map (·.tag.size)).sum ≤ room)
    (many : 32 * blocks.length ≤ (blocks.map (·.tag.size)).sum)
    (size count : Nat) {totals : HeapStats}
    (known : HeapStats.ofBlocks size count blocks = totals) :
    totals.totalBlocks = totals.allocatedBlocks + totals.freeBlocks ∧
      32 * totals.totalBlocks ≤ room ∧ totals.allocatedBytes + totals.freeBytes ≤ room ∧
      totals.largestFreeBlock ≤ totals.freeBytes := by
  subst known
  have bytes := List.sum_map_filter_add_sum_map_filter_not (·.tag.allocated = true)
    (fun b : ChainBlock => b.tag.size) blocks
  have largest := foldl_max_le ((blocks.filter fun b => !b.tag.allocated).map (·.tag.size)) 0
  simp only [HeapStats.ofBlocks, ← List.sum_eq_foldl]
  refine ⟨List.length_eq_length_filter_add _, Nat.le_trans many total, ?_, by omega⟩
  simp only [Bool.decide_eq_true, Bool.not_eq_true, Bool.decide_eq_false] at bytes
  omega

namespace Heap

variable {arena : LimitedArena} {config : HeapConfig} {n : Nat} {h : Heap LimitedArena}
  {ledger : Ledger} {m : Memory}

/-- A heap whose bytes have been overwritten. -/
def overwritten (h : Heap LimitedArena) (m : Memory) : Heap LimitedArena :=
  { h with arena := Arena.setMemory h.arena m }

/-- The nodes of a list in service are fewer than the bytes of the memory. -/
theorem Laid.length_lt {chain nodes : List ChainBlock} (laid : h.Laid chain nodes)
    (capped : h.memory.size < capacityLimit) : h.freeList.length + 1 < wordLimit := by
  have shows : h.freeList.Shows h.memory nodes := laid.settled.holds.shows
  have counted := shows.length
  have fewer := shows.length_le
  have half : capacityLimit + 1 < wordLimit := by decide
  omega

/-- Whatever bytes the memory of a heap in service has been overwritten with, each of the three
diagnoses has an answer, unless a sum that it forms with a damaged tag or link leaves 64 bits. The
walk along the list shows no more than one node beyond those counted, and no total is larger than
the memory. -/
theorem Reaches.diagnoses (reached : Reaches arena config n h ledger)
    (same : m.size = h.memory.size) :
    OverflowsIff (h.overwritten m).check
        (m.ChainOverruns Block.LegalSize 32 ∨ Memory.Leads h.freeList m.ListOverruns) ∧
      OverflowsIff (h.overwritten m).stats (m.ChainOverruns (Block.minSize ≤ ·) 32) ∧
      OverflowsIff (h.freeList.walk m) (Memory.Leads h.freeList m.WalkOverruns) ∧
      (∀ nodes, h.freeList.walk m = .ok nodes → nodes.length ≤ h.freeList.length + 1) ∧
      h.freeList.length + 1 < wordLimit ∧
      ∀ totals, (h.overwritten m).stats = .ok totals →
        totals.totalBlocks = totals.allocatedBlocks + totals.freeBlocks ∧
          32 + 32 * totals.totalBlocks ≤ m.size ∧
          32 + (totals.allocatedBytes + totals.freeBytes) ≤ m.size ∧
          totals.largestFreeBlock ≤ totals.freeBytes := by
  obtain ⟨chain, nodes, sound⟩ := reached.sound
  have laid := sound.backs.laid
  have capped := sound.capped
  have half : capacityLimit < wordLimit := by decide
  have room : 32 ≤ m.size := by
    have := sound.room
    omega
  have bounded : m.size < wordLimit := by omega
  have check : (h.overwritten m).check = m.scan 16 h.freeList := by
    rw [Heap.check, if_pos (by exact laid.initialized)]
    exact congrArg (m.scan · h.freeList) laid.prologue
  have stats : (h.overwritten m).stats = m.stats 16 h.freeList.length := by
    rw [Heap.stats, if_pos (by exact laid.initialized)]
    exact congrArg (m.stats · h.freeList.length) laid.prologue
  refine ⟨check ▸ Memory.scan_overflowsIff room bounded _, stats ▸ Memory.stats_overflowsIff room _,
    Memory.walk_overflowsIff bounded _, fun _ walked => Memory.length_walkFrom_le walked,
    laid.length_lt capped, fun totals known => ?_⟩
  have first : Checked.add 16 Block.prologueSize = .ok 32 := rfl
  rw [stats, Memory.stats, Fault.bind_of_ok first] at known
  obtain ⟨blocks, walked, same⟩ := Fault.bind_eq_ok.mp known
  obtain ⟨sum, many⟩ := Memory.chainFrom_within room walked
  obtain ⟨split, blocks, bytes, largest⟩ :=
    HeapStats.ofBlocks_le (Nat.le_sub_of_add_le' sum) many _ _ (Except.ok.inj same)
  exact ⟨split, by omega, by omega, largest⟩

/-- A header that tells of a block beyond 64 bits stops the scan and the totals, a link near the end
of 64 bits the walk. -/
theorem Reaches.diagnoses_overflow :
    ∃ h m, Reaches (.withLimit 4096) { HeapConfig.standard with chunkSize := 64 } 0 h .empty ∧
      m.size = h.memory.size ∧ (h.overwritten m).check = .error .overflow ∧
      (h.overwritten m).stats = .error .overflow ∧ h.freeList.walk m = .error .overflow := by
  have damage : ((do
      let laidOut ← init
      let (list, bytes) ← view fun h => (h.freeList, h.memory.size)
      let header ← Action.ask fun h =>
        ((h.memory.setWord 24 (wordLimit - 15)).setWord 40 (wordLimit - 8)).header 32
      let link ← Action.ask fun h =>
        ((h.memory.setWord 24 (wordLimit - 15)).setWord 40 (wordLimit - 8)).onLink 32
      return (laidOut.isOk, list, bytes, header, link) :
        Action (Heap LimitedArena) (Bool × FreeList × Nat × Tag × Option Nat)).result
        (new (.withLimit 4096) { HeapConfig.standard with chunkSize := 64 })).map (·.1) =
      .ok (true, ⟨some 32, 1⟩, 96, Tag.used (wordLimit - 16), some (wordLimit - 8)) := by
    decide +kernel
  obtain ⟨h, ran⟩ := Action.exists_run_of_result damage
  obtain ⟨laidOut, h₁, first, ran⟩ := Action.run_bind_eq_ok.mp ran
  obtain ⟨⟨list, bytes⟩, h₂, asked, ran⟩ := Action.run_bind_eq_ok.mp ran
  obtain ⟨header, h₃, found, ran⟩ := Action.run_bind_eq_ok.mp ran
  obtain ⟨link, h₄, linked, ran⟩ := Action.run_bind_eq_ok.mp ran
  cases laidOut <;> cases ran
  obtain ⟨shown, rfl⟩ := run_view_eq_ok.mp asked
  obtain ⟨listed, size⟩ := Prod.mk.inj shown
  obtain ⟨header, rfl⟩ := Action.run_ask_eq_ok.mp found
  obtain ⟨link, rfl⟩ := Action.run_ask_eq_ok.mp linked
  have reached := Reaches.start first
  have same : ((h₁.memory.setWord 24 (wordLimit - 15)).setWord 40 (wordLimit - 8)).size =
      h₁.memory.size := by rw [Memory.size_setWord, Memory.size_setWord]
  obtain ⟨check, stats, walk, -⟩ := Reaches.diagnoses reached same
  have inside : 32 + 16 ≤ h₁.memory.size := by
    rw [size]
    decide
  refine ⟨h₁, _, reached, same, (check .overflow).mpr ⟨rfl, .inl ?_⟩,
    (stats .overflow).mpr ⟨rfl, ?_⟩, (walk .overflow).mpr ⟨rfl, 32, ?_⟩⟩
  · exact .here header (by decide) (by decide)
  · exact .here header (by decide) (by decide)
  · rw [listed]
    exact ⟨rfl, .later (same ▸ inside) link (.here (by decide))⟩

end Heap

end BoundaryHeap
