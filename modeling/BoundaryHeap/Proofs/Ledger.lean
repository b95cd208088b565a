import BoundaryHeap.Proofs.Service

/-!
What a client may rely on. A ledger holds, for each pointer that is live, the bytes asked for and
the payload bytes that are known. It changes with the calls and their answers alone; `Backed` says
that the allocated blocks of a heap are those of the ledger and hold what it says.
-/

namespace BoundaryHeap

open Heap (Allocated Carried)

/-- What a client knows of a block it holds. -/
structure Holding where
  /-- The bytes asked for. -/
  requested : Nat
  /-- The bytes of the payload, where they are known. -/
  known : Nat → Option UInt8

namespace Holding

/-- A block just handed out, with anything in it. -/
def fresh (request : Nat) : Holding := ⟨request, fun _ => none⟩

/-- A block handed out with its payload cleared. -/
def cleared (request : Nat) : Holding :=
  ⟨request, fun index => if index < request then some 0 else none⟩

/-- What is known of a block after it has been resized. -/
def resized (holding : Holding) (request : Nat) : Holding :=
  ⟨request, fun index => if index < request then holding.known index else none⟩

/-- What is known of a block after bytes have been written to it. -/
def written (holding : Holding) (offset : Nat) (values : List UInt8) : Holding :=
  { holding with
    known := fun index =>
      if offset ≤ index ∧ index < offset + values.length then values[index - offset]?
      else holding.known index }

/-- A block has room for what was asked for, and holds what is known of it. -/
def Fits (holding : Holding) (b : ChainBlock) (m : Memory) : Prop :=
  holding.requested + 16 ≤ b.tag.size ∧ ∀ index byte, holding.known index = some byte →
    index + 16 < b.tag.size ∧ m.byte (b.bp + index) = byte

section Fits

variable {holding : Holding} {b b' : ChainBlock} {m m' : Memory} {request : Nat}

theorem Fits.kept (fits : holding.Fits b m) (kept : ∀ i, b.HasPayload i → m'.byte i = m.byte i) :
    holding.Fits b m' := by
  refine ⟨fits.1, ?_⟩
  intro index byte known
  obtain ⟨inside, held⟩ := fits.2 index byte known
  refine ⟨inside, (kept _ ⟨Nat.le_add_right .., ?_⟩).trans held⟩
  simp only [ChainBlock.stop]
  omega

theorem fits_fresh (enough : request + 16 ≤ b.tag.size) : (fresh request).Fits b m :=
  ⟨enough, fun _ _ known => by cases known⟩

theorem fits_cleared (enough : request + 16 ≤ b.tag.size)
    (zero : ∀ i, b.HasPayload i → m.byte i = 0) : (cleared request).Fits b m := by
  refine ⟨enough, ?_⟩
  intro index byte known
  simp only [cleared] at known
  split at known
  · cases known
    refine ⟨by omega, zero _ ⟨Nat.le_add_right .., ?_⟩⟩
    simp only [ChainBlock.stop]
    omega
  · cases known

/-- The start of what a block held is still known once it has been carried over. -/
theorem Fits.resized (fits : holding.Fits b m) (enough : request + 16 ≤ b'.tag.size)
    (bytes : ∀ index < min (b.tag.size - 16) request,
      m'.byte (b'.bp + index) = m.byte (b.bp + index)) : (holding.resized request).Fits b' m' := by
  refine ⟨enough, ?_⟩
  intro index byte known
  simp only [Holding.resized] at known
  split at known
  · obtain ⟨inside, held⟩ := fits.2 index byte known
    exact ⟨by omega, (bytes index (by omega)).trans held⟩
  · cases known

/-- A write adds to what is known, and leaves the rest of it alone. -/
theorem Fits.written (fits : holding.Fits b m) {offset : Nat} {values : List UInt8}
    (inside : offset + values.length + 16 ≤ b.tag.size)
    (changed : m.ChangedOnly m' fun i => b.bp + offset ≤ i ∧ i < b.bp + offset + values.length)
    (bytes : ∀ index (_ : index < values.length), m'.byte (b.bp + offset + index) = values[index]) :
    (holding.written offset values).Fits b m' := by
  refine ⟨fits.1, ?_⟩
  intro index byte known
  simp only [Holding.written] at known
  split at known
  next within =>
    obtain ⟨short, rfl⟩ := List.getElem?_eq_some_iff.mp known
    have found := bytes (index - offset) short
    have place : b.bp + offset + (index - offset) = b.bp + index := by omega
    rw [place] at found
    exact ⟨by omega, found⟩
  next beyond =>
    obtain ⟨within, held⟩ := fits.2 index byte known
    exact ⟨within, (changed.byte _ (by omega)).trans held⟩

end Fits

end Holding

/-- The live pointers of a client, with what is known of the blocks there. -/
def Ledger := Nat → Option Holding

namespace Ledger

/-- A ledger with no live pointer. -/
def empty : Ledger := fun _ => none

def add (ledger : Ledger) (ptr : Nat) (holding : Holding) : Ledger :=
  fun other => if other = ptr then some holding else ledger other

def drop (ledger : Ledger) (ptr : Nat) : Ledger :=
  fun other => if other = ptr then none else ledger other

/-- The ledger after a call that was answered. A resize renames a pointer, and no pointer at all is
as good as a block of which nothing is known. -/
def after (ledger : Ledger) : Call → Answer → Ledger
  | .allocate size, .block (some ptr) => ledger.add ptr (.fresh size)
  | .calloc count size, .block (some ptr) => ledger.add ptr (.cleared (count * size))
  | .release ptr, _ => ledger.drop ptr
  | .resize ptr size, .block answer =>
    if size = 0 then ledger.drop ptr
    else answer.elim ledger fun target =>
      (ledger.drop ptr).add target ((ledger ptr).elim (.fresh size) (·.resized size))
  | .write ptr offset values, .written true =>
    (ledger ptr).elim ledger fun holding => ledger.add ptr (holding.written offset values)
  | _, _ => ledger

/-- The calls a client may make: it does not lay the heap out again, passes live pointers or zero,
and writes within the payloads it holds. -/
def Permits (ledger : Ledger) (h : Heap LimitedArena) : Call → Prop
  | .init => False
  | .allocate _ => True
  | .calloc .. => True
  | .release ptr => ptr = 0 ∨ (ledger ptr).isSome
  | .resize ptr _ => ptr = 0 ∨ (ledger ptr).isSome
  | .write ptr offset values => (ledger ptr).isSome ∧
    ∃ length, h.usableSize ptr = .ok (some length) ∧ offset + values.length ≤ length

/-- The blocks in use are those of the ledger, and hold what it says. -/
structure Backed (ledger : Ledger) (held : List ChainBlock) (m : Memory) : Prop where
  entered : ∀ b ∈ held, (ledger b.bp).isSome
  fits : ∀ ptr holding, ledger ptr = some holding → ∃ b ∈ held, b.bp = ptr ∧ holding.Fits b m

section Changes

variable {ledger : Ledger} {ptr other : Nat} {holding : Holding}

@[simp] theorem add_self : ledger.add ptr holding ptr = some holding := if_pos rfl

theorem add_of_ne (different : other ≠ ptr) : ledger.add ptr holding other = ledger other :=
  if_neg different

@[simp] theorem drop_self : ledger.drop ptr ptr = none := if_pos rfl

theorem drop_of_ne (different : other ≠ ptr) : ledger.drop ptr other = ledger other :=
  if_neg different

/-- Dropping a pointer only to add it again changes its holding. -/
theorem add_drop : (ledger.drop ptr).add ptr holding = ledger.add ptr holding := by
  funext other
  simp only [add, drop]
  split <;> rfl

theorem drop_of_none (unknown : ledger ptr = none) : ledger.drop ptr = ledger := by
  funext other
  simp only [drop]
  split
  next same => rw [same, unknown]
  next => rfl

end Changes

namespace Backed

variable {ledger : Ledger} {held others : List ChainBlock} {m m' : Memory} {b : ChainBlock}
  {holding : Holding}

theorem perm (backed : ledger.Backed held m) (perm : held.Perm others) :
    ledger.Backed others m where
  entered := fun c member => backed.entered c (perm.mem_iff.mpr member)
  fits := by
    intro ptr holding found
    obtain ⟨c, member, rest⟩ := backed.fits ptr holding found
    exact ⟨c, perm.mem_iff.mp member, rest⟩

theorem keeps (backed : ledger.Backed held m) (keeps : Keeps m m' held) :
    ledger.Backed held m' where
  entered := backed.entered
  fits := by
    intro ptr holding found
    obtain ⟨c, member, place, fits⟩ := backed.fits ptr holding found
    exact ⟨c, member, place, fits.kept (keeps c member)⟩

theorem add (backed : ledger.Backed held m) (fits : holding.Fits b m) :
    (ledger.add b.bp holding).Backed (b :: held) m where
  entered := by
    intro c member
    by_cases same : c.bp = b.bp
    · rw [same, add_self]
      rfl
    · have older : c ∈ held := (List.mem_cons.mp member).resolve_left fun eq => same (eq ▸ rfl)
      rw [add_of_ne same]
      exact backed.entered c older
  fits := by
    intro ptr found known
    by_cases same : ptr = b.bp
    · subst same
      obtain rfl : holding = found := Option.some.inj (add_self.symm.trans known)
      exact ⟨b, List.mem_cons_self .., rfl, fits⟩
    · rw [add_of_ne same] at known
      obtain ⟨c, member, rest⟩ := backed.fits ptr found known
      exact ⟨c, List.mem_cons_of_mem _ member, rest⟩

theorem drop (backed : ledger.Backed (b :: held) m) (different : ∀ c ∈ held, c.bp ≠ b.bp) :
    (ledger.drop b.bp).Backed held m where
  entered := by
    intro c member
    rw [drop_of_ne (different c member)]
    exact backed.entered c (List.mem_cons_of_mem _ member)
  fits := by
    intro ptr found known
    by_cases same : ptr = b.bp
    · subst same
      cases drop_self.symm.trans known
    · rw [drop_of_ne same] at known
      obtain ⟨c, member, place, fits⟩ := backed.fits ptr found known
      have older : c ∈ held :=
        (List.mem_cons.mp member).resolve_left fun eq => same (eq ▸ place.symm)
      exact ⟨c, older, place, fits⟩

/-- A pointer at which no block in use starts is not live. -/
theorem eq_none (backed : ledger.Backed held m) {ptr : Nat} (different : ∀ b ∈ held, b.bp ≠ ptr) :
    ledger ptr = none := by
  cases found : ledger ptr with
  | none => rfl
  | some holding =>
    obtain ⟨b, member, place, -⟩ := backed.fits ptr holding found
    exact absurd place (different b member)

end Backed

end Ledger

end BoundaryHeap
