import BoundaryHeap.Proofs.Action
import BoundaryHeap.Proofs.FreeList
import BoundaryHeap.Region

/-!
Linking and unlinking a block. Both write link words of the block and of its at most two
neighbours in the list and no other byte; a block that is linked joins the row behind the last
block that is no larger.
-/

namespace BoundaryHeap

/-! ## Words that hold links -/

namespace Memory

variable {m : Memory} {link : Option Nat} {bp : Nat}

/-- A link that one word can hold. -/
def Linkable (link : Option Nat) : Prop := ∀ bp ∈ link, 0 < bp ∧ bp < wordLimit

theorem wordOfLink_lt (linkable : Linkable link) : wordOfLink link < wordLimit := by
  cases link with
  | none => exact Nat.zero_lt_succ _
  | some bp => exact (linkable bp rfl).2

theorem linkOfWord_wordOfLink (linkable : Linkable link) :
    linkOfWord (wordOfLink link) = link := by
  cases link with
  | none => rfl
  | some bp =>
    have positive : bp ≠ 0 := Nat.ne_of_gt (linkable bp rfl).1
    simp [linkOfWord, wordOfLink, positive]

theorem backLink_eq_ok (inside : bp + 8 ≤ m.size) :
    m.backLink bp = .ok (linkOfWord (m.word bp)) := by
  rw [backLink, readWord, if_pos inside]
  rfl

theorem onLink_eq_ok (inside : bp + 16 ≤ m.size) (bounded : m.size < wordLimit) :
    m.onLink bp = .ok (linkOfWord (m.word (bp + 8))) := by
  have room : bp + 8 + 8 ≤ m.size := by omega
  have found : m.readWord (bp + 8) = .ok (m.word (bp + 8)) := if_pos room
  rw [onLink, Checked.add_eq_ok (by simp only [Block.wordSize]; omega)]
  exact congrArg (fun found => (return linkOfWord (← found))) found

theorem backLink_setWord (inside : bp + 8 ≤ m.size) (linkable : Linkable link) :
    (m.setWord bp (wordOfLink link)).backLink bp = .ok link := by
  have inside' : bp + 8 ≤ (m.setWord bp (wordOfLink link)).size := by rwa [size_setWord]
  rw [backLink_eq_ok inside', word_setWord m inside (wordOfLink_lt linkable),
    linkOfWord_wordOfLink linkable]

theorem onLink_setWord (inside : bp + 16 ≤ m.size) (bounded : m.size < wordLimit)
    (linkable : Linkable link) :
    (m.setWord (bp + 8) (wordOfLink link)).onLink bp = .ok link := by
  have same : (m.setWord (bp + 8) (wordOfLink link)).size = m.size := size_setWord ..
  have room : bp + 8 + 8 ≤ m.size := by omega
  rw [onLink_eq_ok (by omega) (by omega), word_setWord m room (wordOfLink_lt linkable),
    linkOfWord_wordOfLink linkable]

end Memory

/-! ## The four writes of a link -/

namespace Region

open FreeList

variable {r : Region} {before after target : Option Nat} {xs ys nodes : List ChainBlock}
  {b : ChainBlock}

/-- The word by which a node, if there is one, links on. -/
def onWord (node : Option Nat) (i : Nat) : Prop := ∃ bp ∈ node, bp + 8 ≤ i ∧ i < bp + 16

/-- The word by which a node, if there is one, links back. -/
def backWord (node : Option Nat) (i : Nat) : Prop := ∃ bp ∈ node, bp ≤ i ∧ i < bp + 8

theorem run_onList (change : FreeList → FreeList) :
    (onList change).run r = .ok () ⟨r.memory, change r.freeList⟩ := rfl

theorem setBackLink_ensures {bp : Nat} (inside : bp + 8 ≤ r.memory.size)
    (linkable : Memory.Linkable target) :
    (onMemory (Memory.setBackLink bp target)).Ensures r Action.Total fun _ r' =>
      r'.freeList = r.freeList ∧ r'.memory.backLink bp = .ok target ∧
        r.memory.ChangedOnly r'.memory fun i => bp ≤ i ∧ i < bp + 8 :=
  .focus <| .of_run (Memory.run_writeWord inside)
    ⟨rfl, Memory.backLink_setWord inside linkable, r.memory.setWord_changedOnly _ inside⟩

theorem setOnLink_ensures {bp : Nat} (inside : bp + 16 ≤ r.memory.size)
    (bounded : r.memory.size < wordLimit) (linkable : Memory.Linkable target) :
    (onMemory (Memory.setOnLink bp target)).Ensures r Action.Total fun _ r' =>
      r'.freeList = r.freeList ∧ r'.memory.onLink bp = .ok target ∧
        r.memory.ChangedOnly r'.memory fun i => bp + 8 ≤ i ∧ i < bp + 16 := by
  have fits : bp + Block.wordSize < wordLimit := by simp only [Block.wordSize]; omega
  have room : bp + 8 + 8 ≤ r.memory.size := by omega
  have changed := r.memory.setWord_changedOnly (Memory.wordOfLink target) room
  refine .focus (.lift (Checked.add_eq_ok fits) (.of_run (Memory.run_writeWord room) ⟨rfl, ?_, ?_⟩))
  · exact Memory.onLink_setWord inside bounded linkable
  · exact changed.mono fun i touched => ⟨touched.1, by omega⟩

/-- Pointing the last node of a row elsewhere changes where the row goes on and nothing else. The
head of the list takes the part of the last node of an empty row. -/
theorem pointOn_ensures (head : r.freeList.head = headOr xs after)
    (linked : Linked r.memory none xs after) (apart : xs.Pairwise ChainBlock.Apart)
    (inside : ∀ b ∈ xs, b.Inside r.memory) (bounded : r.memory.size < wordLimit)
    (linkable : Memory.Linkable target) :
    (pointOn (lastOr none xs) target).Ensures r Action.Total fun _ r' =>
      r'.freeList = ⟨headOr xs target, r.freeList.length⟩ ∧ Linked r'.memory none xs target ∧
        r.memory.ChangedOnly r'.memory (onWord (lastOr none xs)) := by
  cases List.eq_nil_or_concat xs with
  | inl same =>
    subst same
    exact .of_run rfl ⟨rfl, trivial, .refl _⟩
  | inr found =>
    obtain ⟨front, b, rfl⟩ := found
    rw [List.concat_eq_append] at *
    obtain ⟨frontLinked, back, -, -⟩ := Linked.append_iff.mp linked
    have bInside := inside b (by simp)
    have large := bInside.large
    have ends := bInside.ends
    simp only [ChainBlock.stop] at ends
    have kept : headOr (front ++ [b]) target = headOr (front ++ [b]) after := by
      rw [headOr_append, headOr_append]
      rfl
    rw [lastOr_append]
    apply (setOnLink_ensures (by omega) bounded linkable).imp
    rintro _ r' ⟨list, on', changed⟩
    refine ⟨?_, Linked.append_iff.mpr ⟨?_, ?_, on', trivial⟩, ?_⟩
    · rw [list, kept, ← head]
    · refine frontLinked.frame changed fun c member i hasLink touched => ?_
      have away := (List.pairwise_append.mp apart).2.2 c member b (by simp)
      have cLarge := (inside c (by simp [member])).large
      exact away.not_hasLink large (hasLink.covers cLarge) ⟨by omega, touched.2⟩
    · rw [changed.backLink fun i first last touched => by omega, back]
    · exact changed.mono fun i touched => ⟨b.bp, rfl, touched⟩

/-- Pointing the first node of a row back elsewhere changes what the row comes behind and nothing
else. -/
theorem pointBack_ensures (linked : Linked r.memory before ys after)
    (apart : ys.Pairwise ChainBlock.Apart) (inside : ∀ b ∈ ys, b.Inside r.memory)
    (linkable : Memory.Linkable target) :
    (pointBack (headOr ys none) target).Ensures r Action.Total fun _ r' =>
      r'.freeList = r.freeList ∧ Linked r'.memory target ys after ∧
        r.memory.ChangedOnly r'.memory (backWord (headOr ys none)) := by
  cases ys with
  | nil => exact .of_run rfl ⟨rfl, trivial, .refl _⟩
  | cons b rest =>
    obtain ⟨-, on, restLinked⟩ := linked
    obtain ⟨restApart, -⟩ := List.pairwise_cons.mp apart
    have bInside := inside b (by simp)
    have large := bInside.large
    have ends := bInside.ends
    simp only [ChainBlock.stop] at ends
    apply (setBackLink_ensures (by omega) linkable).imp
    rintro _ r' ⟨list, back', changed⟩
    refine ⟨list, ⟨back', ?_, ?_⟩, ?_⟩
    · rw [changed.onLink fun i first last touched => by omega, on]
    · refine restLinked.frame changed fun c member i hasLink touched => ?_
      have cLarge := (inside c (by simp [member])).large
      exact (restApart c member).symm.not_hasLink large (hasLink.covers cLarge)
        ⟨touched.1, by omega⟩
    · exact changed.mono fun i touched => ⟨b.bp, rfl, touched⟩

/-! ## Linking and unlinking -/

theorem hasLink_of_onWord {i : Nat} (touched : onWord (lastOr none xs) i) :
    ∃ c ∈ xs, c.HasLink i := by
  obtain ⟨bp, found, first, last⟩ := touched
  obtain ⟨c, member, rfl⟩ := mem_of_lastOr found
  exact ⟨c, member, by omega, last⟩

theorem hasLink_of_backWord {i : Nat} (touched : backWord (headOr ys none) i) :
    ∃ c ∈ ys, c.HasLink i := by
  obtain ⟨bp, found, first, last⟩ := touched
  obtain ⟨c, member, rfl⟩ := mem_of_headOr found
  exact ⟨c, member, first, by omega⟩

/-- No link of a row lies in a header of one of its blocks. -/
theorem not_hasLink_of_header {m : Memory} (apart : nodes.Pairwise ChainBlock.Apart)
    (inside : ∀ d ∈ nodes, d.Inside m) {c : ChainBlock} (member : c ∈ nodes) {i : Nat}
    (first : c.bp ≤ i + 8) (last : i < c.bp) : ∀ d ∈ nodes, ¬ d.HasLink i := by
  intro d dMem linked
  have covered : c.Covers i := by
    have large := (inside c member).large
    refine ⟨first, ?_⟩
    simp only [ChainBlock.stop]
    omega
  by_cases same : c = d
  · subst same
    exact Nat.not_le_of_lt last linked.1
  · exact (apart.forall member dMem same).not_hasLink (inside d dMem).large covered linked

/-- Writes to links of a row leave the headers of its blocks alone. -/
theorem headers_kept {m m' : Memory} {touched : Nat → Prop} (changed : m.ChangedOnly m' touched)
    (links : ∀ i, touched i → ∃ d ∈ nodes, d.HasLink i) (apart : nodes.Pairwise ChainBlock.Apart)
    (inside : ∀ d ∈ nodes, d.Inside m) (headers : ∀ c ∈ nodes, m.header c.bp = .ok c.tag) :
    ∀ c ∈ nodes, m'.header c.bp = .ok c.tag := by
  intro c member
  rw [changed.header, headers c member]
  intro i first last here
  obtain ⟨d, dMem, linked⟩ := links i here
  exact not_hasLink_of_header apart inside member first last d dMem linked

theorem not_onWord {c : ChainBlock} {i : Nat} (apart : ∀ d ∈ xs, c.Apart d)
    (inside : ∀ d ∈ xs, d.Inside r.memory) (covered : c.Covers i) :
    ¬ onWord (lastOr none xs) i := by
  intro touched
  obtain ⟨d, member, linked⟩ := hasLink_of_onWord touched
  exact (apart d member).not_hasLink (inside d member).large covered linked

theorem not_backWord {c : ChainBlock} {i : Nat} (apart : ∀ d ∈ ys, c.Apart d)
    (inside : ∀ d ∈ ys, d.Inside r.memory) (covered : c.Covers i) :
    ¬ backWord (headOr ys none) i := by
  intro touched
  obtain ⟨d, member, linked⟩ := hasLink_of_backWord touched
  exact (apart d member).not_hasLink (inside d member).large covered linked

theorem linkable_bp (inside : b.Inside r.memory) (bounded : r.memory.size < wordLimit) :
    Memory.Linkable (some b.bp) := by
  rintro _ ⟨⟩
  obtain ⟨tagged, large, ends⟩ := inside
  simp only [ChainBlock.stop] at ends
  exact ⟨by omega, by omega⟩

theorem linkable_lastOr (inside : ∀ b ∈ xs, b.Inside r.memory)
    (bounded : r.memory.size < wordLimit) :
    Memory.Linkable (lastOr none xs) := by
  intro bp found
  obtain ⟨c, member, rfl⟩ := mem_of_lastOr found
  exact linkable_bp (inside c member) bounded c.bp rfl

theorem linkable_headOr (inside : ∀ b ∈ ys, b.Inside r.memory)
    (bounded : r.memory.size < wordLimit) :
    Memory.Linkable (headOr ys none) := by
  intro bp found
  obtain ⟨c, member, rfl⟩ := mem_of_headOr found
  exact linkable_bp (inside c member) bounded c.bp rfl

/-- Two parts of a row are joined by what goes between them: the first part is pointed on to it, and
the second one back. Only the links at the two joints are written. -/
theorem bridge_ensures {β : Type} {next : Action Region β} {excused : Fault → Prop}
    {post : β → Region → Prop} {origin : Option Nat} (middle : List ChainBlock)
    (onTo : headOr (middle ++ ys) none = target) (backTo : lastOr none (xs ++ middle) = origin)
    (head : r.freeList.head = headOr xs after) (front : Linked r.memory none xs after)
    (between : Linked r.memory (lastOr none xs) middle (headOr ys none))
    (rest : Linked r.memory before ys none)
    (apart : (xs ++ (middle ++ ys)).Pairwise ChainBlock.Apart)
    (inside : ∀ c ∈ xs ++ (middle ++ ys), c.Inside r.memory) (bounded : r.memory.size < wordLimit)
    (last : ∀ r', r'.freeList = ⟨headOr (xs ++ (middle ++ ys)) none, r.freeList.length⟩ →
      Linked r'.memory none (xs ++ (middle ++ ys)) none →
      (r.memory.ChangedOnly r'.memory fun i =>
        onWord (lastOr none xs) i ∨ backWord (headOr ys none) i) →
      next.Ensures r' excused post) :
    Action.Ensures (do
      pointOn (lastOr none xs) target
      pointBack (headOr ys none) origin
      next) r excused post := by
  subst onTo backTo
  obtain ⟨frontApart, backApart, across⟩ := List.pairwise_append.mp apart
  obtain ⟨-, restApart, middleApart⟩ := List.pairwise_append.mp backApart
  have frontInside : ∀ c ∈ xs, c.Inside r.memory := by
    intro c member
    exact inside c (List.mem_append_left _ member)
  have backInside : ∀ c ∈ middle ++ ys, c.Inside r.memory := by
    intro c member
    exact inside c (List.mem_append_right _ member)
  have restInside : ∀ c ∈ ys, c.Inside r.memory := by
    intro c member
    exact backInside c (List.mem_append_right _ member)
  have earlierInside : ∀ c ∈ xs ++ middle, c.Inside r.memory := by
    intro c member
    cases List.mem_append.mp member with
    | inl front =>
      exact frontInside c front
    | inr here =>
      exact backInside c (List.mem_append_left _ here)
  apply Action.Ensures.bind ((pointOn_ensures head front frontApart frontInside bounded
    (linkable_headOr backInside bounded)).of_total)
  rintro _ r₁ ⟨list₁, front₁, changed₁⟩
  have kept₁ : ∀ c ∈ middle ++ ys, ∀ i, c.HasLink i → ¬ onWord (lastOr none xs) i := by
    intro c member i hasLink
    apply not_onWord (fun d front => (across d front c member).symm) frontInside
    exact hasLink.covers (backInside c member).large
  have between₁ := between.frame changed₁ fun c member => kept₁ c (List.mem_append_left _ member)
  have rest₁ := rest.frame changed₁ fun c member => kept₁ c (List.mem_append_right _ member)
  apply Action.Ensures.bind ((pointBack_ensures rest₁ restApart
    (fun c member => (restInside c member).congr changed₁.size)
    (linkable_lastOr (fun c member => (earlierInside c member).congr changed₁.size)
      (changed₁.size ▸ bounded))).of_total)
  rintro _ r₂ ⟨list₂, rest₂, changed₂⟩
  have kept₂ : ∀ c ∈ xs ++ middle, ∀ i, c.HasLink i → ¬ backWord (headOr ys none) i := by
    intro c member i hasLink
    have off : ∀ d ∈ ys, c.Apart d := by
      intro d back
      cases List.mem_append.mp member with
      | inl front =>
        exact across c front d (List.mem_append_right _ back)
      | inr here =>
        exact middleApart c here d back
    exact not_backWord off restInside (hasLink.covers (earlierInside c member).large)
  have front₂ := front₁.frame changed₂ fun c member => kept₂ c (List.mem_append_left _ member)
  have between₂ := between₁.frame changed₂ fun c member => kept₂ c (List.mem_append_right _ member)
  apply last r₂
  · rw [list₂, list₁, ← headOr_append]
  · rw [lastOr_append] at rest₂
    exact Linked.append_iff.mpr ⟨front₂, Linked.append_iff.mpr ⟨between₂, rest₂⟩⟩
  · exact changed₁.trans changed₂

/-- Linking a block between two parts of the row, once its place is known. -/
private theorem link_between_ensures (split : xs ++ ys = nodes)
    (linked : Linked r.memory none nodes none) (head : r.freeList.head = headOr nodes none)
    (placed : r.freeList.placeOf r.memory b.bp = .ok (lastOr none xs, headOr ys none))
    (apart : (xs ++ b :: ys).Pairwise ChainBlock.Apart)
    (inside : ∀ c ∈ xs ++ b :: ys, c.Inside r.memory) (bounded : r.memory.size < wordLimit) :
    (link b.bp).Ensures r Action.Total fun _ r' =>
      r'.freeList = ⟨headOr (xs ++ b :: ys) none, r.freeList.length + 1⟩ ∧
        Linked r'.memory none (xs ++ b :: ys) none ∧
        r.memory.ChangedOnly r'.memory fun i =>
          b.HasLink i ∨ onWord (lastOr none xs) i ∨ backWord (headOr ys none) i := by
  subst split
  obtain ⟨-, backApart, across⟩ := List.pairwise_append.mp apart
  obtain ⟨bApart, -⟩ := List.pairwise_cons.mp backApart
  have frontInside : ∀ c ∈ xs, c.Inside r.memory := by
    intro c member
    exact inside c (by simp [member])
  have backInside : ∀ c ∈ ys, c.Inside r.memory := by
    intro c member
    exact inside c (by simp [member])
  have bInside := inside b (by simp)
  have bLarge := bInside.large
  have bEnds := bInside.ends
  simp only [ChainBlock.stop] at bEnds
  obtain ⟨frontLinked, backLinked⟩ := Linked.append_iff.mp linked
  unfold link
  refine .ask placed ?_
  -- the block gets its own two links
  apply (setBackLink_ensures (by omega) (linkable_lastOr frontInside bounded)).bind
  rintro _ r₁ ⟨list₁, back₁, changed₁⟩
  have size₁ := changed₁.size
  apply (setOnLink_ensures (by omega) (by omega) (linkable_headOr backInside bounded)).bind
  rintro _ r₂ ⟨list₂, on₂, changed₂⟩
  have own : r.memory.ChangedOnly r₂.memory b.HasLink :=
    (changed₁.trans changed₂).mono fun i touched => ⟨by omega, by omega⟩
  have back₂ : r₂.memory.backLink b.bp = .ok (lastOr none xs) := by
    rw [changed₂.backLink fun i first last touched => by omega, back₁]
  have front₂ : Linked r₂.memory none xs (headOr ys none) := by
    apply frontLinked.frame own
    intro c member i hasLink
    exact (across c member b (by simp)).not_hasLink bLarge
      (hasLink.covers (frontInside c member).large)
  have rest₂ : Linked r₂.memory (lastOr none xs) ys none := by
    apply backLinked.frame own
    intro c member i hasLink
    exact (bApart c member).symm.not_hasLink bLarge (hasLink.covers (backInside c member).large)
  have head₂ : r₂.freeList.head = headOr xs (headOr ys none) := by
    rw [list₂, list₁, head, headOr_append]
  have backTo : lastOr none (xs ++ [b]) = some b.bp := lastOr_append
  -- and is put between its neighbours
  apply bridge_ensures [b] rfl backTo head₂ front₂ ⟨back₂, on₂, trivial⟩ rest₂ apart
    (fun c member => (inside c member).congr own.size) (own.size ▸ bounded)
  intro r₃ list₃ linked₃ changed₃
  refine .of_run (run_onList _) ⟨?_, linked₃, own.trans changed₃⟩
  simp only [list₃, list₂, list₁]
  rfl

/-- Linking puts a free block that is apart from the row behind the last block that is no larger.
Only the links of the block and one link of each of its two neighbours are written. -/
theorem link_ensures (shows : r.freeList.Shows r.memory nodes) (bounded : r.memory.size < wordLimit)
    (header : r.memory.header b.bp = .ok b.tag) (inside : b.Inside r.memory)
    (apart : ∀ c ∈ nodes, b.Apart c) :
    (link b.bp).Ensures r Action.Total fun _ r' =>
      r'.freeList.Shows r'.memory (enter b nodes) ∧
        r.memory.ChangedOnly r'.memory fun i =>
          b.HasLink i ∨ onWord (lastOr none (upTo b.tag.size nodes)) i ∨
            backWord (headOr (above b.tag.size nodes) none) i := by
  have apart' : (enter b nodes).Pairwise ChainBlock.Apart := by
    apply (List.Perm.pairwise_iff ChainBlock.Apart.symm enter_perm).mpr
    exact List.pairwise_cons.mpr ⟨apart, shows.apart⟩
  have inside' : ∀ c ∈ enter b nodes, c.Inside r.memory := by
    intro c member
    cases mem_enter.mp member with
    | inl same =>
      subst same
      exact inside
    | inr old =>
      exact shows.inside c old
  refine (link_between_ensures (upTo_append_above ..) shows.linked shows.head
    (shows.placeOf_eq header) apart' inside' bounded).imp ?_
  rintro _ r' ⟨list, linked, changed⟩
  refine ⟨?_, changed⟩
  have touched : ∀ i, (b.HasLink i ∨ onWord (lastOr none (upTo b.tag.size nodes)) i ∨
      backWord (headOr (above b.tag.size nodes) none) i) → ∃ c ∈ enter b nodes, c.HasLink i := by
    rintro i (own | before | behind)
    · exact ⟨b, mem_enter.mpr (.inl rfl), own⟩
    · obtain ⟨c, member, linked⟩ := hasLink_of_onWord before
      exact ⟨c, List.mem_append_left _ member, linked⟩
    · obtain ⟨c, member, linked⟩ := hasLink_of_backWord behind
      exact ⟨c, List.mem_append_right _ (List.mem_cons_of_mem b member), linked⟩
  have headers : ∀ c ∈ enter b nodes, r.memory.header c.bp = .ok c.tag := by
    intro c member
    cases mem_enter.mp member with
    | inl same =>
      subst same
      exact header
    | inr old =>
      exact shows.headers c old
  exact
    { head := congrArg FreeList.head list
      length := by rw [list, enter_perm.length_eq, List.length_cons, ← shows.length]
      linked
      headers := headers_kept changed touched apart' inside' headers
      sorted := enter_sorted shows.sorted
      inside := fun c member => (inside' c member).congr changed.size
      apart := apart' }

/-- Unlinking takes a block of the row out of it. Only one link of each of its two neighbours is
written. -/
theorem unlink_ensures (shows : r.freeList.Shows r.memory (xs ++ b :: ys))
    (bounded : r.memory.size < wordLimit) :
    (unlink b.bp).Ensures r Action.Total fun _ r' =>
      r'.freeList.Shows r'.memory (xs ++ ys) ∧
        r.memory.ChangedOnly r'.memory fun i =>
          onWord (lastOr none xs) i ∨ backWord (headOr ys none) i := by
  obtain ⟨frontLinked, back, on, restLinked⟩ := Linked.append_iff.mp shows.linked
  have fewer : List.Sublist (xs ++ ys) (xs ++ b :: ys) :=
    (List.sublist_cons_self b ys).append_left xs
  have apart := shows.apart.sublist fewer
  have inside : ∀ c ∈ xs ++ ys, c.Inside r.memory := by
    intro c member
    exact shows.inside c (fewer.subset member)
  have head : r.freeList.head = headOr xs (headOr (b :: ys) none) := by
    rw [shows.head, headOr_append]
  unfold unlink
  refine .ask back (.ask on ?_)
  have backTo : lastOr none (xs ++ []) = lastOr none xs := lastOr_append
  apply bridge_ensures [] rfl backTo head frontLinked trivial restLinked apart inside bounded
  intro r₁ list linked changed
  have links : ∀ i, onWord (lastOr none xs) i ∨ backWord (headOr ys none) i →
      ∃ c ∈ xs ++ ys, c.HasLink i := by
    rintro i (before | behind)
    · obtain ⟨c, member, linked⟩ := hasLink_of_onWord before
      exact ⟨c, List.mem_append_left _ member, linked⟩
    · obtain ⟨c, member, linked⟩ := hasLink_of_backWord behind
      exact ⟨c, List.mem_append_right _ member, linked⟩
  refine .of_run (run_onList _) ⟨?_, changed⟩
  exact
    { head := congrArg FreeList.head list
      length := by simp [list, shows.length]
      linked
      headers := headers_kept changed links apart inside fun c member =>
        shows.headers c (fewer.subset member)
      sorted := shows.sorted.sublist fewer
      inside := fun c member => (inside c member).congr changed.size
      apart }

end Region

end BoundaryHeap
