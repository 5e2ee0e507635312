import Balrog.HeapAlloc

/-!
# Freeing a block and joining its free neighbours

`heap_free` of `src/shared/memory/heap.c` clears the block's flag, joins it to a
free block before it, walks forward from the block after it to find the next
free block (absorbing the immediate neighbour when that is free), enters the
result in the free list, and tells the block above about it.

The two walks have fuel. Both are shown to finish within the number of blocks of
the heap. The result is again a tiling: the freed block and its free neighbours
are one free block, and everything else is as before.
-/

namespace Balrog.HeapFree

open ByteMemory BlockInfo BlockTiling HeapAlloc Option

/-- Absorb the free block after `block`. The source also assigns four of the
block's fields to themselves, which changes nothing. An absorbed block cannot
stay the first free block. -/
def absorb (heap : Heap) (block nextBlock : Nat) : Heap :=
  let memory := setSize heap.memory block
    ((header heap.memory block).size + ((header heap.memory nextBlock).size + headerSize))
  { memory := setNextFree memory block (header memory nextBlock).nextFree
    firstFree := if heap.firstFree = nextBlock then block else heap.firstFree }

/-- The forward walk. It stops at the top or at a free block that is not absorbed,
and records where it stopped as the block's successor in the free list. -/
def coalesce : Nat → Heap → Nat → Nat → Nat → Nat → Bool → Option Heap
  | 0, _, _, _, _, _, _ => none
  | fuel + 1, heap, block, nextBlock, currentTop, blockMaxSize, contiguous =>
    if nextBlock < currentTop then
      if (header heap.memory nextBlock).isMmapped = true then
        coalesce fuel heap block
          (nextBlock + ((header heap.memory nextBlock).size + headerSize))
          currentTop blockMaxSize false
      else if (header heap.memory block).size + headerSize < blockMaxSize ∧ contiguous = true then
        coalesce fuel (absorb heap block nextBlock) block
          (nextBlock + ((header (absorb heap block nextBlock).memory nextBlock).size + headerSize))
          currentTop blockMaxSize false
      else some { heap with memory := setNextFree heap.memory block nextBlock }
    else some { heap with memory := setNextFree heap.memory block currentTop }

/-- Walk the free list from `first` to the last block before `block`. -/
def lastBefore : Nat → Bytes → Nat → Nat → Option Nat
  | 0, _, _, _ => none
  | fuel + 1, memory, first, block =>
    if first ≠ 0 ∧ (header memory first).nextFree ≠ 0 ∧
        (header memory first).nextFree < block then
      lastBefore fuel memory (header memory first).nextFree block
    else some first

/-- Enter the block in the free list, at its head or after the last free block
before it. A block already in the list keeps its place. -/
def insertFree (fuel : Nat) (heap : Heap) (block : Nat) : Option Heap :=
  if block < heap.firstFree then
    some { memory := setNextFree heap.memory block heap.firstFree, firstFree := block }
  else do
    let first ← lastBefore fuel heap.memory heap.firstFree block
    if first ≠ block then some { heap with memory := setNextFree heap.memory first block }
    else some heap

/-- Join the block to the free block before it, if its `_present` flag says there
is one. Returns the memory and the block that now covers both. -/
def joinPrevious (memory : Bytes) (block : Nat) : Bytes × Nat :=
  if (header memory block).present = true then
    let previous := (header memory block).previousChunk
    (setSize memory previous
      ((header memory previous).size + ((header memory block).size + headerSize)), previous)
  else (memory, block)

/-- Tell the block after a freed one that its neighbour is free. -/
def openAfter (memory : Bytes) (block currentTop : Nat) : Bytes :=
  let after := block + ((header memory block).size + headerSize)
  if after < currentTop then setPresent (setPreviousChunk memory after block) after true
  else memory

/-- `heap_free`. `none` only stands for a walk that exceeds its fuel. -/
def heapFree (fuel : Nat) (heap : Heap) (block nextBlock currentTop blockMaxSize : Nat) :
    Option Heap := do
  let joined := joinPrevious (setIsMmapped heap.memory block false) block
  let walked ← coalesce fuel { heap with memory := joined.1 } joined.2 nextBlock currentTop
    blockMaxSize true
  let inserted ← insertFree fuel walked joined.2
  let opened := openAfter inserted.memory joined.2 currentTop
  some { inserted with memory := setFull opened joined.2 false }

/-- The blocks behind a freed one: a free neighbour has been merged into it. -/
def raised : List Block → List Block
  | first :: rest => if first.free then rest else first :: rest
  | [] => []

/-- Size of a freed block once it has absorbed a free block above it. -/
def raisedSize (size : Nat) : List Block → Nat
  | first :: _ => if first.free then size + (first.size + headerSize) else size
  | [] => size

/-- A heap in the middle of freeing a block: the blocks below `block` and above
its end are tagged, the block itself has the given size and is marked free, and
nothing below touches it. The free list is not yet consistent; below the block
it runs to some address not before it. -/
structure Opened (memory : Bytes) (start currentTop : Nat) (below : List Block)
    (block size : Nat) (above : List Block) (beyond : Nat) : Prop where
  lower : Tagged headerSize (tag memory) none start below beyond
  apart : freeBefore headerSize none start below = none
  located : start + span headerSize below = block
  sized : (header memory block).size = size
  unmapped : (header memory block).isMmapped = false
  unpreceded : (header memory block).present = false
  upper : ∃ before, Tagged headerSize (tag memory) before (block + (headerSize + size)) above
    currentTop
  ends : block + (headerSize + size) + span headerSize above = currentTop
  after : block ≤ beyond

variable {heap : Heap} {freed first : Block}

section Phases

variable {memory : Bytes} {start currentTop block size beyond : Nat} {below above : List Block}

/-- Rewriting the block's own header leaves everything around it alone. -/
theorem Opened.rewrite (opened : Opened memory start currentTop below block size above beyond)
    (changed : Bytes)
    (same : ∀ probe, probe < block ∨ block + headerSize ≤ probe → changed probe = memory probe)
    (sized : (header changed block).size = size)
    (unmapped : (header changed block).isMmapped = false)
    (unpreceded : (header changed block).present = false) :
    Opened changed start currentTop below block size above beyond := by
  obtain ⟨lower, apart, located, _, _, _, ⟨before, upper⟩, ends, after⟩ := opened
  refine ⟨?_, apart, located, sized, unmapped, unpreceded, ⟨before, ?_⟩, ends, after⟩
  · exact tagged_frame lower (fun byte _ high => same byte (by omega))
  · exact tagged_frame upper (fun byte low _ => same byte (by omega))

/-- Assigning the block's successor keeps the rest of the picture. -/
theorem Opened.link (opened : Opened memory start currentTop below block size above beyond)
    (next : Nat) :
    Opened (setNextFree memory block next) start currentTop below block size above beyond := by
  refine opened.rewrite _ (fun probe outside => set_next_free_outside outside) ?_ ?_ ?_
  · simpa only [header_set_next_free] using opened.sized
  · simpa only [header_set_next_free] using opened.unmapped
  · simpa only [header_set_next_free] using opened.unpreceded

theorem absorb_outside {block nextBlock probe : Nat}
    (outside : probe < block ∨ block + headerSize ≤ probe) :
    (absorb heap block nextBlock).memory probe = heap.memory probe := by
  simp only [absorb, set_next_free_outside outside, set_size_outside outside]

/-- Absorbing a neighbour extends the block to the end of that neighbour. -/
theorem Opened.absorbed {rest : List Block}
    (opened : Opened heap.memory start currentTop below block size (first :: rest) beyond)
    (small : currentTop - start ≤ 2 ^ 60) :
    Opened (absorb heap block (block + (headerSize + size))).memory start currentTop below block
      (size + (first.size + headerSize)) rest beyond := by
  have width := header_size_eq
  obtain ⟨lower, apart, located, sized, unmapped, unpreceded, ⟨before, upper⟩, ends, after⟩ := opened
  obtain ⟨⟨sizeTag, _⟩, restTagged⟩ := upper
  have firstSize : (header heap.memory (block + (headerSize + size))).size = first.size := sizeTag
  simp only [span_cons] at ends
  have grown : block + (headerSize + (size + (first.size + headerSize))) =
      block + (headerSize + size) + (headerSize + first.size) := by omega
  refine ⟨?_, apart, located, ?_, ?_, ?_,
    ⟨if first.free then some (block + (headerSize + size)) else none, ?_⟩, by omega, after⟩
  · exact tagged_frame lower (fun byte _ high => absorb_outside (by omega))
  · simp only [absorb, header_set_next_free, header_set_size, sized, firstSize]
    exact Nat.mod_eq_of_lt (by omega)
  · simpa only [absorb, header_set_next_free, header_set_size] using unmapped
  · simpa only [absorb, header_set_next_free, header_set_size] using unpreceded
  · rw [grown]
    exact tagged_frame restTagged (fun byte low _ => absorb_outside (by omega))

/-- Past the immediate neighbour the walk only looks for the next free block. -/
theorem coalesce_scan (fuel : Nat) (heap : Heap) (block nextBlock currentTop blockMaxSize : Nat)
    (rest : List Block) (before : Option Nat)
    (tagged : Tagged headerSize (tag heap.memory) before nextBlock rest currentTop)
    (ends : nextBlock + span headerSize rest = currentTop) (enough : rest.length < fuel) :
    coalesce fuel heap block nextBlock currentTop blockMaxSize false =
      some { heap with
        memory := setNextFree heap.memory block
          (firstFree headerSize nextBlock rest currentTop) } := by
  have width := header_size_eq
  induction rest generalizing fuel nextBlock before with
  | nil =>
    obtain ⟨fuel, rfl⟩ := Nat.exists_eq_succ_of_ne_zero (Nat.ne_of_gt enough)
    simp only [span_nil, Nat.add_zero] at ends
    simp only [coalesce, ends, Nat.lt_irrefl, if_false, firstFree]
  | cons first rest ih =>
    obtain ⟨fuel, rfl⟩ := Nat.exists_eq_succ_of_ne_zero (show fuel ≠ 0 by omega)
    obtain ⟨⟨sizeTag, freeTag, _⟩, restTagged⟩ := tagged
    simp only [span_cons, List.length_cons] at ends enough
    have inside : nextBlock < currentTop := by omega
    have firstSize : (header heap.memory nextBlock).size = first.size := sizeTag
    have firstFlag : (!(header heap.memory nextBlock).isMmapped) = first.free := freeTag
    cases status : first.free with
    | true =>
      have unmapped : (header heap.memory nextBlock).isMmapped = false := by
        simpa [status] using firstFlag
      simp [coalesce, inside, unmapped, firstFree, status]
    | false =>
      have mapped : (header heap.memory nextBlock).isMmapped = true := by
        simpa [status] using firstFlag
      have step : nextBlock + ((header heap.memory nextBlock).size + headerSize) =
          nextBlock + (headerSize + first.size) := by omega
      simp only [status, Bool.false_eq_true, if_false] at restTagged
      simp only [coalesce, inside, if_true, mapped, step, firstFree, status, Bool.false_eq_true,
        if_false]
      exact ih fuel _ _ restTagged (by omega) (by omega)

/-- From a block that is not absorbed the walk only records the block's successor. -/
theorem coalesce_links (heap : Heap) (fuel blockMaxSize : Nat)
    (opened : Opened heap.memory start currentTop below block size above beyond)
    (enough : above.length < fuel) (fits : currentTop < 256 ^ 8) :
    ∃ after,
      coalesce fuel heap block (block + (headerSize + size)) currentTop blockMaxSize false =
        some after ∧
      Opened after.memory start currentTop below block size above beyond ∧
      (header after.memory block).nextFree =
        firstFree headerSize (block + (headerSize + size)) above currentTop ∧
      after.firstFree = heap.firstFree := by
  obtain ⟨before, upper⟩ := opened.upper
  have bound := first_free_bounds headerSize (block + (headerSize + size)) above
  rw [opened.ends] at bound
  refine ⟨_, coalesce_scan fuel heap block _ currentTop blockMaxSize above before upper opened.ends
    enough, opened.link _, ?_, rfl⟩
  rw [header_set_next_free]
  exact Nat.mod_eq_of_lt (by omega)

/-- The forward walk as a whole. A free neighbour above is absorbed; the block's
successor in the free list becomes the first free block left above. The size
limit never prevents the merge, since a block with a neighbour is smaller than
the heap. -/
theorem coalesce_spec (heap : Heap) (fuel blockMaxSize : Nat)
    (opened : Opened heap.memory start currentTop below block size above beyond)
    (enough : above.length < fuel) (limit : currentTop - start ≤ blockMaxSize)
    (fits : currentTop < 256 ^ 8) (small : currentTop - start ≤ 2 ^ 60) :
    ∃ after,
      coalesce fuel heap block (block + (headerSize + size)) currentTop blockMaxSize true =
        some after ∧
      Opened after.memory start currentTop below block (raisedSize size above) (raised above)
        beyond ∧
      (header after.memory block).nextFree =
        firstFree headerSize (block + (headerSize + raisedSize size above)) (raised above)
          currentTop ∧
      after.firstFree =
        if raised above ≠ above ∧ heap.firstFree = block + (headerSize + size) then block
        else heap.firstFree := by
  have width := header_size_eq
  obtain ⟨before, upper⟩ := opened.upper
  have ends := opened.ends
  have located := opened.located
  obtain ⟨fuel, rfl⟩ := Nat.exists_eq_succ_of_ne_zero (Nat.ne_of_gt (Nat.zero_lt_of_lt enough))
  cases above with
  | nil =>
    obtain ⟨after, walk, linked, next, head⟩ := coalesce_links heap _ blockMaxSize opened enough fits
    refine ⟨after, walk ▸ ?_, linked, next, by simp [raised, head]⟩
    simp only [span_nil, Nat.add_zero] at ends
    simp only [coalesce, ends, Nat.lt_irrefl, if_false]
  | cons first rest =>
    obtain ⟨⟨sizeTag, freeTag, _⟩, _⟩ := upper
    simp only [span_cons] at ends
    have inside : block + (headerSize + size) < currentTop := by omega
    have firstSize : (header heap.memory (block + (headerSize + size))).size = first.size := sizeTag
    have firstFlag : (!(header heap.memory (block + (headerSize + size))).isMmapped) =
        first.free := freeTag
    cases status : first.free with
    | false =>
      have mapped : (header heap.memory (block + (headerSize + size))).isMmapped = true := by
        simpa [status] using firstFlag
      obtain ⟨after, walk, linked, next, head⟩ := coalesce_links heap _ blockMaxSize opened enough
        fits
      simp only [raised, raisedSize, status, Bool.false_eq_true, if_false]
      refine ⟨after, walk ▸ ?_, linked, next, by simp [head]⟩
      simp only [coalesce, inside, if_true, mapped]
    | true =>
      have unmapped : (header heap.memory (block + (headerSize + size))).isMmapped = false := by
        simpa [status] using firstFlag
      have roomy : (header heap.memory block).size + headerSize < blockMaxSize := by
        rw [opened.sized]
        omega
      have sizeKept : (header (absorb heap block (block + (headerSize + size))).memory
          (block + (headerSize + size))).size = first.size := by
        rw [@header_frame _ heap.memory _ (fun probe low _ => absorb_outside (by omega))]
        exact firstSize
      have step : block + (headerSize + size) + (first.size + headerSize) =
          block + (headerSize + (size + (first.size + headerSize))) := by omega
      obtain ⟨after, walk, linked, next, head⟩ := coalesce_links _ fuel blockMaxSize
        (opened.absorbed small) (Nat.lt_of_succ_lt_succ enough) fits
      simp only [raised, raisedSize, status, if_true]
      refine ⟨after, walk ▸ ?_, linked, next, by simp [head, absorb]⟩
      simp only [coalesce, inside, if_true, unmapped, Bool.false_eq_true, if_false, roomy,
        and_self, sizeKept, step]

/-- The list walk from any free block below ends at the last free block below:
each block points to the next free one, and the last points past the limit. -/
theorem last_before_spec (fuel : Nat) (memory : Bytes) (start limit beyond last : Nat)
    (before : Option Nat) (blocks : List Block)
    (tagged : Tagged headerSize (tag memory) before start blocks beyond)
    (found : lastFree headerSize start blocks = some last) (positive : 0 < start)
    (inside : start + span headerSize blocks ≤ limit) (after : limit ≤ beyond)
    (enough : blocks.length < fuel) :
    lastBefore fuel memory (firstFree headerSize start blocks beyond) limit = some last := by
  have width := header_size_eq
  induction fuel generalizing start before blocks with
  | zero => omega
  | succ fuel ih =>
    rcases first_free_cases headerSize start blocks beyond with
      used | ⟨below, block, above, rfl, used, free, located⟩
    · rw [(last_free_none headerSize start blocks).mpr used] at found
      cases found
    · rw [located]
      rw [tagged_append] at tagged
      obtain ⟨_, ⟨⟨_, _, _, _, nextTag⟩, aboveTagged⟩⟩ := tagged
      have next : (header memory (start + span headerSize below)).nextFree =
          firstFree headerSize (start + span headerSize below + (headerSize + block.size)) above
            beyond := (nextTag free).2
      simp only [span_append, span_cons, List.length_append, List.length_cons] at inside enough
      simp only [last_free_append, lastFree, free, if_true,
        (last_free_none headerSize start below).mpr used, or_none] at found
      simp only [lastBefore, next]
      cases later : lastFree headerSize (start + span headerSize below +
          (headerSize + block.size)) above with
      | none =>
        have aboveUsed := (last_free_none headerSize _ above).mp later
        simp only [later, none_or, Option.some.injEq] at found
        rw [first_free_used headerSize _ above beyond aboveUsed,
          if_neg (by rintro ⟨_, _, low⟩; omega)]
        exact congrArg some found
      | some final =>
        simp only [later, some_or, Option.some.injEq] at found
        subst found
        have continued := ih _ _ above aboveTagged later (by omega) (by omega)
          (by omega)
        rcases first_free_cases headerSize (start + span headerSize below +
            (headerSize + block.size)) above beyond with
          aboveUsed | ⟨lower, _, upper, same, _, _, placed⟩
        · rw [(last_free_none headerSize _ above).mpr aboveUsed] at later
          cases later
        · rw [same] at inside
          simp only [span_append, span_cons] at inside
          rw [if_pos (by rw [placed]; omega)]
          exact continued

/-- Entering the block in the free list. Afterwards the list runs from below
straight into the block, whose own successor is unchanged.

If nothing below is free, the block is already the head or goes in front of it.
Otherwise the head stands below and the walk finds the last free block there. -/
theorem insert_free_spec (heap : Heap) (fuel next : Nat)
    (opened : Opened heap.memory start currentTop below block size above beyond)
    (successor : (header heap.memory block).nextFree = next) (follows : block < next)
    (headBelow : ∀ last, lastFree headerSize start below = some last →
      heap.firstFree = firstFree headerSize start below beyond)
    (headHere : lastFree headerSize start below = none →
      heap.firstFree = block ∨ heap.firstFree = next)
    (positive : 0 < start) (fits : next < 256 ^ 8) (enough : below.length < fuel) :
    ∃ after, insertFree fuel heap block = some after ∧
      Opened after.memory start currentTop below block size above block ∧
      (header after.memory block).nextFree = next ∧
      after.firstFree = firstFree headerSize start below block := by
  have width := header_size_eq
  have located := opened.located
  cases found : lastFree headerSize start below with
  | none =>
    have used := (last_free_none headerSize start below).mp found
    have retarget (memory : Bytes)
        (opened : Opened memory start currentTop below block size above beyond) :
        Opened memory start currentTop below block size above block :=
      { opened with
        lower := tagged_used headerSize _ _ _ _ _ used opened.lower
        after := Nat.le_refl _ }
    rw [first_free_used headerSize start below block used]
    rcases headHere found with atBlock | atNext
    · obtain ⟨fuel, rfl⟩ := Nat.exists_eq_succ_of_ne_zero (show fuel ≠ 0 by omega)
      refine ⟨heap, ?_, retarget _ opened, successor, atBlock⟩
      have stops : ¬ (block ≠ 0 ∧ next ≠ 0 ∧ next < block) := by omega
      simp [insertFree, atBlock, lastBefore, successor, stops]
    · refine ⟨{ memory := setNextFree heap.memory block next, firstFree := block }, ?_,
        retarget _ (opened.link next), ?_, rfl⟩
      · simp only [insertFree, atNext, follows, if_true]
      · simp only [header_set_next_free]
        exact Nat.mod_eq_of_lt fits
  | some last =>
    obtain ⟨lower, lastBlock, upper, split, free, _, address⟩ :=
      last_free_split headerSize start below last found
    have belowSpan : start + span headerSize below = block := located
    rw [split] at belowSpan
    simp only [span_append, span_cons] at belowSpan
    have head := headBelow last found
    have walked := last_before_spec fuel heap.memory start block beyond last none below
      opened.lower found positive (by omega) opened.after enough
    have headBound : heap.firstFree ≤ block := by
      rcases first_free_cases headerSize start below beyond with
        used | ⟨low, _, high, same, _, _, placed⟩
      · rw [(last_free_none headerSize start below).mpr used] at found
        cases found
      · rw [head, placed, ← located, same]
        simp only [span_append, span_cons]
        omega
    have kept : ∀ probe, block ≤ probe → setNextFree heap.memory last block probe =
        heap.memory probe :=
      fun probe low => set_next_free_outside (by omega)
    have blockKept : header (setNextFree heap.memory last block) block =
        header heap.memory block :=
      header_frame (fun probe low _ => kept probe low)
    obtain ⟨before, upperTagged⟩ := opened.upper
    refine ⟨{ heap with memory := setNextFree heap.memory last block }, ?_, ?_, ?_, ?_⟩
    · have notBefore : ¬ block < heap.firstFree := by omega
      have different : last ≠ block := by omega
      rw [← head] at walked
      simp [insertFree, notBefore, walked, different]
    · refine ⟨?_, opened.apart, located, ?_, ?_, ?_, ⟨before, ?_⟩, opened.ends, Nat.le_refl _⟩
      · refine tagged_relink headerSize _ _ _ _ _ opened.lower ?_ ?_
        · intro probe _ _ apart
          have apart := apart last found
          exact tag_frame (fun byte _ _ => set_next_free_outside (by omega))
        · intro final same
          obtain rfl := Option.some.inj (found.symm.trans same)
          simp only [tag, header_set_next_free, Nat.mod_eq_of_lt (show block < 256 ^ 8 by omega)]
      · rw [blockKept]
        exact opened.sized
      · rw [blockKept]
        exact opened.unmapped
      · rw [blockKept]
        exact opened.unpreceded
      · exact tagged_frame upperTagged (fun byte low _ => kept byte (by omega))
    · rw [blockKept]
      exact successor
    · simp only [head, split, first_free_append, firstFree, free, if_true]

/-- Joining backwards. Whether or not the block before is free, the result is an
opened heap around one block that ends where the freed block ended, and the
blocks in use below it are those below the freed block.

With a free block before it, the freed block's tag names it; the list below runs
to that block. Otherwise the list below runs past the freed block to the first
free block above. -/
theorem join_previous_spec (tiled : Tiled heap start currentTop (below ++ freed :: above))
    (used : freed.free = false) (small : currentTop - start ≤ 2 ^ 60) :
    ∃ lower memory block size beyond,
      joinPrevious (setIsMmapped heap.memory (start + span headerSize below) false)
        (start + span headerSize below) = (memory, block) ∧
      Opened memory start currentTop lower block size above beyond ∧
      block + (headerSize + size) = start + span headerSize below + (headerSize + freed.size) ∧
      lower.length ≤ below.length ∧
      usedPlaces headerSize start lower = usedPlaces headerSize start below ∧
      (∀ last, lastFree headerSize start lower = some last →
        heap.firstFree = firstFree headerSize start lower beyond) ∧
      (lastFree headerSize start lower = none → heap.firstFree = block ∨
        heap.firstFree = firstFree headerSize (block + (headerSize + size)) above currentTop) := by
  have width := header_size_eq
  obtain ⟨tagged, ends, linked, fits⟩ := tiled
  rw [tagged_append] at tagged
  obtain ⟨belowTagged, ⟨⟨sizeTag, freeTag, afterTag, previousTag, _⟩, aboveTagged⟩⟩ := tagged
  rw [first_free_append] at linked
  simp only [firstFree, used, Bool.false_eq_true, if_false] at belowTagged aboveTagged linked
  simp only [span_append, span_cons] at ends
  generalize located : start + span headerSize below = current at *
  have currentSize : (header heap.memory current).size = freed.size := sizeTag
  have nextBound := first_free_bounds headerSize (current + (headerSize + freed.size)) above
  rw [show current + (headerSize + freed.size) + span headerSize above = currentTop by omega]
    at nextBound
  have clearedOutside : ∀ probe, probe < current ∨ current + headerSize ≤ probe →
      setIsMmapped heap.memory current false probe = heap.memory probe :=
    fun probe outside => set_is_mmapped_outside outside
  have clearedHeader := header_set_is_mmapped heap.memory current false
  generalize setIsMmapped heap.memory current false = cleared at *
  cases before : freeBefore headerSize none start below with
  | none =>
    have flag : (header heap.memory current).present = false := by
      rw [before] at afterTag
      exact afterTag
    refine ⟨below, cleared, current, freed.size,
      firstFree headerSize (current + (headerSize + freed.size)) above currentTop,
      ?_, ?_, rfl, Nat.le_refl _, rfl, fun _ _ => linked, ?_⟩
    · simp [joinPrevious, clearedHeader, flag]
    · refine ⟨?_, before, located, ?_, ?_, ?_, ⟨none, ?_⟩, by omega, by omega⟩
      · exact tagged_frame belowTagged (fun byte _ high => clearedOutside byte (by omega))
      · simpa only [clearedHeader] using currentSize
      · simp only [clearedHeader]
      · simpa only [clearedHeader] using flag
      · exact tagged_frame aboveTagged (fun byte low _ => clearedOutside byte (by omega))
    · intro none
      refine .inr ?_
      rw [linked, first_free_used headerSize start below _
        ((last_free_none headerSize start below).mp none)]
  | some previous =>
    have flag : (header heap.memory current).present = true := by
      rw [before] at afterTag
      exact afterTag
    have pointer : (header heap.memory current).previousChunk = previous :=
      previousTag previous before
    obtain ⟨lower, last, rfl, free, address⟩ := free_before_split headerSize start below previous
      before
    rw [tagged_append] at belowTagged
    obtain ⟨lowerTagged, ⟨⟨lastSizeTag, lastFreeTag, lastAfterTag, _, lastNextTag⟩, _⟩⟩ :=
      belowTagged
    simp only [firstFree, free, if_true, ← address] at lowerTagged
    rw [← address] at lastSizeTag lastFreeTag lastAfterTag
    have apart := (lastNextTag free).1
    simp only [span_append, span_cons, span_nil] at located ends
    have lastHeader : header cleared previous = header heap.memory previous :=
      header_frame (fun probe _ high => clearedOutside probe (by omega))
    have lastSize : (header heap.memory previous).size = last.size := lastSizeTag
    have lastUnmapped : (header heap.memory previous).isMmapped = false := by
      simpa [tag, free] using lastFreeTag
    have lastUnpreceded : (header heap.memory previous).present = false := by
      rw [apart] at lastAfterTag
      exact lastAfterTag
    have joinedOutside : ∀ probe, probe < previous ∨ previous + headerSize ≤ probe →
        setSize cleared previous (last.size + (freed.size + headerSize)) probe = cleared probe :=
      fun probe outside => set_size_outside outside
    refine ⟨lower, setSize cleared previous (last.size + (freed.size + headerSize)), previous,
      last.size + (freed.size + headerSize), previous, ?_, ?_, by omega, by simp, ?_, ?_, ?_⟩
    · simp [joinPrevious, clearedHeader, flag, pointer, lastHeader, lastSize, currentSize]
    · refine ⟨?_, apart, address.symm, ?_, ?_, ?_, ⟨none, ?_⟩, by omega, Nat.le_refl _⟩
      · refine tagged_frame lowerTagged (fun byte _ high => ?_)
        rw [joinedOutside byte (by omega), clearedOutside byte (by omega)]
      · simp only [header_set_size]
        exact Nat.mod_eq_of_lt (by omega)
      · simpa only [header_set_size, lastHeader] using lastUnmapped
      · simpa only [header_set_size, lastHeader] using lastUnpreceded
      · rw [show previous + (headerSize + (last.size + (freed.size + headerSize))) =
          current + (headerSize + freed.size) by omega]
        refine tagged_frame aboveTagged (fun byte low _ => ?_)
        rw [joinedOutside byte (by omega), clearedOutside byte (by omega)]
    · simp [free, usedPlaces, place]
    · intro _ _
      simp only [linked, first_free_append, firstFree, free, if_true, ← address]
    · intro none
      refine .inl ?_
      simp only [linked, first_free_append, firstFree, free, if_true]
      rw [first_free_used headerSize start lower _
        ((last_free_none headerSize start lower).mp none)]
      exact address.symm

/-- A freed block that has absorbed its free neighbour is followed by a used
block, since two free blocks never touch. -/
theorem raised_head_used (memory : Bytes) (before : Option Nat) (address currentTop : Nat)
    (above : List Block)
    (tagged : Tagged headerSize (tag memory) before address above currentTop)
    (first : Block) (rest : List Block) (same : raised above = first :: rest) :
    first.free = false := by
  cases above with
  | nil => simp [raised] at same
  | cons head tail =>
    cases status : head.free with
    | false =>
      simp only [raised, status, Bool.false_eq_true, if_false, List.cons.injEq] at same
      rw [← same.1]
      exact status
    | true =>
      simp only [raised, status, if_true] at same
      subst same
      simp only [Tagged, status, if_true] at tagged
      cases headFree : first.free with
      | false => rfl
      | true => simp [headFree] at tagged

/-- Either nothing above is absorbed, or the first block above was free and is. -/
theorem raised_cases (size : Nat) (above : List Block) :
    raised above = above ∧ raisedSize size above = size ∨
      raised above ≠ above ∧
        ∀ address beyond, firstFree headerSize address above beyond = address := by
  cases above with
  | nil => exact .inl ⟨rfl, rfl⟩
  | cons first rest =>
    cases status : first.free with
    | false => exact .inl (by simp [raised, raisedSize, status])
    | true => exact .inr (by simp [raised, firstFree, status])

/-- The blocks in use above a freed block are not affected by absorption. -/
theorem raised_used_places (block size : Nat) (above : List Block) :
    usedPlaces headerSize (block + (headerSize + raisedSize size above)) (raised above) =
      usedPlaces headerSize (block + (headerSize + size)) above := by
  cases above with
  | nil => simp [raised, usedPlaces, place]
  | cons first rest =>
    cases status : first.free with
    | false => simp [raised, raisedSize, status]
    | true =>
      simp only [raised, raisedSize, status, if_true, used_places_cons, List.nil_append]
      congr 1
      omega

/-- Opening the block above completes the tiling around the freed block. -/
theorem Opened.close (opened : Opened memory start currentTop below block size above block)
    (successor : (header memory block).nextFree =
      firstFree headerSize (block + (headerSize + size)) above currentTop)
    (headUsed : ∀ first rest, above = first :: rest → first.free = false)
    (fits : currentTop < 256 ^ 8) :
    Tagged headerSize (tag (setFull (openAfter memory block currentTop) block false)) none start
      (below ++ { size := size, free := true } :: above) currentTop := by
  have width := header_size_eq
  obtain ⟨lower, apart, located, sized, unmapped, unpreceded, ⟨before, upper⟩, ends, _⟩ := opened
  have aboveSpan := span_zero_or_wide headerSize above
  have address : block + ((header memory block).size + headerSize) =
      block + (headerSize + size) := by omega
  have outside : ∀ probe, probe < block + (headerSize + size) ∨
      block + (headerSize + size) + headerSize ≤ probe →
      openAfter memory block currentTop probe = memory probe := by
    intro probe outside
    simp only [openAfter, address]
    split
    · rw [set_present_outside outside, set_previous_chunk_outside outside]
    · rfl
  have blockKept : header (openAfter memory block currentTop) block = header memory block :=
    header_frame (fun probe _ high => outside probe (by omega))
  have fullOutside : ∀ probe, probe < block ∨ block + headerSize ≤ probe →
      setFull (openAfter memory block currentTop) block false probe =
        openAfter memory block currentTop probe :=
    fun probe apart => set_full_outside apart
  rw [tagged_append, located, apart]
  refine ⟨?_, ⟨?_, ?_⟩⟩
  · simp only [firstFree, if_true]
    refine tagged_frame lower (fun byte _ high => ?_)
    rw [fullOutside byte (by omega), outside byte (by omega)]
  · simp only [tag, header_set_full, blockKept, sized, unmapped, unpreceded, successor]
    simp
  · simp only [if_true]
    refine tagged_rebase headerSize before (some block) _ above _ upper ?_ ?_
    · intro probe low _
      refine tag_frame (fun byte _ _ => ?_)
      rw [fullOutside byte (by omega), outside byte (by omega)]
    · intro first rest same
      have firstUsed := headUsed first rest same
      subst same
      simp only [span_cons] at ends
      have inside : block + (headerSize + size) < currentTop := by omega
      have aboveHeader : header (setFull (openAfter memory block currentTop) block false)
          (block + (headerSize + size)) =
          { header memory (block + (headerSize + size)) with
            previousChunk := block % 256 ^ 8, present := true } := by
        rw [@header_frame _ (openAfter memory block currentTop) _
          (fun probe low _ => fullOutside probe (by omega))]
        simp only [openAfter, address, inside, if_true, header_set_present,
          header_set_previous_chunk]
      have small : block < 256 ^ 8 := by omega
      simp only [tag, aboveHeader, firstUsed, Nat.mod_eq_of_lt small]
      simp

end Phases

/-- `heap_free` on a block in use. The heap is again tiled; the blocks in use are
those that were in use before, at the same addresses, without the freed one.

The four phases follow the source: join backwards, walk forwards, enter the free
list, open the block above. Each one's lemma supplies the next one's premise. -/
theorem heap_free_spec {start currentTop : Nat} {below above : List Block}
    (tiled : Tiled heap start currentTop (below ++ freed :: above)) (used : freed.free = false)
    (positive : 0 < start) (small : currentTop - start ≤ 2 ^ 60) (fuel blockMaxSize : Nat)
    (limit : currentTop - start ≤ blockMaxSize) (enough : (below ++ freed :: above).length ≤ fuel) :
    ∃ after blocks,
      heapFree fuel heap (start + span headerSize below)
        (start + span headerSize below + (headerSize + freed.size)) currentTop blockMaxSize =
        some after ∧
      Tiled after start currentTop blocks ∧
      usedPlaces headerSize start blocks = usedPlaces headerSize start below ++
        usedPlaces headerSize (start + span headerSize below + (headerSize + freed.size)) above := by
  have width := header_size_eq
  simp only [List.length_append, List.length_cons] at enough
  obtain ⟨lower, memory, block, size, beyond, joined, opened, ends, shorter, lowerUsed, headBelow,
    headHere⟩ := join_previous_spec tiled used small
  obtain ⟨walked, walk, walkedOpen, successor, walkedHead⟩ := coalesce_spec
    { heap with memory := memory } fuel blockMaxSize opened (by omega) limit tiled.fits small
  have successorBound := first_free_bounds headerSize
    (block + (headerSize + raisedSize size above)) (raised above)
  rw [walkedOpen.ends] at successorBound
  obtain ⟨inserted, insertion, insertedOpen, insertedNext, insertedHead⟩ := insert_free_spec walked
    fuel _ walkedOpen successor (by omega)
    (by
      intro last found
      have head := headBelow last found
      have below : heap.firstFree ≠ block + (headerSize + size) := by
        rcases first_free_cases headerSize start lower beyond with
          none | ⟨low, _, high, same, _, _, placed⟩
        · rw [(last_free_none headerSize start lower).mpr none] at found
          cases found
        · have located := opened.located
          rw [same] at located
          simp only [span_append, span_cons] at located
          rw [head, placed]
          omega
      rw [walkedHead, if_neg (fun both => below both.2)]
      exact head)
    (by
      intro none
      rw [walkedHead]
      rcases headHere none with atBlock | atAbove
      · rw [if_neg (fun both => by have := both.2; simp only [atBlock] at this; omega)]
        exact .inl atBlock
      · rcases raised_cases size above with ⟨same, sameSize⟩ | ⟨different, first⟩
        · rw [if_neg (fun both => both.1 same), same, sameSize]
          exact .inr atAbove
        · rw [if_pos ⟨different, atAbove.trans (first _ _)⟩]
          exact .inl rfl)
    positive (by have := tiled.fits; omega) (by omega)
  obtain ⟨before, upper⟩ := opened.upper
  have closed := insertedOpen.close insertedNext
    (fun first rest same => raised_head_used memory before _ _ above upper first rest same)
    tiled.fits
  refine ⟨{ inserted with
    memory := setFull (openAfter inserted.memory block currentTop) block false },
    lower ++ { size := raisedSize size above, free := true } :: raised above, ?_,
    ⟨closed, ?_, ?_, tiled.fits⟩, ?_⟩
  · simp only [heapFree, joined, ← ends, walk, insertion, bind_eq_bind, bind_some]
  · have located := opened.located
    have reaches := walkedOpen.ends
    simp only [span_append, span_cons]
    omega
  · simp only [insertedHead, first_free_append, firstFree, if_true, opened.located]
  · simp only [used_places_append, used_places_cons, if_true, List.nil_append, opened.located,
      raised_used_places, lowerUsed, ends]

end Balrog.HeapFree
