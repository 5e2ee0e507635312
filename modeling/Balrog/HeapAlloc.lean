import Balrog.BlockInfo

/-!
# Allocation inside one free block

`heap_alloc` of `src/shared/memory/heap.c` is handed a free block, the free block
before it in the free list, and the current top. It takes the block whole when
the remainder could not hold another header, and otherwise cuts the request off
the end of the block. The free list changes only in the first case.

The theorems relate each case to the tiling: the block is replaced by its whole
or by a free remainder followed by the request, and every boundary tag of the
result is right. The callers' searches are in other modules; here the block is
given.
-/

namespace Balrog.HeapAlloc

open ByteMemory BlockInfo BlockTiling

/-- The memory of a heap together with the first free block its owner keeps in a
static variable outside the heap. -/
structure Heap where
  memory : Bytes
  firstFree : Nat

/-- Write the header of the block to be allocated. `next_free` is not assigned
and keeps the bytes that were there. -/
def stampBlock (memory : Bytes) (block previous size : Nat) (present full : Bool) : Bytes :=
  let memory := setPreviousChunk memory block previous
  let memory := setPresent memory block present
  let memory := setNonArena memory block false
  let memory := setSize memory block size
  let memory := setFull memory block full
  setIsMmapped memory block true

/-- Tell the block after an allocated one that its neighbour is in use. There is
no such block when the allocated one ends at the top. -/
def closeAfter (memory : Bytes) (block size currentTop : Nat) : Bytes :=
  let after := block + headerSize + size
  if after < currentTop then setPresent (setPreviousChunk memory after block) after false
  else memory

/-- Take a block out of the free list: the owner's first free block moves on when
this is the first block of the search and the head of the list, and otherwise
the block before it in the list is redirected. -/
def unlink (heap : Heap) (currentBlock prevBlock next : Nat) (firstBlock : Bool) : Heap :=
  if firstBlock = true ∧ currentBlock = heap.firstFree then { heap with firstFree := next }
  else { heap with memory := setNextFree heap.memory prevBlock next }

/-- `heap_alloc`: the address returned, zero when the request does not fit, and
the heap left behind. The sums cannot wrap once the request fits the block's
60-bit size. -/
def heapAlloc (heap : Heap) (size currentBlock prevBlock currentTop : Nat) (firstBlock : Bool) :
    Nat × Heap :=
  let current := header heap.memory currentBlock
  if size ≤ current.size then
    if current.size ≤ size + headerSize then
      let unlinked := unlink heap currentBlock prevBlock current.nextFree firstBlock
      let memory := stampBlock unlinked.memory currentBlock currentBlock current.size false true
      (currentBlock + headerSize,
        { unlinked with memory := closeAfter memory currentBlock current.size currentTop })
    else
      let memory := setSize heap.memory currentBlock (current.size - (size + headerSize))
      let block := currentBlock + ((header memory currentBlock).size + headerSize)
      let memory := stampBlock memory block currentBlock size true false
      (block + headerSize, { heap with memory := closeAfter memory block size currentTop })
  else (0, heap)

variable (memory : Bytes)

theorem header_stamp_block (block previous size : Nat) (present full : Bool) :
    header (stampBlock memory block previous size present full) block =
      { previousChunk := previous % 256 ^ 8
        size := size % 2 ^ 60
        nonArena := false
        isMmapped := true
        present := present
        full := full
        nextFree := (header memory block).nextFree } := by
  simp only [stampBlock, header_set_is_mmapped, header_set_full, header_set_size,
    header_set_non_arena, header_set_present, header_set_previous_chunk]

theorem stamp_block_outside {block previous size probe : Nat} {present full : Bool}
    (outside : probe < block ∨ block + headerSize ≤ probe) :
    stampBlock memory block previous size present full probe = memory probe := by
  simp only [stampBlock, set_is_mmapped_outside outside, set_full_outside outside,
    set_size_outside outside, set_non_arena_outside outside,
    set_present_outside outside, set_previous_chunk_outside outside]

/-- The block after an allocated one learns that its neighbour is in use. -/
theorem header_close_after (block size currentTop : Nat)
    (inside : block + headerSize + size < currentTop) :
    header (closeAfter memory block size currentTop) (block + headerSize + size) =
      { header memory (block + headerSize + size) with
        previousChunk := block % 256 ^ 8, present := false } := by
  simp only [closeAfter, inside, if_true, header_set_present, header_set_previous_chunk]

/-- Closing writes only the header of the block after, if there is one. -/
theorem close_after_outside {block size currentTop probe : Nat}
    (outside : probe < block + headerSize + size ∨
      block + headerSize + size + headerSize ≤ probe ∨ currentTop ≤ block + headerSize + size) :
    closeAfter memory block size currentTop probe = memory probe := by
  by_cases inside : block + headerSize + size < currentTop
  · have apart : probe < block + headerSize + size ∨
        block + headerSize + size + headerSize ≤ probe := by omega
    simp only [closeAfter, inside, if_true, set_present_outside apart,
      set_previous_chunk_outside apart]
  · simp only [closeAfter, inside, if_false]

/-- A request that does not fit leaves the heap alone and returns zero. -/
theorem heap_alloc_too_large (heap : Heap) (size currentBlock prevBlock currentTop : Nat)
    (firstBlock : Bool) (large : (header heap.memory currentBlock).size < size) :
    heapAlloc heap size currentBlock prevBlock currentTop firstBlock = (0, heap) := by
  simp only [heapAlloc, Nat.not_le_of_lt large, if_false]

/-- Stamping a block and closing the one after it tags the block as used in front
of whatever stood above. The blocks above only have to be tagged in the memory
before, with any account of their predecessor: the first of them is rewritten. -/
theorem tagged_settled (block previous size currentTop : Nat) (present full : Bool)
    (above : List Block) (before before' : Option Nat)
    (aboveTagged : Tagged headerSize (tag memory) before (block + (headerSize + size)) above
      currentTop) (ends : block + (headerSize + size) + span headerSize above = currentTop)
    (small : size < 2 ^ 60) (addressed : previous < 256 ^ 8) (flag : present = before'.isSome)
    (pointer : ∀ address, before' = some address →
      previous = address) :
    Tagged headerSize
      (tag (closeAfter (stampBlock memory block previous size present full) block size currentTop))
      before' block ({ size := size, free := false } :: above) currentTop := by
  have width := header_size_eq
  have stampedHeader := header_stamp_block memory block previous size present full
  have stampedAbove : ∀ probe, block + headerSize ≤ probe →
      stampBlock memory block previous size present full probe = memory probe :=
    fun probe outside => stamp_block_outside memory
      (.inr outside)
  generalize stampBlock memory block previous size present full = stamped at *
  have settled : header (closeAfter stamped block size currentTop) block = header stamped block :=
    header_frame (fun probe _ upper =>
      close_after_outside stamped (.inl (by omega)))
  refine ⟨?_, ?_⟩
  · simp only [tag, settled, stampedHeader]
    refine ⟨Nat.mod_eq_of_lt small, rfl, flag, ?_, by simp⟩
    intro address same
    exact (Nat.mod_eq_of_lt addressed).trans (pointer address same)
  · simp only [Bool.false_eq_true, if_false]
    refine tagged_rebase headerSize before none _ above _ aboveTagged ?_ ?_
    · intro probe lower upper
      refine tag_frame (fun byte low high => ?_)
      rw [close_after_outside stamped (by omega),
        stampedAbove byte (by omega)]
    · intro first rest same
      subst same
      simp only [span_cons] at ends
      have after : block + headerSize + size = block + (headerSize + size) := by omega
      have closed := header_close_after stamped block size currentTop (by omega)
      rw [after] at closed
      have kept : header stamped (block + (headerSize + size)) =
          header memory (block + (headerSize + size)) :=
        header_frame (fun probe lower _ => stampedAbove probe (by omega))
      simp only [tag, closed, kept]
      simp

/-- The heap between `start` and `currentTop` is tiled by these blocks: every
boundary tag is right and the first free block of the list is the one its owner
remembers. Addresses fit the machine's pointers. -/
structure Tiled (heap : Heap) (start currentTop : Nat) (blocks : List Block) : Prop where
  tagged : Tagged headerSize (tag heap.memory) none start blocks currentTop
  ends : start + span headerSize blocks = currentTop
  linked : heap.firstFree = firstFree headerSize start blocks currentTop
  fits : currentTop < 256 ^ 8

/-- Payload size of the block cut from a free block for a request: all of it when
what would be left cannot hold a header and a byte. -/
def takenSize (block : Block) (size : Nat) : Nat :=
  if block.size ≤ size + headerSize then block.size else size

/-- What a free block becomes when a request is taken from it. -/
def taken (block : Block) (size : Nat) : List Block :=
  if block.size ≤ size + headerSize then [{ size := block.size, free := false }]
  else [{ size := block.size - (size + headerSize), free := true }, { size := size, free := false }]

/-- Taking a request from a free block adds one block in use, at the end of the
free block, and changes no other. -/
theorem used_places_taken (address size : Nat) (block : Block) (above : List Block)
    (room : size ≤ block.size) :
    usedPlaces headerSize address (taken block size ++ above) =
      (address + (block.size - takenSize block size),
        { size := takenSize block size, free := false }) ::
      usedPlaces headerSize (address + (headerSize + block.size)) above := by
  by_cases tight : block.size ≤ size + headerSize
  · simp [taken, takenSize, tight]
  · have cut : address + (headerSize + (block.size - (size + headerSize))) =
        address + (block.size - size) := by omega
    have ends : address + (block.size - size) + (headerSize + size) =
        address + (headerSize + block.size) := by omega
    simp only [taken, takenSize, tight, if_false, List.cons_append, List.nil_append,
      used_places_cons, if_true, Bool.false_eq_true, cut, ends]

/-- The block taken is never smaller than the request. -/
theorem taken_size_ge (block : Block) (size : Nat) (room : size ≤ block.size) :
    size ≤ takenSize block size ∧ takenSize block size ≤ block.size := by
  unfold takenSize
  split <;> omega

section Specification

variable {heap : Heap} {start currentTop : Nat} {below above : List Block} {block : Block}

/-- Cutting a request off the end of a free block. The remainder keeps its place
in the free list, so neither the list nor the first free block changes.

The tags below the block are untouched. The remainder keeps its tag but for the
size, the new header sees a free block before it, and the block above sees a used
one. -/
theorem heap_alloc_carves (tiled : Tiled heap start currentTop (below ++ block :: above))
    (size prevBlock : Nat) (firstBlock : Bool) (free : block.free = true)
    (room : size + headerSize < block.size) :
    ∃ after,
      heapAlloc heap size (start + span headerSize below) prevBlock currentTop firstBlock =
        (start + span headerSize below + (block.size - size) + headerSize, after) ∧
      Tiled after start currentTop (below ++ ({ size := block.size - (size + headerSize), free := true }
        :: { size := size, free := false } :: above)) := by
  obtain ⟨tagged, ends, linked, fits⟩ := tiled
  have width := header_size_eq
  have bound := size_bound heap.memory (start + span headerSize below)
  rw [tagged_append] at tagged
  obtain ⟨belowTagged, ⟨⟨sizeTag, freeTag, afterTag, previousTag, nextTag⟩, aboveTagged⟩⟩ := tagged
  simp only [free, if_true] at aboveTagged
  simp only [firstFree, free, if_true] at belowTagged
  simp only [span_append, span_cons] at ends
  generalize located : start + span headerSize below = current at *
  have currentSize : (header heap.memory current).size = block.size := sizeTag
  generalize remainderIs : setSize heap.memory current (block.size - (size + headerSize)) =
    remainder
  have remainderHeader : header remainder current =
      { header heap.memory current with size := block.size - (size + headerSize) } := by
    rw [← remainderIs, header_set_size, Nat.mod_eq_of_lt (by omega)]
  have remainderOutside : ∀ probe, probe < current ∨ current + headerSize ≤ probe →
      remainder probe = heap.memory probe := by
    intro probe outside
    rw [← remainderIs, set_size_outside outside]
  have cutIs : current + (block.size - (size + headerSize) + headerSize) =
      current + (block.size - size) := by omega
  generalize current + (block.size - size) = cut at *
  have aboveSpan := span_zero_or_wide headerSize above
  have cutTagged := tagged_settled remainder cut current size currentTop true false above
    (some current) (some current)
    (by
      rw [show cut + (headerSize + size) = current + (headerSize + block.size) by omega]
      exact tagged_frame aboveTagged
        (fun byte lower _ => remainderOutside byte (.inr (by omega))))
    (by omega) (by omega) (by omega) rfl (fun address same => Option.some.inj same)
  generalize memoryIs : closeAfter (stampBlock remainder cut current size true false) cut size
    currentTop = memory at *
  have memoryOutside : ∀ probe < cut, memory probe = remainder probe := by
    intro probe outside
    rw [← memoryIs, close_after_outside _ (by omega), stamp_block_outside _ (by omega)]
  have result : heapAlloc heap size current prevBlock currentTop firstBlock =
      (cut + headerSize, { heap with memory := memory }) := by
    simp only [heapAlloc, currentSize, show size ≤ block.size by omega,
      show ¬ block.size ≤ size + headerSize by omega, if_true, if_false, remainderIs,
      remainderHeader, cutIs, memoryIs]
  refine ⟨_, result, ⟨?_, ?_, ?_, fits⟩⟩
  · rw [tagged_append, located]
    refine ⟨?_, ⟨?_, ?_⟩⟩
    · simp only [firstFree, if_true]
      refine tagged_frame belowTagged (fun byte _ upper => ?_)
      rw [memoryOutside byte (by omega), remainderOutside byte (by omega)]
    · have settled : header memory current = header remainder current :=
        header_frame (fun probe _ upper => memoryOutside probe (by omega))
      simp only [tag, settled, remainderHeader]
      simp only [free] at freeTag
      refine ⟨trivial, freeTag, afterTag, previousTag, fun _ => ⟨(nextTag free).1, ?_⟩⟩
      simp only [firstFree, Bool.false_eq_true, if_false]
      rw [show current + (headerSize + (block.size - (size + headerSize))) + (headerSize + size) =
        current + (headerSize + block.size) by omega]
      exact (nextTag free).2
    · simp only [if_true]
      rw [show current + (headerSize + (block.size - (size + headerSize))) = cut by omega]
      exact cutTagged
  · simp only [span_append, span_cons]
    omega
  · rw [linked, first_free_append, first_free_append]
    simp only [firstFree, free, if_true]

/-- Unlinking the first free block above `below` leaves the blocks below it in
front of its successor. Only a header below the block can change, and only its
`next_free`. -/
theorem unlink_below (heap : Heap) (start current beyond prevBlock : Nat) (below : List Block)
    (firstBlock : Bool) (located : start + span headerSize below = current)
    (tagged : Tagged headerSize (tag heap.memory) none start below current)
    (linked : heap.firstFree = firstFree headerSize start below current)
    (fits : beyond < 256 ^ 8)
    (searched : lastFree headerSize start below = none ∧ firstBlock = true ∨
      lastFree headerSize start below = some prevBlock) :
    Tagged headerSize (tag (unlink heap current prevBlock beyond firstBlock).memory) none start
        below beyond ∧
      (unlink heap current prevBlock beyond firstBlock).firstFree =
        firstFree headerSize start below beyond ∧
      (∀ probe, current ≤ probe →
        (unlink heap current prevBlock beyond firstBlock).memory probe = heap.memory probe) := by
  have width := header_size_eq
  rcases searched with ⟨none, first⟩ | found
  · have used := (last_free_none headerSize start below).mp none
    have atHead : current = heap.firstFree := by
      rw [linked, first_free_used headerSize start below current used]
    simp only [unlink, first, atHead.symm, and_self, if_true]
    refine ⟨tagged_used headerSize _ _ _ _ _ used tagged, ?_, by simp⟩
    exact (first_free_used headerSize start below beyond used).symm
  · obtain ⟨lower, last, upper, rfl, free, used, address⟩ :=
      last_free_split headerSize start below prevBlock found
    simp only [span_append, span_cons] at located
    have headBound := first_free_bounds headerSize start lower
    have notHead : ¬ (firstBlock = true ∧ current = heap.firstFree) := by
      rintro ⟨_, same⟩
      rw [linked, first_free_append] at same
      simp only [firstFree, free, if_true] at same
      omega
    simp only [unlink, notHead, if_false]
    refine ⟨?_, ?_, ?_⟩
    · refine tagged_relink headerSize _ _ _ _ _ tagged ?_ ?_
      · intro probe _ _ apart
        have apart := apart prevBlock found
        exact tag_frame (fun byte _ _ => set_next_free_outside (by omega))
      · intro final same
        obtain rfl := Option.some.inj (found.symm.trans same)
        simp only [tag, header_set_next_free, Nat.mod_eq_of_lt fits]
    · rw [linked, first_free_append, first_free_append]
      simp only [firstFree, free, if_true]
    · intro probe lower
      exact set_next_free_outside (by omega)

/-- Taking a free block whole. Its predecessor in the free list, or the owner's
first free block when there is none, is redirected to its successor.

The search guarantee is the caller's: `prevBlock` is the last free block below,
or there is none and the call is the first of its search. -/
theorem heap_alloc_takes_whole (tiled : Tiled heap start currentTop (below ++ block :: above))
    {size prevBlock : Nat} {firstBlock : Bool} (free : block.free = true)
    (room : size ≤ block.size) (tight : block.size ≤ size + headerSize)
    (searched : lastFree headerSize start below = none ∧ firstBlock = true ∨
      lastFree headerSize start below = some prevBlock) :
    ∃ after,
      heapAlloc heap size (start + span headerSize below) prevBlock currentTop firstBlock =
        (start + span headerSize below + headerSize, after) ∧
      Tiled after start currentTop (below ++ { size := block.size, free := false } :: above) := by
  obtain ⟨tagged, ends, linked, fits⟩ := tiled
  have width := header_size_eq
  have bound := size_bound heap.memory (start + span headerSize below)
  rw [tagged_append] at tagged
  obtain ⟨belowTagged, ⟨⟨sizeTag, _, _, _, nextTag⟩, aboveTagged⟩⟩ := tagged
  rw [first_free_append] at linked
  simp only [firstFree, free, if_true] at linked belowTagged aboveTagged
  simp only [span_append, span_cons] at ends
  generalize located : start + span headerSize below = current at *
  have currentSize : (header heap.memory current).size = block.size := sizeTag
  have currentNext : (header heap.memory current).nextFree =
      firstFree headerSize (current + (headerSize + block.size)) above currentTop :=
    (nextTag free).2
  have nextBound := first_free_bounds headerSize (current + (headerSize + block.size)) above
  rw [show current + (headerSize + block.size) + span headerSize above = currentTop by omega]
    at nextBound
  have apart := (nextTag free).1
  generalize nextIs : firstFree headerSize (current + (headerSize + block.size)) above currentTop =
    next at *
  obtain ⟨belowUnlinked, headUnlinked, kept⟩ := unlink_below heap start current next prevBlock
    below firstBlock located belowTagged linked (by omega) searched
  generalize isUnlinked : unlink heap current prevBlock next firstBlock = unlinked at *
  have currentTagged := tagged_settled unlinked.memory current current block.size currentTop
    false true above (some current) none
    (tagged_frame aboveTagged (fun byte lower _ => kept byte (by omega)))
    (by omega) (by omega) (by omega) rfl (by simp)
  generalize memoryIs : closeAfter (stampBlock unlinked.memory current current block.size
    false true) current block.size currentTop = memory at *
  have result : heapAlloc heap size current prevBlock currentTop firstBlock =
      (current + headerSize, { unlinked with memory := memory }) := by
    simp only [heapAlloc, currentSize, currentNext, room, tight, if_true, isUnlinked, memoryIs]
  have belowKept : ∀ probe < current, memory probe = unlinked.memory probe := by
    intro probe lower
    rw [← memoryIs, close_after_outside _ (by omega), stamp_block_outside _ (by omega)]
  refine ⟨_, result, ⟨?_, ?_, ?_, fits⟩⟩
  · rw [tagged_append, located]
    refine ⟨?_, ?_⟩
    · simp only [firstFree, Bool.false_eq_true, if_false, nextIs]
      exact tagged_frame belowUnlinked (fun byte _ upper => belowKept byte (by omega))
    · rw [apart]
      exact currentTagged
  · simp only [span_append, span_cons]
    omega
  · simp only [first_free_append, firstFree, Bool.false_eq_true, if_false, located, nextIs]
    exact headUnlinked

/-- `heap_alloc` on a free block large enough for the request, in either case.
The block becomes what is left of it followed by the allocated block, and the
address returned is the payload of that block. -/
theorem heap_alloc_spec (tiled : Tiled heap start currentTop (below ++ block :: above))
    (size prevBlock : Nat) (firstBlock : Bool) (free : block.free = true)
    (room : size ≤ block.size)
    (searched : lastFree headerSize start below = none ∧ firstBlock = true ∨
      lastFree headerSize start below = some prevBlock) :
    ∃ after,
      heapAlloc heap size (start + span headerSize below) prevBlock currentTop firstBlock =
        (start + span headerSize below + (block.size - takenSize block size) + headerSize, after) ∧
      Tiled after start currentTop (below ++ taken block size ++ above) := by
  rw [List.append_assoc]
  by_cases tight : block.size ≤ size + headerSize
  · simp only [takenSize, taken, tight, if_true, Nat.sub_self, Nat.add_zero]
    exact heap_alloc_takes_whole tiled free room tight searched
  · simp only [takenSize, taken, tight, if_false]
    exact heap_alloc_carves tiled size prevBlock firstBlock free (by omega)

end Specification

end Balrog.HeapAlloc
