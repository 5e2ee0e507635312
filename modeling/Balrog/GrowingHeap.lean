import Balrog.HeapOwners
import Balrog.Runs

/-!
# Heaps that grow

`vmalloc` and the libc `malloc` walk the free list like `kmalloc`, and when the
walk runs off the end they map more pages behind the current top: a free block
that ends at the top is extended in place, otherwise a new free block is appended.
The walk then goes on from the block that grew, passing that block both as the
current and as the previous one.

The two functions are one definition here, over an `Arena` that holds their
addresses and the test with which they refuse to grow. The number of growths is
counted beside the result. Mapping pages zeroes them and may fail; addresses are
64 bits wide and wrap.
-/

namespace Balrog.GrowingHeap

open ByteMemory BlockInfo BlockTiling HeapAlloc HeapFree HeapOwners Runs

/-- The values by which the two growing heaps differ: where the region starts, the
address it may not pass, and the test on the current block, the top and a number
of pages that refuses a growth. The test is exact as long as the sum fits 64 bits. -/
structure Arena where
  start : Nat
  ceiling : Nat
  refuses : Nat → Nat → Nat → Bool
  positive : 0 < start
  ordered : start ≤ ceiling
  small : ceiling - start ≤ 2 ^ 48
  addressable : ceiling < 2 ^ 64
  exact : ∀ top pages, 0 < top → 0 < pages → top + pages * 0x1000 < 2 ^ 64 →
    (refuses top top pages = true ↔ ceiling < top + pages * 0x1000)

/-- The heap with the top of the memory that it has got so far. -/
structure State where
  heap : Heap
  top : Nat

/-- Back `pages` pages from `top` on with zeroed memory. -/
def mapPages (memory : Bytes) (top pages : Nat) : Bytes :=
  fun probe => if (probe + 2 ^ 64 - top) % 2 ^ 64 < pages * 0x1000 then 0 else memory probe

/-- `heap_top + pages * 0x1000`, in 64 bits. -/
def raise (top pages : Nat) : Nat := (top + pages * 0x1000) % 2 ^ 64

/-- `needed / 0x1000 + 1`, with the bytes needed behind a free block at the top or
for a block of its own. -/
def growthPages (extend : Bool) (size tailSize : Nat) : Nat :=
  (if extend then (size + headerSize + 2 ^ 64 - tailSize) % 2 ^ 64
    else (size + headerSize * 2) % 2 ^ 64) / 0x1000 + 1

/-- The branch that extends the last free block. -/
def extendTail (heap : Heap) (tail top pages : Nat) : Heap :=
  let memory := mapPages heap.memory top pages
  let memory := setSize memory tail ((header memory tail).size + pages * 0x1000)
  { heap with memory := setNextFree memory tail (raise top pages) }

/-- The branch that makes the new pages a block of their own. -/
def appendBlock (heap : Heap) (emptyList : Bool) (prevBlock top pages : Nat) : Heap :=
  let memory := mapPages heap.memory top pages
  let memory := setPreviousChunk memory top 0
  let memory := setIsMmapped memory top false
  let memory := setNonArena memory top false
  let memory := setPresent memory top false
  let memory := setSize memory top (pages * 0x1000 - headerSize)
  let memory := setNextFree memory top (raise top pages)
  { memory :=
      if emptyList = false ∧ (header memory prevBlock).nextFree ≠ top then
        setNextFree memory prevBlock top
      else memory
    firstFree := if emptyList = true ∨ top ≤ heap.firstFree then top else heap.firstFree }

/-- The `while` loop of `vmalloc` and `malloc`. The result is the pointer, the heap
left behind and the number of growths. `supplied` tells whether the pages of a
growth could be mapped. -/
def search (arena : Arena) (supplied : Nat → Bool) :
    Nat → State → Nat → Nat → Nat → Bool → Nat → Option (Nat × State × Nat)
  | 0, _, _, _, _, _, _ => none
  | fuel + 1, state, size, currentBlock, prevBlock, firstBlock, growths =>
    if currentBlock < state.top ∧ arena.start ≤ currentBlock then
      let result := heapAlloc state.heap size currentBlock prevBlock state.top firstBlock
      if result.1 ≠ 0 then some (result.1, { state with heap := result.2 }, growths)
      else
        search arena supplied fuel { state with heap := result.2 } size
          (header result.2.memory currentBlock).nextFree currentBlock false growths
    else
      let emptyList : Bool := state.top ≤ prevBlock ∨ prevBlock < arena.start
      let tailSize := (header state.heap.memory prevBlock).size
      let extend : Bool := emptyList = false ∧
        (prevBlock + headerSize + tailSize) % 2 ^ 64 = state.top
      let pages := growthPages extend size tailSize
      if arena.refuses currentBlock state.top pages = true ∨ supplied pages = false then
        some (0, state, growths)
      else if extend then
        search arena supplied fuel
          { heap := extendTail state.heap prevBlock state.top pages
            top := raise state.top pages }
          size prevBlock prevBlock false (growths + 1)
      else
        search arena supplied fuel
          { heap := appendBlock state.heap emptyList prevBlock state.top pages
            top := raise state.top pages }
          size state.top prevBlock false (growths + 1)

/-- More rounds than the region can have blocks, and room for one growth. -/
def searchFuel (arena : Arena) : Nat := arena.ceiling - arena.start + 3

/-- The largest request that passes the entry check of `vmalloc` and `malloc`. -/
def maxRequest (arena : Arena) : Nat := arena.ceiling - arena.start - headerSize * 3

/-- The part `vmalloc` and `malloc` share behind the entry check: 72 bytes of
padding and the search from the first free block. -/
def request (arena : Arena) (supplied : Nat → Bool) (state : State) (size : Nat) :
    Option (Nat × State × Nat) :=
  search arena supplied (searchFuel arena) state (size + headerSize * 3) state.heap.firstFree
    state.heap.firstFree true 0

/-- The part `vmfree` and `free` share, for a block in use. -/
def release (arena : Arena) (state : State) (pointer blockMaxSize : Nat) : Option State := do
  let block := pointer - headerSize
  let heap ← heapFree (searchFuel arena) state.heap block
    (pointer + (header state.heap.memory block).size) state.top blockMaxSize
  some { state with heap := heap }

theorem search_counts (arena : Arena) (supplied : Nat → Bool) (fuel : Nat) (state after : State)
    (size currentBlock prevBlock growths pointer count : Nat) (firstBlock : Bool)
    (found : search arena supplied fuel state size currentBlock prevBlock firstBlock growths =
      some (pointer, after, count)) : growths ≤ count := by
  induction fuel generalizing state currentBlock prevBlock firstBlock growths with
  | zero => simp [search] at found
  | succ fuel ih =>
    simp only [search] at found
    split at found
    · split at found
      · simp only [Option.some.injEq, Prod.mk.injEq] at found
        omega
      · exact ih _ _ _ _ _ found
    · split at found
      · simp only [Option.some.injEq, Prod.mk.injEq] at found
        omega
      · split at found <;>
        · have later := ih _ _ _ _ _ found
          omega

variable {tail block : Block} {last tailSize top pointer probe growths : Nat} {emptyList : Bool}
  {heap carved : Heap} {state after : State}

section Growth

variable {start pages : Nat}

/-- New pages lie behind every byte below the top. -/
theorem map_pages_below (memory : Bytes) (below : probe < top)
    (room : top + pages * 0x1000 < 2 ^ 64) : mapPages memory top pages probe = memory probe := by
  rw [mapPages, if_neg (by omega)]

variable {lower : List Block}

/-- Extending the free block at the top makes it larger and changes nothing else. -/
theorem extend_tail_spec (tiled : Tiled heap start top (lower ++ [tail])) (free : tail.free = true)
    (room : top + pages * 0x1000 < 2 ^ 64) (small : top + pages * 0x1000 - start ≤ 2 ^ 60) :
    Tiled (extendTail heap (start + span headerSize lower) top pages) start
      (top + pages * 0x1000)
      (lower ++ [{ size := tail.size + pages * 0x1000, free := true }]) := by
  have width := header_size_eq
  obtain ⟨tagged, ends, linked, fits⟩ := tiled
  rw [tagged_append] at tagged
  obtain ⟨lowerTagged, ⟨size, isFree, afterFree, previous, next⟩, _⟩ := tagged
  simp only [span_append, span_cons, span_nil] at ends
  simp only [firstFree, free, if_true] at lowerTagged
  generalize located : start + span headerSize lower = address at *
  have mapped : header (mapPages heap.memory top pages) address = header heap.memory address :=
    header_frame (fun probe _ upper => map_pages_below _ (by omega) room)
  have tailSize : (header heap.memory address).size = tail.size := size
  have grown : header (extendTail heap address top pages).memory address =
      { header heap.memory address with
        size := tail.size + pages * 0x1000, nextFree := top + pages * 0x1000 } := by
    simp only [extendTail, raise, header_set_next_free, header_set_size, mapped, tailSize]
    rw [Nat.mod_eq_of_lt room, Nat.mod_eq_of_lt (by omega), Nat.mod_eq_of_lt (by omega)]
  refine ⟨?_, ?_, ?_, by omega⟩
  · rw [tagged_append, located]
    refine ⟨?_, ⟨?_, trivial⟩⟩
    · simp only [firstFree, if_true]
      refine tagged_frame lowerTagged (fun byte _ upper => ?_)
      have outside : byte < address ∨ address + headerSize ≤ byte := by omega
      simp only [extendTail]
      rw [set_next_free_outside outside, set_size_outside outside,
        map_pages_below _ (by omega) room]
    · simp only [tag, grown]
      simp only [free] at isFree
      exact ⟨trivial, isFree, afterFree, previous, fun _ => ⟨(next free).1, rfl⟩⟩
  · simp only [span_append, span_cons, span_nil]
    omega
  · rw [first_free_append] at linked ⊢
    simpa only [extendTail, firstFree, free, if_true] using linked

variable {blocks : List Block}

theorem last_free_next (tiled : Tiled heap start top blocks)
    (found : lastFree headerSize start blocks = some last) :
    start ≤ last ∧ last + headerSize ≤ top ∧ (header heap.memory last).nextFree = top := by
  obtain ⟨below, block, above, rfl, free, used, rfl⟩ := last_free_split headerSize _ _ _ found
  have ends := tiled.ends
  simp only [span_append, span_cons] at ends
  have here := ((tagged_append headerSize none start below (block :: above) top).mp
    tiled.tagged).2.1.2.2.2.2 free
  rw [first_free_used headerSize _ above top used] at here
  exact ⟨by omega, by omega, here.2⟩

/-- Appending behind a block in use adds one free block. The free block found last
already points to the place of the new one. -/
theorem append_block_spec (tiled : Tiled heap start top blocks)
    (closed : freeBefore headerSize none start blocks = none) {prevBlock : Nat}
    (listed : lastFree headerSize start blocks = none ∧ emptyList = true ∨
      lastFree headerSize start blocks = some prevBlock ∧ emptyList = false) (positive : 0 < pages)
    (room : top + pages * 0x1000 < 2 ^ 64) (small : top + pages * 0x1000 - start ≤ 2 ^ 60) :
    Tiled (appendBlock heap emptyList prevBlock top pages) start (top + pages * 0x1000)
      (blocks ++ [{ size := pages * 0x1000 - headerSize, free := true }]) := by
  have width := header_size_eq
  obtain ⟨tagged, ends, linked, fits⟩ := id tiled
  -- The memory before the conditional write to the previous block.
  generalize memoryIs : setNextFree (setSize (setPresent (setNonArena (setIsMmapped
    (setPreviousChunk (mapPages heap.memory top pages) top 0) top false) top false) top false) top
    (pages * 0x1000 - headerSize)) top (raise top pages) = memory
  have below : ∀ probe, probe < top → memory probe = heap.memory probe := by
    intro probe lower
    have outside : probe < top ∨ top + headerSize ≤ probe := .inl lower
    rw [← memoryIs, set_next_free_outside outside, set_size_outside outside,
      set_present_outside outside, set_non_arena_outside outside,
      set_is_mmapped_outside outside, set_previous_chunk_outside outside,
      map_pages_below _ lower room]
  have fresh : header memory top =
      { header (mapPages heap.memory top pages) top with
        previousChunk := 0, isMmapped := false, nonArena := false, present := false,
        size := pages * 0x1000 - headerSize, nextFree := top + pages * 0x1000 } := by
    rw [← memoryIs]
    simp only [header_set_next_free, header_set_size, header_set_present, header_set_non_arena,
      header_set_is_mmapped, header_set_previous_chunk, raise, Nat.zero_mod]
    rw [Nat.mod_eq_of_lt room, Nat.mod_eq_of_lt (Nat.lt_of_lt_of_eq room (by decide)),
      Nat.mod_eq_of_lt (by omega : pages * 0x1000 - headerSize < 2 ^ 60)]
  have kept : (appendBlock heap emptyList prevBlock top pages).memory = memory := by
    simp only [appendBlock, memoryIs]
    refine if_neg ?_
    rintro ⟨nonempty, different⟩
    rcases listed with ⟨_, empty⟩ | ⟨found, _⟩
    · rw [empty] at nonempty
      cases nonempty
    · obtain ⟨_, inside, next⟩ := last_free_next tiled found
      rw [@header_frame memory heap.memory prevBlock
        (fun probe _ upper => below probe (by omega))] at different
      exact different next
  have head : (appendBlock heap emptyList prevBlock top pages).firstFree = heap.firstFree := by
    have bounds := first_free_bounds headerSize start blocks
    rw [ends, ← linked] at bounds
    simp only [appendBlock]
    split
    · rename_i moved
      rcases moved with empty | atTop
      · rcases listed with ⟨none, _⟩ | ⟨_, nonempty⟩
        · rw [linked, first_free_used headerSize _ _ _
            ((last_free_none headerSize start blocks).mp none)]
        · rw [nonempty] at empty
          cases empty
      · omega
    · rfl
  refine ⟨?_, ?_, ?_, by omega⟩
  · rw [kept, tagged_append, ends]
    refine ⟨?_, ⟨?_, trivial⟩⟩
    · simp only [firstFree, if_true]
      exact tagged_frame tagged (fun byte _ upper => below byte (by omega))
    · simp only [closed, tag, fresh]
      simp [firstFree]
  · simp only [span_append, span_cons, span_nil]
    omega
  · rw [head, linked, first_free_append, ends]
    simp only [firstFree, if_true]

/-- Where the walk of the free list stops: at a free block that reaches the top, or
short of the top with a block in use at the end. -/
theorem tail_cases (tiled : Tiled heap start top blocks)
    (found : lastFree headerSize start blocks = some last) :
    (∃ lower tail, blocks = lower ++ [tail] ∧ tail.free = true ∧
      last = start + span headerSize lower ∧ (header heap.memory last).size = tail.size ∧
      last + headerSize + (header heap.memory last).size = top) ∨
    (freeBefore headerSize none start blocks = none ∧
      last + headerSize + (header heap.memory last).size < top) := by
  have width := header_size_eq
  obtain ⟨lower, block, above, rfl, free, used, rfl⟩ := last_free_split headerSize _ _ _ found
  have size := (tiled_block tiled).1
  have ends := tiled.ends
  simp only [span_append, span_cons] at ends
  rcases List.eq_nil_or_concat above with rfl | ⟨middle, last, rfl⟩
  · refine .inl ⟨lower, block, rfl, free, rfl, size, ?_⟩
    rw [size]
    simp only [span_nil] at ends
    omega
  · rw [List.concat_eq_append] at *
    have lastUsed : last.free = false := used last (by simp)
    refine .inr ⟨?_, ?_⟩
    · rw [← List.cons_append, ← List.append_assoc, free_before_append]
      simp [freeBefore, lastUsed]
    · rw [size]
      simp only [span_append, span_cons, span_nil] at ends
      omega

end Growth

/-- The pages by which a heap with these blocks would have to grow for a request. -/
def shortPages (blocks : List Block) (size : Nat) : Nat :=
  match blocks.getLast? with
  | some tail => growthPages tail.free size tail.size
  | none => growthPages false size 0

/-- A heap that ends in a block in use needs the request and two headers. -/
theorem short_pages_closed (start size tailSize : Nat) {blocks : List Block}
    (closed : freeBefore headerSize none start blocks = none) :
    shortPages blocks size = growthPages false size tailSize := by
  rcases List.eq_nil_or_concat blocks with rfl | ⟨lower, tail, rfl⟩
  · simp [shortPages, growthPages]
  · rw [List.concat_eq_append, free_before_append] at closed
    have used : tail.free = false := by
      cases status : tail.free with
      | false => rfl
      | true => simp [freeBefore, status] at closed
    simp [shortPages, growthPages, used]

/-- No growth asks for more pages than the request with two headers. -/
theorem growth_pages_le (extend : Bool) {size : Nat} (small : tailSize < size)
    (fits : size + headerSize * 2 < 2 ^ 64) :
    0 < growthPages extend size tailSize ∧
      growthPages extend size tailSize ≤ (size + headerSize * 2) / 0x1000 + 1 := by
  have width := header_size_eq
  unfold growthPages
  cases extend <;> simp only [Bool.false_eq_true, if_true, if_false] <;> omega

/-- The block that grew has room for the request, a header and a byte. -/
theorem growth_pages_room {size : Nat} (small : tailSize < size)
    (fits : size + headerSize * 2 < 2 ^ 64) :
    size + headerSize < tailSize + growthPages true size tailSize * 0x1000 ∧
      size + headerSize < growthPages false size tailSize * 0x1000 - headerSize := by
  have width := header_size_eq
  unfold growthPages
  simp only [Bool.false_eq_true, if_true, if_false]
  omega

section Search

variable (arena : Arena) (supplied : Nat → Bool)

/-- The request was cut from one free block of a region whose blocks in use were
`used`; the region may have grown for it. -/
def Takes (used : List (Nat × Block)) (size pointer : Nat) (after : State) : Prop :=
  ∃ lower block upper, block.free = true ∧ size ≤ block.size ∧
    pointer = arena.start + span headerSize lower + (block.size - takenSize block size) +
      headerSize ∧
    usedPlaces headerSize arena.start (lower ++ block :: upper) = used ∧
    Tiled after.heap arena.start after.top (lower ++ taken block size ++ upper)

/-- The round in which the walk passes a block that is too small. -/
theorem search_skips (fuel : Nat) (state : State) (size currentBlock prevBlock growths : Nat)
    (firstBlock : Bool) (inside : currentBlock < state.top ∧ arena.start ≤ currentBlock)
    (large : (header state.heap.memory currentBlock).size < size) :
    search arena supplied (fuel + 1) state size currentBlock prevBlock firstBlock growths =
      search arena supplied fuel state size (header state.heap.memory currentBlock).nextFree
        currentBlock false growths := by
  have skipped := heap_alloc_too_large state.heap size currentBlock prevBlock state.top firstBlock
    large
  simp only [search, if_pos inside, skipped, ne_eq, not_true_eq_false, if_false]

/-- The round in which the walk has left the heap. -/
theorem search_outside (fuel : Nat) (state : State) (size currentBlock prevBlock growths : Nat)
    (firstBlock emptyList extend : Bool)
    (outside : ¬ (currentBlock < state.top ∧ arena.start ≤ currentBlock))
    (emptyIs : decide (state.top ≤ prevBlock ∨ prevBlock < arena.start) = emptyList)
    (extendIs : decide (emptyList = false ∧
      (prevBlock + headerSize + (header state.heap.memory prevBlock).size) % 2 ^ 64 =
        state.top) = extend)
    (pages : Nat)
    (pagesIs : growthPages extend size (header state.heap.memory prevBlock).size = pages) :
    search arena supplied (fuel + 1) state size currentBlock prevBlock firstBlock growths =
      if arena.refuses currentBlock state.top pages = true ∨ supplied pages = false then
        some (0, state, growths)
      else if extend then
        search arena supplied fuel
          { heap := extendTail state.heap prevBlock state.top pages
            top := raise state.top pages }
          size prevBlock prevBlock false (growths + 1)
      else
        search arena supplied fuel
          { heap := appendBlock state.heap emptyList prevBlock state.top pages
            top := raise state.top pages }
          size state.top prevBlock false (growths + 1) := by
  simp only [search, if_neg outside, emptyIs, extendIs, pagesIs]

variable {lower : List Block}

/-- The round after a growth: the block that grew is large enough to be split, so
it does not matter that it is passed as its own predecessor. -/
theorem search_grown (tiled : Tiled heap arena.start top (lower ++ [block]))
    (free : block.free = true) (fuel size prevBlock growths : Nat) (firstBlock : Bool)
    (room : size + headerSize < block.size) :
    ∃ carved,
      search arena supplied (fuel + 1) { heap := heap, top := top } size
        (arena.start + span headerSize lower) prevBlock firstBlock growths =
        some (arena.start + span headerSize lower + (block.size - size) + headerSize,
          { heap := carved, top := top }, growths) ∧
      Tiled carved arena.start top (lower ++ [{ size := block.size - (size + headerSize), free := true },
        { size := size, free := false }]) := by
  have width := header_size_eq
  obtain ⟨carved, result, after⟩ := heap_alloc_carves tiled size prevBlock firstBlock free room
  have ends := tiled.ends
  simp only [span_append, span_cons, span_nil] at ends
  have inside : arena.start + span headerSize lower < top ∧
      arena.start ≤ arena.start + span headerSize lower := by omega
  have found : arena.start + span headerSize lower + (block.size - size) + headerSize ≠ 0 := by
    omega
  refine ⟨carved, ?_, after⟩
  simp only [search, if_pos inside, result, if_pos found]

/-- The block that grew is the one the request is taken from. -/
theorem grown_takes {size : Nat} (free : block.free = true) (room : size + headerSize < block.size)
    (tiled : Tiled carved arena.start top (lower ++
      [{ size := block.size - (size + headerSize), free := true },
        { size := size, free := false }])) :
    Takes arena (usedPlaces headerSize arena.start (lower ++ [block])) size
      (arena.start + span headerSize lower + (block.size - size) + headerSize)
      { heap := carved, top := top } := by
  have wide : ¬ block.size ≤ size + headerSize := by omega
  refine ⟨lower, block, [], free, by omega, ?_, rfl, ?_⟩
  · simp only [takenSize, if_neg wide]
  · simpa [taken, if_neg wide] using tiled

/-- The outcome of a search that reached the top: one growth and the request cut
from the block that grew, or a refusal that changes nothing. -/
def Ends (state : State) (blocks : List Block) (size growths : Nat)
    (result : Option (Nat × State × Nat)) : Prop :=
  (∃ pointer after, result = some (pointer, after, growths + 1) ∧ after.top ≤ arena.ceiling ∧
    Takes arena (usedPlaces headerSize arena.start blocks) size pointer after) ∨
  (result = some (0, state, growths) ∧
    (arena.ceiling < state.top + shortPages blocks size * 0x1000 ∨
      supplied (shortPages blocks size) = false))

section AtTop

variable {arena supplied} {state : State}
  (size prevBlock : Nat)
  (unwrapped : state.top + ((size + headerSize * 2) / 0x1000 + 1) * 0x1000 < 2 ^ 64)

include unwrapped

variable {blocks : List Block}

/-- The search ends behind a block in use: new pages become a block of their own. -/
theorem search_appends (tiled : Tiled state.heap arena.start state.top blocks)
    (closed : freeBefore headerSize none arena.start blocks = none)
    (listed : lastFree headerSize arena.start blocks = none ∧ emptyList = true ∨
      lastFree headerSize arena.start blocks = some prevBlock ∧ emptyList = false)
    (emptyIs : decide (state.top ≤ prevBlock ∨ prevBlock < arena.start) = emptyList)
    (apart : decide (emptyList = false ∧
      (prevBlock + headerSize + (header state.heap.memory prevBlock).size) % 2 ^ 64 =
        state.top) = false) (fuel growths : Nat) (firstBlock : Bool) (positive : 0 < size) :
    Ends arena supplied state blocks size growths
      (search arena supplied (fuel + 2) state size state.top prevBlock firstBlock growths) := by
  have width := header_size_eq
  have pagesIs := short_pages_closed arena.start size
    (header state.heap.memory prevBlock).size closed
  unfold Ends
  generalize shortPages blocks size = pages at *
  have fits : size + headerSize * 2 < 2 ^ 64 := by omega
  obtain ⟨some, few⟩ := growth_pages_le false positive fits
  have room := (growth_pages_room positive fits).2
  rw [show growthPages false size 0 = pages by rw [pagesIs]; simp [growthPages]] at some few room
  have unwraps : state.top + pages * 0x1000 < 2 ^ 64 :=
    Nat.lt_of_le_of_lt (Nat.add_le_add_left (Nat.mul_le_mul_right _ few) _) unwrapped
  have above := tiled.ends
  have start := arena.positive
  have exact := arena.exact state.top pages (by omega) some unwraps
  rw [search_outside arena supplied (fuel + 1) state size state.top prevBlock growths firstBlock
    emptyList false (fun inside => Nat.lt_irrefl _ inside.1) emptyIs apart _ pagesIs.symm]
  by_cases refused : arena.refuses state.top state.top pages = true ∨ supplied pages = false
  · rw [if_pos refused]
    exact .inr ⟨rfl, refused.imp exact.mp id⟩
  · rw [if_neg refused]
    have below : state.top + pages * 0x1000 ≤ arena.ceiling := by
      by_contra past
      exact refused (.inl (exact.mpr (by omega)))
    have small := arena.small
    have grown := append_block_spec tiled closed listed some unwraps (by omega)
    obtain ⟨carved, result, tiledAfter⟩ := search_grown arena supplied grown rfl fuel size prevBlock
      (growths + 1) false room
    have takes := grown_takes arena rfl room tiledAfter
    rw [above] at result takes
    rw [raise, Nat.mod_eq_of_lt unwraps]
    exact .inl ⟨_, _, result, below, by simpa using takes⟩

theorem search_extends (tiled : Tiled state.heap arena.start state.top (lower ++ [tail]))
    (free : tail.free = true) (short : tail.size < size)
    (located : prevBlock = arena.start + span headerSize lower) (fuel growths : Nat)
    (firstBlock : Bool) :
    Ends arena supplied state (lower ++ [tail]) size growths
      (search arena supplied (fuel + 2) state size state.top prevBlock firstBlock growths) := by
  have width := header_size_eq
  have fits : size + headerSize * 2 < 2 ^ 64 := by omega
  obtain ⟨some, few⟩ := growth_pages_le true short fits
  have room := (growth_pages_room short fits).1
  have pagesIs : shortPages (lower ++ [tail]) size = growthPages true size tail.size := by
    simp [shortPages, free]
  unfold Ends
  generalize shortPages (lower ++ [tail]) size = pages at *
  have tailSize := (tiled_block tiled).1
  rw [← located] at tailSize
  rw [← pagesIs] at some few room
  have unwraps : state.top + pages * 0x1000 < 2 ^ 64 :=
    Nat.lt_of_le_of_lt (Nat.add_le_add_left (Nat.mul_le_mul_right _ few) _) unwrapped
  have ends := tiled.ends
  simp only [span_append, span_cons, span_nil] at ends
  have start := arena.positive
  have exact := arena.exact state.top pages (by omega) some unwraps
  have nonempty : ¬ (state.top ≤ prevBlock ∨ prevBlock < arena.start) := by omega
  have touches : (prevBlock + headerSize + tail.size) % 2 ^ 64 = state.top := by omega
  rw [search_outside arena supplied (fuel + 1) state size state.top prevBlock growths firstBlock
    false true (fun inside => Nat.lt_irrefl _ inside.1) (decide_eq_false nonempty)
    (decide_eq_true ⟨rfl, by rw [tailSize]; exact touches⟩) pages (by rw [tailSize, pagesIs]),
    if_pos rfl]
  by_cases refused : arena.refuses state.top state.top pages = true ∨ supplied pages = false
  · rw [if_pos refused]
    exact .inr ⟨rfl, refused.imp exact.mp id⟩
  · rw [if_neg refused]
    have below : state.top + pages * 0x1000 ≤ arena.ceiling := by
      by_contra past
      exact refused (.inl (exact.mpr (by omega)))
    have small := arena.small
    have grown := extend_tail_spec tiled free unwraps (by omega)
    obtain ⟨carved, result, tiledAfter⟩ := search_grown arena supplied grown rfl fuel size prevBlock
      (growths + 1) false room
    have takes := grown_takes arena rfl room tiledAfter
    rw [← located] at result takes
    rw [raise, Nat.mod_eq_of_lt unwraps]
    exact .inl ⟨_, _, result, below, by simpa [free] using takes⟩

/-- The end of the walk, whichever block the search stands at. -/
theorem search_end (tiled : Tiled state.heap arena.start state.top blocks)
    (searched : lastFree headerSize arena.start blocks = none ∧ prevBlock = state.top ∨
      lastFree headerSize arena.start blocks = some prevBlock)
    (tight : ∀ block ∈ blocks, block.free = true → block.size < size) (positive : 0 < size)
    (fuel growths : Nat) (firstBlock : Bool) :
    Ends arena supplied state blocks size growths
      (search arena supplied (fuel + 2) state size state.top prevBlock firstBlock growths) := by
  rcases searched with ⟨none, rfl⟩ | found
  · have used := (last_free_none headerSize arena.start blocks).mp none
    have closed : freeBefore headerSize Option.none arena.start blocks = Option.none := by
      cases last : freeBefore headerSize Option.none arena.start blocks with
      | none => rfl
      | some address =>
        obtain ⟨lower, tail, rfl, free, _⟩ := free_before_split headerSize _ _ _ last
        simp [used tail (by simp)] at free
    exact search_appends size state.top unwrapped tiled closed (.inl ⟨none, rfl⟩)
      (by simp) (by simp) fuel growths firstBlock positive
  · obtain ⟨lower, upper, _⟩ := last_free_next tiled found
    rcases tail_cases tiled found with
      ⟨lower, tail, rfl, free, located, _, _⟩ | ⟨closed, short⟩
    · exact search_extends size prevBlock unwrapped tiled free (tight tail (by simp) free)
        located fuel growths firstBlock
    · have width := header_size_eq
      have addressable := arena.addressable
      refine search_appends size prevBlock unwrapped tiled closed
        (.inr ⟨found, rfl⟩) (decide_eq_false (by omega)) (decide_eq_false ?_) fuel growths
        firstBlock positive
      rintro ⟨_, touches⟩
      rw [Nat.mod_eq_of_lt (by omega)] at touches
      omega

end AtTop

/-- The search from the first free block above `below`, none of the free blocks
below having fitted. It ends in a block that fits or at the top.

Induction is on the fuel; each round moves the split of the blocks past one free
block that is too small. -/
theorem search_spec (fuel : Nat) (size currentBlock prevBlock growths : Nat) (firstBlock : Bool)
    (below rest : List Block) (tiled : Tiled state.heap arena.start state.top (below ++ rest))
    (current : currentBlock =
      firstFree headerSize (arena.start + span headerSize below) rest state.top)
    (searched : lastFree headerSize arena.start below = none ∧ firstBlock = true ∧
        prevBlock = currentBlock ∨
      lastFree headerSize arena.start below = some prevBlock)
    (tight : ∀ block ∈ below, block.free = true → block.size < size) (positive : 0 < size)
    (unwrapped : state.top + ((size + headerSize * 2) / 0x1000 + 1) * 0x1000 < 2 ^ 64)
    (enough : rest.length + 2 ≤ fuel) :
    (∃ pointer after,
      search arena supplied fuel state size currentBlock prevBlock firstBlock growths =
        some (pointer, after, growths) ∧ after.top = state.top ∧
      Takes arena (usedPlaces headerSize arena.start (below ++ rest)) size pointer after) ∨
    Ends arena supplied state (below ++ rest) size growths
      (search arena supplied fuel state size currentBlock prevBlock firstBlock growths) := by
  have width := header_size_eq
  induction fuel generalizing currentBlock prevBlock firstBlock below rest with
  | zero => omega
  | succ fuel ih =>
    rcases walk_cases tiled current with ⟨rfl, used, sameLast⟩ |
      ⟨middle, block, upper, rfl, used, free, address, inside, split, sameLast, blockSize, next,
        lastHere⟩
    · -- The walk is at the top, with the last free block of the whole heap behind it.
      obtain ⟨more, rfl⟩ : ∃ more, fuel = more + 1 := ⟨fuel - 1, by omega⟩
      refine .inr (search_end size prevBlock unwrapped tiled ?_ ?_ positive more growths
        firstBlock)
      · rw [sameLast]
        exact searched.imp (fun both => ⟨both.1, both.2.2⟩) id
      · intro block member free
        rcases List.mem_append.mp member with lower | upper
        · exact tight block lower free
        · rw [used block upper] at free
          cases free
    rw [← List.append_assoc]
    have within : currentBlock < state.top ∧ arena.start ≤ currentBlock := by omega
    by_cases room : size ≤ block.size
    · obtain ⟨heap, result, after⟩ := heap_alloc_spec split size prevBlock firstBlock free room
        (by
          rw [sameLast]
          exact searched.imp (fun both => ⟨both.1, both.2.1⟩) id)
      rw [← address] at result
      have found : currentBlock + (block.size - takenSize block size) + headerSize ≠ 0 := by
        omega
      refine .inl ⟨currentBlock + (block.size - takenSize block size) + headerSize,
        { state with heap := heap }, ?_, rfl, below ++ middle, block, upper, free, room,
        by rw [address], rfl, after⟩
      simp only [search, if_pos within, result, if_pos found]
    · have tightHere : ∀ other ∈ below ++ middle ++ [block], other.free = true →
          other.size < size := by
        intro other member otherFree
        simp only [List.mem_append, List.mem_singleton] at member
        rcases member with (lower | between) | rfl
        · exact tight other lower otherFree
        · rw [used other between] at otherFree
          cases otherFree
        · omega
      simp only [List.length_append, List.length_cons] at enough
      have continued := ih (header state.heap.memory currentBlock).nextFree
        currentBlock false (below ++ middle ++ [block]) upper (by simpa using tiled) next
        (.inr lastHere) tightHere (by omega)
      rw [search_skips arena supplied fuel state size currentBlock prevBlock growths firstBlock
        within (by omega)]
      simpa using continued

/-- What holds of a growing heap between calls. -/
structure Invariant (state : State) (live : List Nat) (blocks : List Block) : Prop where
  owned : Owned state.heap arena.start state.top live blocks
  bounded : state.top ≤ arena.ceiling

/-- What a request has to bring about: with at most one growth, a block of at least
the requested size apart from all live blocks, with the heap well formed around
it; or a null pointer with the heap unchanged, when no free block fits and the
growth would pass the ceiling or its pages could not be mapped. -/
def Served (state : State) (live : List Nat) (size : Nat)
    (result : Option (Nat × State × Nat)) : Prop :=
  ∃ pointer after growths, result = some (pointer, after, growths) ∧ growths ≤ 1 ∧
    ((pointer ≠ 0 ∧ (∃ blocks, Invariant arena after (pointer :: live) blocks) ∧
      size ≤ (header after.heap.memory (pointer - headerSize)).size ∧
      ∀ other ∈ live, BlocksApart after.heap.memory pointer other) ∨
    (pointer = 0 ∧ after = state ∧ growths = 0 ∧
      ∃ blocks, Tiled state.heap arena.start state.top blocks ∧
        (arena.ceiling < state.top + shortPages blocks (size + headerSize * 3) * 0x1000 ∨
          supplied (shortPages blocks (size + headerSize * 3)) = false)))

/-- The 64-bit sum of the top and the largest possible growth for a request does
not wrap. -/
def Unwrapped (state : State) (size : Nat) : Prop :=
  state.top + ((size + headerSize * 3 + headerSize * 2) / 0x1000 + 1) * 0x1000 < 2 ^ 64

variable {arena} {blocks : List Block}

/-- A heap inside its ceiling has fewer blocks than the bound on the walks. -/
theorem blocks_lt_fuel (tiled : Tiled heap arena.start top blocks) (bounded : top ≤ arena.ceiling) :
    blocks.length + 2 ≤ searchFuel arena := by
  have short := length_le_span headerSize blocks (by decide)
  have ends := tiled.ends
  unfold searchFuel
  omega

variable {live : List Nat}

section

variable (invariant : Invariant arena state live blocks)
include invariant

/-- A block taken for the padded request serves the request. -/
theorem takes_served {size : Nat} (few : growths ≤ 1) (bounded : after.top ≤ arena.ceiling)
    (takes : Takes arena (usedPlaces headerSize arena.start blocks) (size + headerSize * 3) pointer
      after) : Served arena supplied state live size (some (pointer, after, growths)) := by
  have width := header_size_eq
  obtain ⟨lower, block, upper, free, room, rfl, sameUsed, tiled⟩ := takes
  have owners := invariant.owned.owners
  rw [← sameUsed] at owners
  have owned := (owned_take owners free _ room tiled).1
  have apart := (List.pairwise_cons.mp (owned_apart owned)).1
  have stamped := taken_header _ room tiled
  have large := (taken_size_ge block _ room).1
  refine ⟨_, after, growths, rfl, few, .inl ⟨by omega, ⟨_, owned, bounded⟩, ?_, apart⟩⟩
  rw [Nat.add_sub_cancel, stamped]
  omega

/-- A request that passes the entry check is served, as long as the address
computation does not wrap. -/
theorem request_served (size : Nat) (unwrapped : Unwrapped state size) :
    Served arena supplied state live size (request arena supplied state size) := by
  have width := header_size_eq
  obtain ⟨owned, bounded⟩ := id invariant
  rcases search_spec arena supplied (searchFuel arena) (size + headerSize * 3)
      state.heap.firstFree state.heap.firstFree 0 true [] blocks owned.tiled
      owned.tiled.linked (.inl ⟨rfl, rfl, rfl⟩) (by simp) (by omega) unwrapped
      (blocks_lt_fuel owned.tiled bounded) with
    ⟨pointer, after, result, sameTop, takes⟩ | ⟨pointer, after, result, inside, takes⟩ |
      ⟨result, refused⟩
  · rw [request, result]
    exact takes_served supplied invariant (by omega) (by omega) takes
  · rw [request, result]
    exact takes_served supplied invariant (by omega) inside takes
  · rw [request, result]
    exact ⟨0, state, 0, rfl, by omega, .inr ⟨rfl, rfl, rfl, blocks, owned.tiled, refused⟩⟩

/-- Releasing a live pointer returns and makes it dead. -/
theorem release_invariant (member : pointer ∈ live) (blockMaxSize : Nat)
    (limit : state.top - arena.start ≤ blockMaxSize) :
    (header state.heap.memory (pointer - headerSize)).isMmapped = true ∧
    ∃ after, release arena state pointer blockMaxSize = some after ∧ after.top = state.top ∧
      ∃ blocks, Invariant arena after (live.erase pointer) blocks := by
  obtain ⟨owned, bounded⟩ := invariant
  obtain ⟨below, block, above, rfl, used, rfl⟩ := owned_split owned member
  obtain ⟨size, mapped, _⟩ := tiled_block owned.tiled
  have small := arena.small
  have enough := blocks_lt_fuel owned.tiled bounded
  obtain ⟨heap, remaining, result, tiled, kept⟩ := heap_free_spec owned.tiled used arena.positive
    (by omega) (searchFuel arena) blockMaxSize limit (by omega)
  rw [← Nat.add_assoc] at result
  refine ⟨by rw [Nat.add_sub_cancel, mapped, used]; rfl, { state with heap := heap }, ?_, rfl,
    remaining, (owned_return owned used tiled kept).1, bounded⟩
  simp only [release, Nat.add_sub_cancel, size, result, Option.bind_eq_bind, Option.bind_some]

theorem write_invariant (member : pointer ∈ live) (address : Nat) (value : UInt8)
    (lower : pointer ≤ address)
    (upper : address < pointer + (header state.heap.memory (pointer - headerSize)).size) :
    Invariant arena { state with
      heap := { state.heap with memory := put state.heap.memory address value } } live blocks :=
  ⟨owned_write invariant.owned member address value lower upper, invariant.bounded⟩

end

end Search

/-- What the users of a growing heap do. -/
inductive Call where
  | malloc (size : Nat)
  | free (pointer : Nat)
  | write (address : Nat) (value : UInt8)

/-- The live pointers after a request returned `pointer`. A null result is not
live. -/
def handOut (live : List Nat) (pointer : Nat) : List Nat :=
  if pointer = 0 then live else pointer :: live

/-- The bytes that belong to some live allocation. -/
def InPayload (memory : Bytes) (live : List Nat) (address : Nat) : Prop :=
  ∃ pointer ∈ live, pointer ≤ address ∧
    address < pointer + (header memory (pointer - headerSize)).size

variable {blocks : List Block} {live : List Nat}

/-- A served request returns and leaves the invariant for the pointers then live. -/
theorem served_invariant {arena : Arena} {supplied : Nat → Bool} {size : Nat}
    {result : Option (Nat × State × Nat)} (served : Served arena supplied state live size result)
    (invariant : Invariant arena state live blocks) :
    ∃ pointer after growths, result = some (pointer, after, growths) ∧
      ∃ blocks, Invariant arena after (handOut live pointer) blocks := by
  obtain ⟨pointer, after, growths, rfl, _, ⟨found, kept, _⟩ | ⟨rfl, rfl, _⟩⟩ := served
  · refine ⟨pointer, after, growths, rfl, ?_⟩
    rw [handOut, if_neg found]
    exact kept
  · exact ⟨0, _, growths, rfl, blocks, invariant⟩

end Balrog.GrowingHeap
