import Balrog.HeapOwners
import Balrog.Runs

/-!
# The kernel heap

`kheap.c` owns a fixed megabyte between two linker symbols and hands it out with
the shared allocator. `kmalloc` walks the free list from its head until a block
fits; `kfree` returns a block. `kheap_size` counts the payload bytes in use.

A run interleaves allocations of any size, frees of live pointers, and writes by
the owners of live blocks into their own payload. Every state of every run is
well formed, and no call is stuck.
-/

namespace Balrog.KernelHeap

open ByteMemory BlockInfo BlockTiling HeapAlloc HeapFree HeapOwners Runs Option

/-- `kheap_area` of `linkerScript/Kernel.ld`: one megabyte into the text window. -/
def kheapStart : Nat := 0xFFFFFFFF80100000

/-- `kheap_area_end`, 1024K further on. -/
def kheapEnd : Nat := 0xFFFFFFFF80200000

/-- The static variables of `kheap.c` that change after initialisation, and the
heap's memory. -/
structure KHeap where
  heap : Heap
  kheapSize : Nat

/-- `init_kheap` over whatever bytes the area held. The reservation of the area
with the physical allocator is not part of the heap. -/
def initKheap (memory : Bytes) : KHeap :=
  let memory := setSize memory kheapStart (kheapEnd - kheapStart - headerSize)
  let memory := setNextFree memory kheapStart kheapEnd
  let memory := setPreviousChunk memory kheapStart 0
  let memory := setIsMmapped memory kheapStart false
  let memory := setPresent memory kheapStart false
  let memory := setNonArena memory kheapStart false
  { heap := { memory := memory, firstFree := kheapStart }, kheapSize := 0 }

/-- A bound on the number of blocks of the area, and so on every walk. -/
def kheapFuel : Nat := kheapEnd - kheapStart + 1

/-- The search loop of `kmalloc`. `first_block` stays set throughout. -/
def kmallocLoop : Nat → KHeap → Nat → Nat → Nat → Option (Nat × KHeap)
  | 0, _, _, _, _ => none
  | fuel + 1, kernel, size, currentBlock, prevBlock =>
    if currentBlock < kheapEnd then
      let result := heapAlloc kernel.heap size currentBlock prevBlock kheapEnd true
      if result.1 ≠ 0 then
        some (result.1,
          { heap := result.2
            kheapSize := (kernel.kheapSize +
              (header result.2.memory (result.1 - headerSize)).size) % 2 ^ 64 })
      else
        kmallocLoop fuel { kernel with heap := result.2 } size
          (header result.2.memory currentBlock).nextFree currentBlock
    else some (0, kernel)

/-- `kmalloc`. The padding is added in 64 bits and can wrap. -/
def kmalloc (kernel : KHeap) (size : Nat) : Option (Nat × KHeap) :=
  kmallocLoop kheapFuel kernel ((size + headerSize * 3) % 2 ^ 64) kernel.heap.firstFree
    kernel.heap.firstFree

/-- `kfree`. A block that is not in use is reported and left alone. -/
def kfree (kernel : KHeap) (pointer : Nat) : Option KHeap :=
  let block := pointer - headerSize
  let size := (header kernel.heap.memory block).size
  if (header kernel.heap.memory block).isMmapped = true then do
    let heap ← heapFree kheapFuel kernel.heap block (pointer + size) kheapEnd
      (kheapEnd - kheapStart)
    some { heap := heap, kheapSize := (kernel.kheapSize + 2 ^ 64 - size) % 2 ^ 64 }
  else some kernel

/-- The kernel heap together with the pointers handed out and not yet freed. -/
structure System where
  kernel : KHeap
  live : List Nat

/-- What the rest of the kernel does to the heap. -/
inductive Call where
  | kmalloc (size : Nat)
  | kfree (pointer : Nat)
  | write (address : Nat) (value : UInt8)

/-- Only live pointers are freed, and only payload of live blocks is written. -/
def allowed (system : System) : Call → Prop
  | .kmalloc _ => True
  | .kfree pointer => pointer ∈ system.live
  | .write address _ => ∃ pointer ∈ system.live, pointer ≤ address ∧
      address < pointer + (header system.kernel.heap.memory (pointer - headerSize)).size

/-- One call. A null result of `kmalloc` is not a live pointer. -/
def step (system : System) : Call → Option System
  | .kmalloc size => do
      let (pointer, kernel) ← kmalloc system.kernel size
      some { kernel := kernel
             live := if pointer = 0 then system.live else pointer :: system.live }
  | .kfree pointer => do
      let kernel ← kfree system.kernel pointer
      some { kernel := kernel, live := system.live.erase pointer }
  | .write address value =>
      some { system with
        kernel := { system.kernel with
          heap := { system.kernel.heap with
            memory := put system.kernel.heap.memory address value } } }

/-- The kernel heap as a machine, started by `init_kheap` over any memory. -/
def machine : Machine System Call where
  initial system := ∃ memory, system = { kernel := initKheap memory, live := [] }
  allowed := allowed
  step := step

/-- The invariant of the kernel heap: the live pointers own the blocks in use and
the counter is the sum of their payloads. -/
structure Invariant (system : System) (blocks : List Block) : Prop where
  owned : Owned system.kernel.heap kheapStart kheapEnd system.live blocks
  counted : system.kernel.kheapSize = usedBytes kheapStart blocks

/-- `init_kheap` leaves one free block over the whole area. -/
theorem init_invariant (memory : Bytes) :
    Invariant { kernel := initKheap memory, live := [] }
      [{ size := kheapEnd - kheapStart - headerSize, free := true }] := by
  have first : header (initKheap memory).heap.memory kheapStart =
      { header memory kheapStart with
        previousChunk := 0, size := kheapEnd - kheapStart - headerSize, nonArena := false,
        isMmapped := false, present := false, nextFree := kheapEnd } := by
    simp only [initKheap, header_set_non_arena, header_set_present, header_set_is_mmapped,
      header_set_previous_chunk, header_set_next_free, header_set_size]
    rfl
  refine ⟨⟨⟨?_, rfl, rfl, by decide⟩, List.Perm.nil⟩, rfl⟩
  refine ⟨?_, trivial⟩
  simp [tag, first, firstFree]

/-- The search of `kmalloc` over the rest of the free list. Either nothing is
large enough and the heap is returned unchanged, or some free block is taken.

Induction is on the fuel; each round moves the split of the blocks past one free
block, which becomes the last free block below. -/
theorem kmalloc_loop_spec (fuel : Nat) (kernel : KHeap) (size currentBlock prevBlock : Nat)
    (below rest : List Block) (tiled : Tiled kernel.heap kheapStart kheapEnd (below ++ rest))
    (current : currentBlock =
      firstFree headerSize (kheapStart + span headerSize below) rest kheapEnd)
    (previous : lastFree headerSize kheapStart below = none ∨
      lastFree headerSize kheapStart below = some prevBlock)
    (enough : rest.length < fuel) :
    kmallocLoop fuel kernel size currentBlock prevBlock = some (0, kernel) ∨
      ∃ lower block upper pointer heap, below ++ rest = lower ++ block :: upper ∧
        block.free = true ∧ size ≤ block.size ∧
        pointer = kheapStart + span headerSize lower + (block.size - takenSize block size) +
          headerSize ∧
        kmallocLoop fuel kernel size currentBlock prevBlock = some (pointer,
          { heap := heap
            kheapSize := (kernel.kheapSize +
              (header heap.memory (pointer - headerSize)).size) % 2 ^ 64 }) ∧
        Tiled heap kheapStart kheapEnd (lower ++ taken block size ++ upper) := by
  have width := header_size_eq
  induction fuel generalizing currentBlock prevBlock below rest with
  | zero => omega
  | succ fuel ih =>
    rcases walk_cases tiled current with ⟨rfl, _⟩ |
      ⟨middle, block, upper, rfl, _, free, address, inside, split, sameLast, blockSize, next,
        lastHere⟩
    · exact .inl (by simp [kmallocLoop])
    rw [← List.append_assoc]
    by_cases room : size ≤ block.size
    · have searched : lastFree headerSize kheapStart (below ++ middle) = none ∧ true = true ∨
          lastFree headerSize kheapStart (below ++ middle) = some prevBlock := by
        rw [sameLast]
        simpa using previous
      obtain ⟨heap, result, after⟩ := heap_alloc_spec split size prevBlock true free room searched
      rw [← address] at result
      refine .inr ⟨below ++ middle, block, upper, _, heap, rfl, free, room, rfl, ?_, after⟩
      rw [← address]
      have positive : currentBlock + (block.size - takenSize block size) + headerSize ≠ 0 := by
        omega
      simp only [kmallocLoop, if_pos inside, result, if_pos positive]
    · have skipped := heap_alloc_too_large kernel.heap size currentBlock prevBlock kheapEnd true
        (by omega)
      simp only [List.length_append, List.length_cons] at enough
      have continued := ih (header kernel.heap.memory currentBlock).nextFree
        currentBlock (below ++ middle ++ [block]) upper (by simpa using tiled) next
        (.inr lastHere) (by omega)
      have unfolded : kmallocLoop (fuel + 1) kernel size currentBlock prevBlock =
          kmallocLoop fuel kernel size (header kernel.heap.memory currentBlock).nextFree
            currentBlock := by
        simp [kmallocLoop, inside, skipped]
      rw [unfolded]
      simpa using continued

variable {blocks : List Block}

variable {heap : Heap} {system : System}

/-- The counter of the kernel heap never reaches the width of its variable. -/
theorem used_bytes_small {live : List Nat} (owned : Owned heap kheapStart kheapEnd live blocks) :
    usedBytes kheapStart blocks < 2 ^ 64 := by
  have inside := used_bytes_le_span kheapStart blocks
  have ends := owned.tiled.ends
  have area : kheapEnd < 2 ^ 64 := by decide
  omega

/-- The area has fewer blocks than the bound on the walks. -/
theorem blocks_le_fuel (tiled : Tiled heap kheapStart kheapEnd blocks) :
    blocks.length < kheapFuel := by
  have short := length_le_span headerSize blocks (by decide)
  have ends := tiled.ends
  unfold kheapFuel
  omega

/-- `kmalloc` returns. Nothing is large enough and nothing changes, or a free block is taken
for the padded size. -/
theorem kmalloc_cases {kernel : KHeap} (tiled : Tiled kernel.heap kheapStart kheapEnd blocks)
    (size : Nat) {padded : Nat} (isPadded : (size + headerSize * 3) % 2 ^ 64 = padded) :
    kmalloc kernel size = some (0, kernel) ∨
      ∃ lower block upper heap, blocks = lower ++ block :: upper ∧ block.free = true ∧
        padded ≤ block.size ∧
        kmalloc kernel size = some (kheapStart + span headerSize lower +
            (block.size - takenSize block padded) + headerSize,
          { heap := heap
            kheapSize := (kernel.kheapSize + takenSize block padded) % 2 ^ 64 }) ∧
        Tiled heap kheapStart kheapEnd (lower ++ taken block padded ++ upper) := by
  unfold kmalloc
  rw [isPadded]
  rcases kmalloc_loop_spec kheapFuel kernel padded kernel.heap.firstFree kernel.heap.firstFree []
      blocks tiled tiled.linked (.inl rfl) (blocks_le_fuel tiled) with
    unchanged | ⟨lower, block, upper, pointer, heap, split, free, room, rfl, result, after⟩
  · exact .inl unchanged
  · rw [Nat.add_sub_cancel, taken_header _ room after] at result
    exact .inr ⟨lower, block, upper, heap, split, free, room, result, after⟩

/-- `kmalloc` keeps the invariant: it changes nothing or hands out a pointer that is then
live. -/
theorem kmalloc_invariant (invariant : Invariant system blocks) (size : Nat) :
    ∃ after, step system (.kmalloc size) = some after ∧ ∃ blocks, Invariant after blocks := by
  have width := header_size_eq
  obtain ⟨owned, counted⟩ := invariant
  rcases kmalloc_cases owned.tiled size rfl with
    unchanged | ⟨lower, block, upper, heap, rfl, free, room, result, tiled⟩
  · refine ⟨system, ?_, blocks, owned, counted⟩
    simp only [step, unchanged, bind_eq_bind, bind_some, if_true]
  · obtain ⟨after, bytes⟩ := owned_take owned.owners free _ room tiled
    have small := used_bytes_small after
    rw [counted, ← bytes, Nat.mod_eq_of_lt small] at result
    refine ⟨{ kernel := { heap := heap, kheapSize := usedBytes kheapStart _ }, live := _ }, ?_, _,
      after, rfl⟩
    simp only [step, result, bind_eq_bind, bind_some]
    rw [if_neg (by omega)]

/-- `kfree` of a live pointer returns and makes it dead. -/
theorem kfree_invariant (invariant : Invariant system blocks) (pointer : Nat)
    (member : pointer ∈ system.live) :
    ∃ after, step system (.kfree pointer) = some after ∧ ∃ blocks, Invariant after blocks := by
  obtain ⟨owned, counted⟩ := invariant
  obtain ⟨below, block, above, rfl, used, rfl⟩ := owned_split owned member
  obtain ⟨size, mapped, _⟩ := tiled_block owned.tiled
  have small := used_bytes_small owned
  obtain ⟨heap, remaining, result, tiled, kept⟩ := heap_free_spec owned.tiled used (by decide)
    (by decide) kheapFuel (kheapEnd - kheapStart) (Nat.le_refl _)
    (Nat.le_of_lt (blocks_le_fuel owned.tiled))
  obtain ⟨after, bytes⟩ := owned_return owned used tiled kept
  refine ⟨{ kernel := { heap := heap, kheapSize := usedBytes kheapStart remaining }, live := _ },
    ?_, remaining, after, rfl⟩
  have counter : (system.kernel.kheapSize + 2 ^ 64 - block.size) % 2 ^ 64 =
      usedBytes kheapStart remaining := by
    omega
  rw [← Nat.add_assoc] at result
  simp only [step, kfree, Nat.add_sub_cancel, size, mapped, used, Bool.not_false, if_true, result,
    counter, bind_eq_bind, bind_some]

/-- Every call keeps the invariant, and none is stuck. -/
theorem machine_invariant :
    Inductive machine (fun system => ∃ blocks, Invariant system blocks) where
  starts := by
    rintro system ⟨memory, rfl⟩
    exact ⟨_, init_invariant memory⟩
  preserved := by
    rintro system call ⟨blocks, invariant⟩ permitted
    cases call with
    | kmalloc size => exact kmalloc_invariant invariant size
    | kfree pointer => exact kfree_invariant invariant pointer permitted
    | write address value =>
      obtain ⟨pointer, member, lower, upper⟩ := permitted
      exact ⟨_, rfl, blocks, owned_write invariant.owned member address value lower upper,
        invariant.counted⟩

/-- In every state of every run of allocations and frees the kernel heap is well
formed, its counter is the payload in use, the live pointers are exactly the
blocks in use and do not overlap, and every admitted call returns. -/
theorem kernel_heap_well_formed (system : System) (reached : Reachable machine system) :
    (∃ blocks, WellFormed system.kernel.heap kheapStart kheapEnd blocks ∧
      system.kernel.kheapSize = usedBytes kheapStart blocks ∧
      system.live.Perm
        ((usedPlaces headerSize kheapStart blocks).map (fun entry => entry.1 + headerSize))) ∧
    system.live.Pairwise (BlocksApart system.kernel.heap.memory) ∧
    ∀ call, allowed system call → ∃ after, step system call = some after := by
  obtain ⟨blocks, owned, counted⟩ := machine_invariant.holds reached
  exact ⟨⟨blocks, tiled_well_formed owned.tiled, counted, owned.owners⟩, owned_apart owned,
    fun call permitted => machine_invariant.returns reached permitted⟩

/-- The heap after initialisation over zeroed memory and one allocation. -/
theorem kernel_heap_well_formed_after_kmalloc :
    ∃ system, step { kernel := initKheap (fun _ => 0), live := [] } (.kmalloc 8) = some system ∧
      system.live.Pairwise (BlocksApart system.kernel.heap.memory) ∧
      ∃ blocks, WellFormed system.kernel.heap kheapStart kheapEnd blocks ∧
        system.kernel.kheapSize = usedBytes kheapStart blocks := by
  have start : Reachable machine { kernel := initKheap (fun _ => 0), live := [] } :=
    .initial ⟨_, rfl⟩
  have permitted : machine.allowed { kernel := initKheap (fun _ => 0), live := [] } (.kmalloc 8) :=
    trivial
  obtain ⟨system, result⟩ := machine_invariant.returns start permitted
  obtain ⟨⟨blocks, formed, counted, _⟩, apart, _⟩ :=
    kernel_heap_well_formed system (.step start permitted result)
  exact ⟨system, result, apart, blocks, formed, counted⟩

/-- When everything has been freed, one free block is the whole kernel heap. -/
theorem kernel_heap_drained {system : System} (reached : Reachable machine system)
    (drained : system.live = []) :
    WellFormed system.kernel.heap kheapStart kheapEnd
        [{ size := kheapEnd - kheapStart - headerSize, free := true }] ∧
      system.kernel.kheapSize = 0 := by
  obtain ⟨blocks, owned, counted⟩ := machine_invariant.holds reached
  rw [drained] at owned
  rcases owned_drained owned with rfl | rfl
  · exact absurd owned.tiled.ends (by decide)
  · exact ⟨tiled_well_formed owned.tiled, counted⟩

/-- A block of 8 bytes is taken and given back. -/
theorem kernel_heap_drained_after_kfree : ∃ pointer taken after,
    step { kernel := initKheap (fun _ => 0), live := [] } (.kmalloc 8) = some taken ∧
    taken.live = [pointer] ∧ step taken (.kfree pointer) = some after ∧
    WellFormed after.kernel.heap kheapStart kheapEnd
      [{ size := kheapEnd - kheapStart - headerSize, free := true }] ∧
    after.kernel.kheapSize = 0 := by
  have start : Reachable machine { kernel := initKheap (fun _ => 0), live := [] } :=
    .initial ⟨_, rfl⟩
  obtain ⟨taken, result⟩ := machine_invariant.returns start
    (show machine.allowed _ (.kmalloc 8) from trivial)
  have one : (step { kernel := initKheap (fun _ => 0), live := [] } (.kmalloc 8)).map
      (·.live.length) = some 1 := by decide +kernel
  rw [show step _ (.kmalloc 8) = some taken from result] at one
  obtain ⟨pointer, isLive⟩ := List.length_eq_one_iff.mp (Option.some.inj one)
  have permitted : machine.allowed taken (.kfree pointer) := by
    change pointer ∈ taken.live
    rw [isLive]
    exact List.mem_singleton_self _
  have reached := start.call (.kmalloc 8) trivial result
  obtain ⟨after, freed⟩ := machine_invariant.returns reached permitted
  have drained : after.live = [] := by
    have erased : after.live = taken.live.erase pointer := by
      simp only [machine, step, bind_eq_bind, bind_eq_some_iff, some.injEq] at freed
      obtain ⟨_, _, rfl⟩ := freed
      rfl
    rw [erased, isLive, List.erase_cons_head]
  exact ⟨pointer, taken, after, result, isLive, freed,
    kernel_heap_drained (reached.call _ permitted freed) drained⟩

/-- A pointer to a block of the kernel heap with room for `size` bytes. -/
def Serves (kernel : KHeap) (pointer size : Nat) : Prop :=
  kheapStart + headerSize ≤ pointer ∧
    size ≤ (header kernel.heap.memory (pointer - headerSize)).size ∧
    pointer + (header kernel.heap.memory (pointer - headerSize)).size ≤ kheapEnd

/-- In every state of every run, `kmalloc` of a size whose padding does not wrap returns, and a
pointer that it returns has room for that size inside the kernel heap. -/
theorem kmalloc_unwrapped {system : System} (reached : Reachable machine system) {size : Nat}
    (unwrapped : size + headerSize * 3 < 2 ^ 64) :
    ∃ pointer kernel, kmalloc system.kernel size = some (pointer, kernel) ∧
      (pointer ≠ 0 → Serves kernel pointer size) := by
  obtain ⟨blocks, owned, _⟩ := machine_invariant.holds reached
  rcases kmalloc_cases owned.tiled size (Nat.mod_eq_of_lt unwrapped) with
    unchanged | ⟨lower, block, upper, heap, rfl, _, room, result, tiled⟩
  · exact ⟨0, system.kernel, unchanged, fun served => absurd rfl served⟩
  · refine ⟨_, _, result, fun _ => ?_⟩
    have stamped := taken_header _ room tiled
    have ⟨enough, inBlock⟩ := taken_size_ge block _ room
    have ends := owned.tiled.ends
    simp only [span_append, span_cons] at ends
    rw [Serves, Nat.add_sub_cancel, stamped]
    exact ⟨by omega, by omega, by omega⟩

/-- On a heap that was just set up, a size whose padding wraps is taken for one below 72 bytes, and
is served. -/
theorem kmalloc_wrapped {size : Nat} (fits : size < 2 ^ 64) (wraps : 2 ^ 64 ≤ size + headerSize * 3) :
    (kmalloc (initKheap fun _ => 0) size).map (fun result => decide (result.1 ≠ 0)) = some true := by
  have all : ∀ rest < 72, (kmalloc (initKheap fun _ => 0) (2 ^ 64 - 72 + rest)).map
      (fun result => decide (result.1 ≠ 0)) = some true := by
    decide +kernel
  have width := header_size_eq
  have isSize : size = 2 ^ 64 - 72 + (size - (2 ^ 64 - 72)) := by omega
  rw [isSize]
  exact all _ (by omega)

/-- No block of the kernel heap has room for a size whose padding wraps. -/
theorem not_serves {kernel : KHeap} {pointer size : Nat} (wraps : 2 ^ 64 ≤ size + headerSize * 3) :
    ¬ Serves kernel pointer size := by
  rintro ⟨above, enough, inside⟩
  have width := header_size_eq
  simp only [kheapEnd] at inside
  omega

/-- `kmalloc` of a size returns in every state of every run, with a null pointer or with one that
has room for that size inside the kernel heap, exactly if the padding of the size does not wrap. -/
theorem kmalloc_serves_iff {size : Nat} (fits : size < 2 ^ 64) :
    (∀ system, Reachable machine system → ∃ pointer kernel,
      kmalloc system.kernel size = some (pointer, kernel) ∧
        (pointer ≠ 0 → Serves kernel pointer size)) ↔ size + headerSize * 3 < 2 ^ 64 := by
  constructor
  · intro serves
    by_contra wraps
    obtain ⟨pointer, kernel, result, served⟩ :=
      serves { kernel := initKheap fun _ => 0, live := [] } (.initial ⟨_, rfl⟩)
    have answer := kmalloc_wrapped fits (Nat.le_of_not_lt wraps)
    rw [result] at answer
    have nonzero : pointer ≠ 0 := of_decide_eq_true (Option.some.inj answer)
    exact not_serves (Nat.le_of_not_lt wraps) (served nonzero)
  · exact fun unwrapped system reached => kmalloc_unwrapped reached unwrapped

/-- Eight bytes from a heap that was just set up. -/
theorem kmalloc_serves_eight :
    ∃ pointer kernel, kmalloc (initKheap fun _ => 0) 8 = some (pointer, kernel) ∧ pointer ≠ 0 ∧
      Serves kernel pointer 8 := by
  obtain ⟨pointer, kernel, result, serves⟩ :=
    (@kmalloc_serves_iff 8 (by decide)).mpr (by decide)
      { kernel := initKheap fun _ => 0, live := [] } (.initial ⟨_, rfl⟩)
  have answer : (kmalloc (initKheap fun _ => 0) 8).map (fun result => decide (result.1 ≠ 0)) =
      some true := by
    decide +kernel
  rw [result] at answer
  have served := of_decide_eq_true (Option.some.inj answer)
  exact ⟨pointer, kernel, result, served, serves served⟩

/-- A size just below the width of the variable wraps to a request for eight bytes, which is
served. -/
theorem kmalloc_wraps :
    Reachable machine { kernel := initKheap fun _ => 0, live := [] } ∧
      ∃ pointer kernel, kmalloc (initKheap fun _ => 0) (2 ^ 64 - 64) = some (pointer, kernel) ∧
        pointer ≠ 0 ∧ (header kernel.heap.memory (pointer - headerSize)).size = 8 ∧
        ¬ Serves kernel pointer (2 ^ 64 - 64) := by
  have answer : (kmalloc (initKheap fun _ => 0) (2 ^ 64 - 64)).map (fun result =>
      (decide (result.1 ≠ 0), (header result.2.heap.memory (result.1 - headerSize)).size)) =
        some (true, 8) := by
    decide +kernel
  obtain ⟨⟨pointer, kernel⟩, result, parts⟩ := map_eq_some_iff.mp answer
  obtain ⟨served, size⟩ := Prod.mk.inj parts
  refine ⟨.initial ⟨_, rfl⟩, pointer, kernel, result, of_decide_eq_true served, size, ?_⟩
  rintro ⟨_, enough, _⟩
  rw [size] at enough
  exact absurd enough (by decide)

end Balrog.KernelHeap
