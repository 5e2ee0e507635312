import Balrog.GrowingHeap

/-!
# The kernel's virtual heap

`vmheap.c` runs a growing heap over 128 GiB of kernel addresses, of which
`init_vmheap` maps the first megabyte. The ceiling test adds the growth to the
current top in 64 bits, and the region ends exactly 128 GiB below the end of the
address space. A request of almost the largest size, made when the top has come
within a page of the ceiling, therefore wraps the sum to a small address and
passes the test.

Runs whose requests do not wrap the sum keep the heap well formed and are served.
The last theorem follows a run of two calls that does wrap. Physical pages and
page tables are behind `supplied`, which tells whether the pages of a growth could
be mapped; the counters kept for debug output are left out.
-/

namespace Balrog.VirtualHeap

open ByteMemory BlockInfo BlockTiling HeapAlloc HeapFree HeapOwners GrowingHeap Runs Option

/-- Where the kernel's arena begins. -/
def kernelVirtualStart : Nat := 0xffffffc000000000

/-- Where the kernel's arena ends. -/
def kernelVirtualTop : Nat := 0xffffffe000000000

/-- The size of the whole arena. -/
def vmheapMaxBlockSize : Nat := kernelVirtualTop - kernelVirtualStart

/-- The region of `vmalloc`. A growth is refused when the new top, as a 64-bit
address, is above `KERNEL_VIRTUAL_TOP`. -/
def vmArena : Arena where
  start := kernelVirtualStart
  ceiling := kernelVirtualTop
  refuses _ top pages := decide (kernelVirtualTop < raise top pages)
  positive := by decide
  ordered := by decide
  small := by decide
  addressable := by decide
  exact top pages _ _ unwrapped := by
    rw [raise, Nat.mod_eq_of_lt unwrapped]
    exact decide_eq_true_iff

/-- The static variables of `vmheap.c` the allocator reads. -/
structure VmHeap where
  state : State
  vmheapSize : Nat

/-- `init_vmheap` over whatever bytes the region held, its pages being available.
The header is copied from a local variable whose `_full` is never assigned. -/
def initVmheap (memory : Bytes) (full : Bool) : VmHeap :=
  let vmheapSize := 256 * 0x1000
  let memory := mapPages memory kernelVirtualStart 256
  let memory := setPreviousChunk memory kernelVirtualStart 0
  let memory := setIsMmapped memory kernelVirtualStart false
  let memory := setNonArena memory kernelVirtualStart false
  let memory := setPresent memory kernelVirtualStart false
  let memory := setFull memory kernelVirtualStart full
  let memory := setSize memory kernelVirtualStart (vmheapSize - headerSize)
  let memory := setNextFree memory kernelVirtualStart (kernelVirtualStart + vmheapSize)
  { state :=
      { heap := { memory := memory, firstFree := kernelVirtualStart }
        top := kernelVirtualStart + vmheapSize }
    vmheapSize := vmheapSize }

/-- `vmalloc`, with the number of growths. `vmheap_size` is advanced by the same
amount as the top at every growth. -/
def vmalloc (supplied : Nat → Bool) (vm : VmHeap) (size : Nat) : Option (Nat × VmHeap × Nat) :=
  if vmheapMaxBlockSize - headerSize * 3 < size then some (0, vm, 0)
  else do
    let (pointer, state, growths) ← request vmArena supplied vm.state size
    some (pointer,
      { state := state
        vmheapSize := (vm.vmheapSize + (state.top + 2 ^ 64 - vm.state.top)) % 2 ^ 64 }, growths)

/-- `vmfree`. A block that is not in use is reported and left alone. -/
def vmfree (vm : VmHeap) (pointer : Nat) : Option VmHeap :=
  if (header vm.state.heap.memory (pointer - headerSize)).isMmapped = true then do
    let maxBlock :=
      if vm.vmheapSize < vmheapMaxBlockSize then vm.vmheapSize else vmheapMaxBlockSize
    let state ← release vmArena vm.state pointer maxBlock
    some { vm with state := state }
  else some vm

/-- The virtual heap together with the pointers handed out and not yet freed. -/
structure System where
  vm : VmHeap
  live : List Nat

/-- One call, with every page mapping succeeding. -/
def step (system : System) : Call → Option System
  | .malloc size => do
      let (pointer, vm, _) ← vmalloc (fun _ => true) system.vm size
      some { vm := vm, live := handOut system.live pointer }
  | .free pointer => do
      let vm ← vmfree system.vm pointer
      some { vm := vm, live := system.live.erase pointer }
  | .write address value =>
      some { system with
        vm := { system.vm with
          state := { system.vm.state with
            heap := { system.vm.state.heap with
              memory := put system.vm.state.heap.memory address value } } } }

/-- The virtual heap as a machine, started by `init_vmheap` over any memory. Only
live pointers are freed and only payload is written; requests meet `condition`. -/
def machine (condition : State → Nat → Prop) : Machine System Call where
  initial system := ∃ memory full, system = { vm := initVmheap memory full, live := [] }
  allowed system
    | .malloc size => condition system.vm.state size
    | .free pointer => pointer ∈ system.live
    | .write address _ => InPayload system.vm.state.heap.memory system.live address
  step := step

/-- What holds between calls: the generic invariant, and `vmheap_size` is the size
of the region so far. -/
def Holds (system : System) : Prop :=
  (∃ blocks, Invariant vmArena system.vm.state system.live blocks) ∧
    system.vm.vmheapSize = system.vm.state.top - kernelVirtualStart

/-- `init_vmheap` leaves one free block over the first megabyte. -/
theorem init_invariant (memory : Bytes) (full : Bool) :
    Invariant vmArena (initVmheap memory full).state []
      [{ size := 256 * 0x1000 - headerSize, free := true }] := by
  have first : header (initVmheap memory full).state.heap.memory kernelVirtualStart =
      { previousChunk := 0
        size := 256 * 0x1000 - headerSize
        nonArena := false
        isMmapped := false
        present := false
        full := full
        nextFree := kernelVirtualStart + 256 * 0x1000 } := by
    simp only [initVmheap, header_set_non_arena, header_set_present, header_set_is_mmapped,
      header_set_previous_chunk, header_set_next_free, header_set_size, header_set_full]
    rfl
  have region : kernelVirtualStart + 256 * 0x1000 < 256 ^ 8 ∧
      kernelVirtualStart + 256 * 0x1000 ≤ kernelVirtualTop := by decide
  refine ⟨⟨⟨⟨?_, trivial⟩, rfl, rfl, region.1⟩, List.Perm.nil⟩, region.2⟩
  simp only [tag, vmArena, first]
  simp [firstFree, initVmheap]

/-- Every call with an unwrapped sum keeps the invariant, and none is stuck. -/
theorem machine_invariant : Inductive (machine Unwrapped) Holds where
  starts := by
    rintro system ⟨memory, full, rfl⟩
    exact ⟨⟨_, init_invariant memory full⟩, (Nat.add_sub_cancel_left _ _).symm⟩
  preserved := by
    rintro system call ⟨⟨blocks, invariant⟩, sized⟩ permitted
    have bounded := invariant.bounded
    have ends := invariant.owned.tiled.ends
    have addressable : kernelVirtualTop < 2 ^ 64 := by decide
    simp only [vmArena] at bounded ends
    cases call with
    | malloc size =>
      by_cases large : vmheapMaxBlockSize - headerSize * 3 < size
      · refine ⟨system, ?_, ⟨blocks, invariant⟩, sized⟩
        simp [machine, step, vmalloc, large, handOut]
      · obtain ⟨pointer, after, growths, result, kept, afterInvariant⟩ := served_invariant
          (request_served (fun _ => true) invariant size permitted) invariant
        refine ⟨⟨⟨after, after.top - kernelVirtualStart⟩, handOut system.live pointer⟩, ?_,
          ⟨kept, afterInvariant⟩, rfl⟩
        have inside := afterInvariant.bounded
        have above := afterInvariant.owned.tiled.ends
        simp only [vmArena] at inside above
        have counted : (system.vm.vmheapSize + (after.top + 2 ^ 64 - system.vm.state.top)) %
            2 ^ 64 = after.top - kernelVirtualStart := by
          omega
        simp only [machine, step, vmalloc, large, if_false, result, counted, bind_eq_bind,
          bind_some]
    | free pointer =>
      have size : vmheapMaxBlockSize = kernelVirtualTop - kernelVirtualStart := rfl
      obtain ⟨mapped, after, result, sameTop, kept⟩ := release_invariant invariant permitted
        (if system.vm.vmheapSize < vmheapMaxBlockSize then system.vm.vmheapSize
          else vmheapMaxBlockSize)
        (by
          simp only [vmArena]
          split <;> omega)
      refine ⟨⟨⟨after, system.vm.vmheapSize⟩, system.live.erase pointer⟩, ?_, kept,
        by rw [sameTop]; exact sized⟩
      simp only [machine, step, vmfree, mapped, if_true, result, bind_eq_bind,
        bind_some]
    | write address value =>
      obtain ⟨pointer, member, lower, upper⟩ := permitted
      exact ⟨_, rfl, ⟨blocks, write_invariant invariant member address value lower upper⟩, sized⟩

/-- What a call of `vmalloc` has to bring about, with every page mapping
succeeding. -/
def Serves (system : System) (size : Nat) : Prop :=
  Served vmArena (fun _ => true) system.vm.state system.live size
    ((vmalloc (fun _ => true) system.vm size).map
      (fun result => (result.1, result.2.1.state, result.2.2)))

/-- Past the entry check, `vmalloc` is the request. -/
theorem vmalloc_request (supplied : Nat → Bool) (vm : VmHeap) (size : Nat)
    (passes : size ≤ maxRequest vmArena) :
    (vmalloc supplied vm size).map (fun result => (result.1, result.2.1.state, result.2.2)) =
      request vmArena supplied vm.state size := by
  have small : ¬ vmheapMaxBlockSize - headerSize * 3 < size := Nat.not_lt.mpr passes
  rw [vmalloc, if_neg small]
  cases request vmArena supplied vm.state size <;> rfl

/-- The blocks of the heap once the top has reached the ceiling: a free block of
less than a page, and one block in use up to the top. -/
def fullBlocks : List Block :=
  [{ size := 4048, free := true }, { size := 137438949376, free := false }]

/-- One request takes the freshly initialised heap to its ceiling: the first block
is extended to the whole region and split. -/
theorem first_request_fills (memory : Bytes) (full : Bool) (fuel : Nat) :
    ∃ pointer heap,
      search vmArena (fun _ => true) (fuel + 3) (initVmheap memory full).state 137438949376
        kernelVirtualStart kernelVirtualStart true 0 =
        some (pointer, { heap := heap, top := kernelVirtualTop }, 1) ∧
      pointer ≠ 0 ∧ Tiled heap kernelVirtualStart kernelVirtualTop fullBlocks := by
  have tiled := (init_invariant memory full).owned.tiled
  have topIs : (initVmheap memory full).state.top = 18446743798832693248 := rfl
  generalize (initVmheap memory full).state = state at *
  have size : (header state.heap.memory kernelVirtualStart).size = 1048552 := tiled.tagged.1.1
  have next : (header state.heap.memory kernelVirtualStart).nextFree = state.top :=
    (tiled.tagged.1.2.2.2.2 rfl).2
  have inside : kernelVirtualStart < state.top ∧ vmArena.start ≤ kernelVirtualStart := by
    rw [topIs]
    decide
  have firstRound : search vmArena (fun _ => true) (fuel + 3) state 137438949376
      kernelVirtualStart kernelVirtualStart true 0 =
      search vmArena (fun _ => true) (fuel + 2) state 137438949376 state.top kernelVirtualStart
        false 0 := by
    rw [search_skips vmArena (fun _ => true) (fuel + 2) state _ _ _ 0 true inside
      (by rw [size]; decide), next]
  have secondRound := search_outside vmArena (fun _ => true) (fuel + 1) state 137438949376
    state.top kernelVirtualStart 0 false false true (fun both => Nat.lt_irrefl _ both.1)
    (by rw [topIs]; decide) (by rw [size, topIs]; decide) 33554176 (by rw [size]; decide)
  have accepted : ¬ (vmArena.refuses state.top state.top 33554176 = true ∨ true = false) := by
    rw [topIs]
    decide
  have raised : raise state.top 33554176 = state.top + 33554176 * 0x1000 := by
    rw [topIs]
    decide
  have regrouped : Tiled state.heap vmArena.start state.top
      ([] ++ [{ size := 256 * 0x1000 - headerSize, free := true }]) := tiled
  have room : state.top + 33554176 * 0x1000 < 2 ^ 64 ∧
      state.top + 33554176 * 0x1000 - vmArena.start ≤ 2 ^ 60 := by
    rw [topIs]
    decide
  have grown := extend_tail_spec regrouped rfl room.1 room.2
  obtain ⟨carved, result, after⟩ := search_grown vmArena (fun _ => true) grown rfl fuel
    137438949376 kernelVirtualStart 1 false (by decide)
  have ceilingIs : state.top + 33554176 * 0x1000 = kernelVirtualTop := by
    rw [topIs]
    decide
  rw [ceilingIs] at result after raised
  rw [firstRound, secondRound, if_neg accepted, if_pos rfl, raised]
  exact ⟨_, carved, result, by decide, after⟩

/-- At the ceiling the largest request wraps the sum. The test passes, the top
moves to the bottom of the address space, and the search grows the heap again. -/
theorem last_request_regrows {heap : Heap}
    (tiled : Tiled heap kernelVirtualStart kernelVirtualTop fullBlocks) {fuel pointer count : Nat}
    {after : State}
    (found : search vmArena (fun _ => true) (fuel + 3) { heap := heap, top := kernelVirtualTop }
      vmheapMaxBlockSize kernelVirtualStart kernelVirtualStart true 0 =
        some (pointer, after, count)) : 2 ≤ count := by
  have size : (header heap.memory kernelVirtualStart).size = 4048 := tiled.tagged.1.1
  have next : (header heap.memory kernelVirtualStart).nextFree = kernelVirtualTop :=
    (tiled.tagged.1.2.2.2.2 rfl).2
  have inside : kernelVirtualStart < kernelVirtualTop ∧ vmArena.start ≤ kernelVirtualStart := by
    decide
  have firstRound : search vmArena (fun _ => true) (fuel + 3)
      { heap := heap, top := kernelVirtualTop } vmheapMaxBlockSize kernelVirtualStart
      kernelVirtualStart true 0 =
      search vmArena (fun _ => true) (fuel + 2) { heap := heap, top := kernelVirtualTop }
        vmheapMaxBlockSize kernelVirtualTop kernelVirtualStart false 0 := by
    rw [search_skips vmArena (fun _ => true) (fuel + 2) _ _ _ _ 0 true inside
      (by rw [size]; decide), next]
  have pages (tailSize : Nat) : growthPages false vmheapMaxBlockSize tailSize = 33554433 := by
    rw [growthPages, if_neg (by decide)]
    decide
  have secondRound := search_outside vmArena (fun _ => true) (fuel + 1)
    { heap := heap, top := kernelVirtualTop } vmheapMaxBlockSize kernelVirtualTop
    kernelVirtualStart 0 false false false (fun both => Nat.lt_irrefl _ both.1)
    (decide_eq_false (by dsimp only; decide))
    (decide_eq_false (by dsimp only; rw [size]; decide)) 33554433 (pages _)
  have wrapped : raise kernelVirtualTop 33554433 = 0x1000 := by decide
  rw [if_neg (by dsimp only; decide), if_neg (by decide), wrapped] at secondRound
  generalize appendBlock heap false kernelVirtualStart kernelVirtualTop 33554433 = corrupted
    at secondRound
  have thirdRound := search_outside vmArena (fun _ => true) fuel
    { heap := corrupted, top := 0x1000 } vmheapMaxBlockSize kernelVirtualTop
    kernelVirtualStart 1 false true false (by dsimp only; decide)
    (decide_eq_true (by dsimp only; decide)) (by simp) 33554433 (pages _)
  rw [if_neg (by dsimp only; decide), if_neg (by decide)] at thirdRound
  rw [firstRound, secondRound, thirdRound] at found
  exact search_counts _ _ _ _ _ _ _ _ _ _ _ _ found

/-- The largest request that passes the entry check is not served when the heap has
grown to its ceiling: it grows the heap past the end of the address space. -/
theorem vmalloc_wraps_ceiling :
    ∃ system, Reachable (machine (fun _ _ => True)) system ∧ ¬ Serves system (maxRequest vmArena) := by
  have fuelIs : searchFuel vmArena = 137438953472 + 3 := by decide
  obtain ⟨_, heap, result, _, tiled⟩ := first_request_fills (fun _ => 0) false 137438953472
  have served := vmalloc_request (fun _ => true) (initVmheap (fun _ => 0) false) 137438949304
    (by decide)
  rw [request, fuelIs] at served
  have filled := served.trans result
  obtain ⟨⟨pointer, vm, _⟩, returned, same⟩ := map_eq_some_iff.mp filled
  simp only [Prod.mk.injEq] at same
  obtain ⟨rfl, stateIs, rfl⟩ := same
  have stepped : step { vm := initVmheap (fun _ => 0) false, live := [] } (.malloc 137438949304) =
      some { vm := vm, live := handOut [] pointer } := by
    simp only [step, returned, bind_eq_bind, bind_some]
  have starts : Reachable (machine fun _ _ => True)
      { vm := initVmheap (fun _ => 0) false, live := [] } := .initial ⟨fun _ => 0, false, rfl⟩
  refine ⟨_, starts.call (.malloc 137438949304) trivial stepped, ?_⟩
  rintro ⟨_, after, count, again, few, _⟩
  rw [vmalloc_request _ _ _ (Nat.le_refl _), request, fuelIs, stateIs, tiled.linked] at again
  have many := last_request_regrows tiled again
  omega

end Balrog.VirtualHeap
