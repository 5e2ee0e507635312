import Balrog.AddressSpace
import Balrog.VirtualHeap

/-!
# The heap of a process

The libc `malloc` runs a growing heap between two fixed user addresses. The first
call of `malloc` lays out the page the kernel mapped at process creation; later
growth goes through `brk`, which the kernel refuses past the end of the region.
Here the ceiling is far below the end of the address space, so no sum wraps and
every request is served.

The last theorem states, for both growing heaps, what holds in every state of
every run.
-/

namespace Balrog.ProcessHeap

open ByteMemory BlockInfo BlockTiling HeapAlloc HeapFree HeapOwners GrowingHeap Runs Option AddressSpace

/-- `PROCESS_HEAP_START` -/
def processHeapStart : Nat := 0x000055c0603d3000

/-- The addresses `sys_brk` refuses before it maps anything. -/
def brkRefuses (address : Nat) : Bool :=
  !userPtrOk (pageAlignUp address) || decide (processHeapEnd < pageAlignUp address)

/-- Below the end of the address space `brk` refuses exactly the addresses past the
end of the region, which is page aligned. -/
theorem brk_refuses_iff (address : Nat) (positive : 0 < address) (fits : address < 2 ^ 64) :
    brkRefuses address = true ↔ processHeapEnd < address := by
  simp only [brkRefuses, userPtrOk, Bool.or_eq_true, Bool.not_eq_true', Bool.and_eq_false_iff,
    bne_eq_false_iff_eq, decide_eq_true_iff, decide_eq_false_iff_not]
  unfold pageAlignUp processHeapEnd kernelMapBase
  omega

/-- The region of `malloc`. A growth is refused when the walk has reached the end of
the region or `brk` refuses the new top. -/
def libcArena : Arena where
  start := processHeapStart
  ceiling := processHeapEnd
  refuses currentBlock top pages :=
    decide (processHeapEnd ≤ currentBlock) || brkRefuses (raise top pages)
  positive := by decide
  ordered := by decide
  small := by decide
  addressable := by decide
  exact top pages positive some unwrapped := by
    rw [raise, Nat.mod_eq_of_lt unwrapped, Bool.or_eq_true, decide_eq_true_iff,
      brk_refuses_iff _ (by omega) unwrapped]
    omega

/-- A process before its first `malloc`, over whatever its page holds. -/
def freshProcess (memory : Bytes) : State :=
  { heap := { memory := memory, firstFree := 0 }, top := processHeapStart + 0x1000 }

/-- The layout of the first page, made by the first `malloc`. -/
def ready (state : State) : State :=
  if state.heap.firstFree = 0 then
    let memory := setNextFree state.heap.memory processHeapStart state.top
    let memory := setPreviousChunk memory processHeapStart 0
    let memory := setIsMmapped memory processHeapStart false
    let memory := setPresent memory processHeapStart false
    let memory := setSize memory processHeapStart (0x1000 - headerSize)
    { state with heap := { memory := memory, firstFree := processHeapStart } }
  else state

/-- `malloc`, with the number of growths. -/
def malloc (supplied : Nat → Bool) (state : State) (size : Nat) : Option (Nat × State × Nat) :=
  if processHeapEnd - processHeapStart - headerSize * 3 < size then some (0, state, 0)
  else request libcArena supplied (ready state) size

/-- How a call of `free` ends. -/
inductive Freed where
  | exits
  | returns (state : State)

/-- `free`. A block that is not in use ends the process. -/
def free (state : State) (pointer : Nat) : Option Freed :=
  if (header state.heap.memory (pointer - headerSize)).isMmapped = true then
    (release libcArena state pointer (state.top - processHeapStart)).map .returns
  else some .exits

/-- The heap of a process together with the pointers it holds. -/
structure System where
  state : State
  live : List Nat

/-- One call, with every `brk` inside the region succeeding. A process that exited
takes no further step. -/
def step (system : System) : Call → Option System
  | .malloc size => do
      let (pointer, state, _) ← malloc (fun _ => true) system.state size
      some { state := state, live := handOut system.live pointer }
  | .free pointer => do
      match ← free system.state pointer with
      | .exits => none
      | .returns state => some { state := state, live := system.live.erase pointer }
  | .write address value =>
      some { system with
        state := { system.state with
          heap := { system.state.heap with
            memory := put system.state.heap.memory address value } } }

/-- The process heap as a machine. Only live pointers are freed and only payload is
written. -/
def machine : Machine System Call where
  initial system := ∃ memory, system = { state := freshProcess memory, live := [] }
  allowed system
    | .malloc _ => True
    | .free pointer => pointer ∈ system.live
    | .write address _ => InPayload system.state.heap.memory system.live address
  step := step

/-- Nothing is laid out yet, or the generic invariant holds. -/
def Holds (system : System) : Prop :=
  (system.state.heap.firstFree = 0 ∧ system.state.top = processHeapStart + 0x1000 ∧
    system.live = []) ∨
  ∃ blocks, Invariant libcArena system.state system.live blocks

variable {system : System} {state : State}

/-- Laying out the first page yields one free block and changes a heap that was laid
out before in nothing. -/
theorem ready_invariant (holds : Holds system) :
    ∃ blocks, Invariant libcArena (ready system.state) system.live blocks := by
  rcases holds with ⟨unset, topIs, none⟩ | ⟨blocks, invariant⟩
  · have first : header (ready system.state).heap.memory processHeapStart =
        { header system.state.heap.memory processHeapStart with
          previousChunk := 0, size := 0x1000 - headerSize, isMmapped := false, present := false,
          nextFree := processHeapStart + 0x1000 } := by
      simp only [ready, unset, if_true, header_set_present, header_set_is_mmapped,
        header_set_previous_chunk, header_set_next_free, header_set_size, topIs]
      rfl
    have region : processHeapStart + 0x1000 < 256 ^ 8 ∧
        processHeapStart + 0x1000 ≤ processHeapEnd := by decide
    have sameTop : (ready system.state).top = processHeapStart + 0x1000 := by
      simp only [ready, unset, if_true, topIs]
    have head : (ready system.state).heap.firstFree = processHeapStart := by
      simp only [ready, unset, if_true]
    refine ⟨[{ size := 0x1000 - headerSize, free := true }],
      ⟨⟨⟨?_, trivial⟩, ?_, head, by rw [sameTop]; exact region.1⟩, by rw [none]; exact .nil⟩,
      by rw [sameTop]; exact region.2⟩
    · simp only [tag, libcArena, first]
      simp [firstFree, sameTop]
    · rw [sameTop]
      rfl
  · have laidOut : system.state.heap.firstFree ≠ 0 := by
      have start := libcArena.positive
      have bounds := first_free_bounds headerSize libcArena.start blocks
      rw [invariant.owned.tiled.ends, ← invariant.owned.tiled.linked] at bounds
      omega
    rw [ready, if_neg laidOut]
    exact ⟨blocks, invariant⟩

/-- Inside the region no request wraps the address computation. -/
theorem libc_unwrapped (bounded : state.top ≤ processHeapEnd) (size : Nat)
    (passes : size ≤ maxRequest libcArena) : Unwrapped state size := by
  have largest : maxRequest libcArena = 46440093315000 := by decide
  have ceiling : processHeapEnd = 140724830019584 := by decide
  have width := header_size_eq
  unfold Unwrapped
  omega

/-- What a call of `malloc` has to bring about. The heap is compared with the one
the first call lays out. -/
def Serves (system : System) (size : Nat) : Prop :=
  Served libcArena (fun _ => true) (ready system.state) system.live size
    (malloc (fun _ => true) system.state size)

theorem malloc_serves (holds : Holds system) (size : Nat) (passes : size ≤ maxRequest libcArena) :
    Serves system size := by
  obtain ⟨blocks, invariant⟩ := ready_invariant holds
  have small : ¬ processHeapEnd - processHeapStart - headerSize * 3 < size :=
    Nat.not_lt.mpr passes
  rw [Serves, malloc, if_neg small]
  exact request_served (fun _ => true) invariant size
    (libc_unwrapped invariant.bounded size passes)

/-- Only a heap that is laid out has live pointers. -/
theorem holds_live (holds : Holds system) {pointer : Nat} (member : pointer ∈ system.live) :
    ∃ blocks, Invariant libcArena system.state system.live blocks := by
  rcases holds with ⟨_, _, none⟩ | invariant
  · rw [none] at member
    cases member
  · exact invariant

/-- Every call keeps the invariant, and none is stuck or ends the process. -/
theorem machine_invariant : Inductive machine Holds where
  starts := by
    rintro system ⟨memory, rfl⟩
    exact .inl ⟨rfl, rfl, rfl⟩
  preserved := by
    intro system call holds permitted
    cases call with
    | malloc size =>
      by_cases passes : size ≤ maxRequest libcArena
      · obtain ⟨blocks, invariant⟩ := ready_invariant holds
        obtain ⟨pointer, after, growths, result, kept⟩ := served_invariant
          (malloc_serves holds size passes) invariant
        refine ⟨{ state := after, live := handOut system.live pointer }, ?_, .inr kept⟩
        simp only [machine, step, result, bind_eq_bind, bind_some]
      · have large : processHeapEnd - processHeapStart - headerSize * 3 < size :=
          Nat.not_le.mp passes
        refine ⟨system, ?_, holds⟩
        simp [machine, step, malloc, large, handOut]
    | free pointer =>
      obtain ⟨blocks, invariant⟩ := holds_live holds permitted
      obtain ⟨mapped, after, result, _, kept⟩ := release_invariant invariant permitted
        (system.state.top - processHeapStart) (Nat.le_refl _)
      refine ⟨{ state := after, live := system.live.erase pointer }, ?_, .inr kept⟩
      simp only [machine, step, free, mapped, if_true, result, map_some,
        bind_eq_bind, bind_some]
    | write address value =>
      obtain ⟨pointer, member, lower, upper⟩ := permitted
      obtain ⟨blocks, invariant⟩ := holds_live holds member
      exact ⟨_, rfl, .inr ⟨blocks, write_invariant invariant member address value lower upper⟩⟩

/-- The boundary-tag invariant of a growing heap and its owners: the blocks tile the
region up to the current top, the live pointers are exactly the blocks in use, and
their blocks do not overlap. -/
def Sound (arena : Arena) (state : State) (live : List Nat) : Prop :=
  (∃ blocks, WellFormed state.heap arena.start state.top blocks ∧
    live.Perm ((usedPlaces headerSize arena.start blocks).map (fun entry => entry.1 + headerSize))) ∧
  live.Pairwise (BlocksApart state.heap.memory)

theorem invariant_sound {arena : Arena} {live : List Nat} {blocks : List Block}
    (invariant : Invariant arena state live blocks) : Sound arena state live :=
  ⟨⟨blocks, tiled_well_formed invariant.owned.tiled, invariant.owned.owners⟩,
    owned_apart invariant.owned⟩

/-- Both growing heaps, in every state of every run. The virtual heap is sound and
serves every request that passes the entry check, in runs whose requests do not
wrap the ceiling computation; the process heap is sound from its first `malloc` on
and serves every request that passes the entry check. In both, every admitted call
returns. -/
theorem growing_heaps_sound (system : VirtualHeap.System) (process : System) :
    (Reachable (VirtualHeap.machine Unwrapped) system →
      Sound VirtualHeap.vmArena system.vm.state system.live ∧
      (∀ size ≤ maxRequest VirtualHeap.vmArena, Unwrapped system.vm.state size →
        VirtualHeap.Serves system size) ∧
      ∀ call, (VirtualHeap.machine Unwrapped).allowed system call →
        ∃ after, VirtualHeap.step system call = some after) ∧
    (Reachable machine process →
      Sound libcArena (ready process.state) process.live ∧
      (∀ size ≤ maxRequest libcArena, Serves process size) ∧
      ∀ call, machine.allowed process call → ∃ after, step process call = some after) := by
  constructor
  · intro reached
    obtain ⟨⟨blocks, invariant⟩, _⟩ := VirtualHeap.machine_invariant.holds reached
    refine ⟨invariant_sound invariant, ?_, fun call permitted =>
      VirtualHeap.machine_invariant.returns reached permitted⟩
    intro size passes unwrapped
    rw [VirtualHeap.Serves, VirtualHeap.vmalloc_request _ _ _ passes]
    exact request_served (fun _ => true) invariant size unwrapped
  · intro reached
    have holds := machine_invariant.holds reached
    obtain ⟨blocks, invariant⟩ := ready_invariant holds
    exact ⟨invariant_sound invariant, fun size passes => malloc_serves holds size passes,
      fun call permitted => machine_invariant.returns reached permitted⟩

/-- The virtual heap after a request of 100 bytes, and after these are given back. -/
def kernelTaken : VirtualHeap.System :=
  (VirtualHeap.step { vm := VirtualHeap.initVmheap (fun _ => 0) false, live := [] }
    (.malloc 100)).get (by decide +kernel)

/-- The kernel's arena after its allocation has been freed. -/
def kernelReturned : VirtualHeap.System :=
  (VirtualHeap.step kernelTaken (.free (kernelTaken.live.headD 0))).get (by decide +kernel)

/-- A process that has allocated 100 bytes, and that has freed them. -/
def processTaken : System :=
  (step { state := freshProcess (fun _ => 0), live := [] } (.malloc 100)).get (by decide +kernel)

/-- The process's arena after its allocation has been freed. -/
def processReturned : System :=
  (step processTaken (.free (processTaken.live.headD 0))).get (by decide +kernel)

/-- The two heaps serve a request after a first one has been given back. -/
theorem growing_heaps_sound_after_free :
    VirtualHeap.Serves kernelReturned 200 ∧ Serves processReturned 200 := by
  have kernelStart : Reachable (VirtualHeap.machine Unwrapped)
      { vm := VirtualHeap.initVmheap (fun _ => 0) false, live := [] } := .initial ⟨_, _, rfl⟩
  have kernelFirst : Reachable (VirtualHeap.machine Unwrapped) kernelTaken :=
    kernelStart.call (.malloc 100)
      (show Unwrapped _ 100 by rw [Unwrapped]; decide) (Option.some_get _).symm
  have kernelSecond : Reachable (VirtualHeap.machine Unwrapped) kernelReturned :=
    kernelFirst.call (.free (kernelTaken.live.headD 0))
      (show kernelTaken.live.headD 0 ∈ kernelTaken.live by decide +kernel) (Option.some_get _).symm
  have start : Reachable machine { state := freshProcess (fun _ => 0), live := [] } :=
    .initial ⟨_, rfl⟩
  have first : Reachable machine processTaken :=
    start.call (.malloc 100) trivial (Option.some_get _).symm
  have second : Reachable machine processReturned :=
    first.call (.free (processTaken.live.headD 0))
      (show processTaken.live.headD 0 ∈ processTaken.live by decide +kernel) (Option.some_get _).symm
  have sound := growing_heaps_sound kernelReturned processReturned
  exact ⟨(sound.1 kernelSecond).2.1 200 (by decide) (by rw [Unwrapped]; decide +kernel),
    (sound.2 second).2.1 200 (by decide)⟩

end Balrog.ProcessHeap
