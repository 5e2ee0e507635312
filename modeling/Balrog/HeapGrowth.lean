import Balrog.PageTables
import Balrog.VirtualHeap

/-!
# The pages of a growing heap

`vmalloc` grows its heap by mapping pages behind the current top. Here the pages are mapped one
after the other, with the page tables and the physical allocator of the kernel: `pmm_calloc` takes
the first page of a queue, and `pmm_free` puts a page at its end. When there is no page left, the
pages mapped so far are taken back: for each of them `vmm_free_page` removes the mapping and gives
the page back, and then `pmm_free` gives the same page back once more. The tables that were
created stay, and a page for which there was no table is lost.

So a growth that fails at its first page changes nothing (`vmalloc_exhausted`), and one that fails
later leaves each page that it took twice in the queue (`growth_gives_back_twice`). The search is
that of `GrowingHeap`.
-/

namespace Balrog.HeapGrowth

open ByteMemory BlockInfo HeapAlloc GrowingHeap VirtualHeap PhysicalPages PageTables RadixTree List
open AddressSpace (kernelMapBase)

/-- `PAGE_PRESENT | PAGE_WRITE` -/
def heapPageFlags : Nat := 0x003

/-- `pmm_free`: the page is put at the end of the queue. -/
def pmmFree (vmm : Vmm) (page : Nat) : Vmm :=
  { vmm with supply := vmm.supply ++ [page], freed := page :: vmm.freed }

/-- `vmm_free_page`, with the page that it frees put at the end of the queue. -/
def freePage (vmm : Vmm) (virt : Nat) : Vmm :=
  let after := vmmFreePage vmm 0 virt
  { after with
    supply := after.supply ++ after.freed.take (after.freed.length - vmm.freed.length) }

/-- The address of a page behind the top of the heap. -/
def behind (top index : Nat) : Nat := top + index * 0x1000

/-- The loop that takes back the pages mapped so far. -/
def rollBack (top : Nat) : Nat → Nat → Vmm → Vmm
  | 0, _, vmm => vmm
  | remaining + 1, index, vmm =>
    let mapped := vmmGetPage vmm 0 (behind top index)
    let vmm := freePage vmm (behind top index)
    rollBack top remaining (index + 1) (pmmFree vmm mapped)

/-- The loop that maps the pages of a growth: whether all of them were mapped. -/
def mapGrowth (top : Nat) : Nat → Nat → Vmm → Bool × Vmm
  | 0, _, vmm => (true, vmm)
  | remaining + 1, index, vmm =>
    let (alloc, vmm) := pmmCalloc vmm
    if alloc = 0 then (false, rollBack top index 0 vmm)
    else
      mapGrowth top remaining (index + 1)
        (vmmSetPage vmm 0 (behind top index) alloc heapPageFlags).2

/-- What a call leaves, and whether it has run out of pages. -/
structure Answer where
  pointer : Nat
  state : State
  vmm : Vmm
  exhausted : Bool

/-- The `while` loop of `vmalloc`. -/
def pagedSearch : Nat → State → Vmm → Nat → Nat → Nat → Bool → Option Answer
  | 0, _, _, _, _, _, _ => none
  | fuel + 1, state, vmm, size, currentBlock, prevBlock, firstBlock =>
    if currentBlock < state.top ∧ kernelVirtualStart ≤ currentBlock then
      let result := heapAlloc state.heap size currentBlock prevBlock state.top firstBlock
      if result.1 ≠ 0 then some ⟨result.1, { state with heap := result.2 }, vmm, false⟩
      else
        pagedSearch fuel { state with heap := result.2 } vmm size
          (header result.2.memory currentBlock).nextFree currentBlock false
    else
      let emptyList : Bool := state.top ≤ prevBlock ∨ prevBlock < kernelVirtualStart
      let tailSize := (header state.heap.memory prevBlock).size
      let extend : Bool := emptyList = false ∧
        (prevBlock + headerSize + tailSize) % 2 ^ 64 = state.top
      let pages := growthPages extend size tailSize
      if kernelVirtualTop < raise state.top pages then some ⟨0, state, vmm, false⟩
      else
        match mapGrowth state.top pages 0 vmm with
        | (false, vmm) => some ⟨0, state, vmm, true⟩
        | (true, vmm) =>
          if extend then
            pagedSearch fuel
              { heap := extendTail state.heap prevBlock state.top pages
                top := raise state.top pages }
              vmm size prevBlock prevBlock false
          else
            pagedSearch fuel
              { heap := appendBlock state.heap emptyList prevBlock state.top pages
                top := raise state.top pages }
              vmm size state.top prevBlock false

/-- `vmalloc` -/
def vmallocPages (vm : State) (vmm : Vmm) (size : Nat) : Option Answer :=
  if vmheapMaxBlockSize - headerSize * 3 < size then some ⟨0, vm, vmm, false⟩
  else
    pagedSearch (searchFuel vmArena) vm vmm (size + headerSize * 3) vm.heap.firstFree
      vm.heap.firstFree true

variable {vmm : Vmm}

/-- A growth that gets no page at all changes nothing. -/
theorem mapGrowth_empty (empty : vmm.supply = []) (top : Nat) {pages : Nat}
    (positive : 0 < pages) : mapGrowth top pages 0 vmm = (false, vmm) := by
  obtain ⟨more, rfl⟩ : ∃ more, pages = more + 1 := Nat.exists_eq_succ_of_ne_zero (by omega)
  rw [mapGrowth, pmmCalloc, empty]
  rfl

/-- As long as the pages last, the search that maps them is the search of the growing heap: it
returns the same pointer and leaves the same heap. -/
theorem pagedSearch_search (fuel : Nat) (state : State) (vmm : Vmm)
    (size currentBlock prevBlock growths : Nat) (firstBlock : Bool) {answer : Answer}
    (result : pagedSearch fuel state vmm size currentBlock prevBlock firstBlock = some answer)
    (lasts : answer.exhausted = false) :
    ∃ count, search vmArena (fun _ => true) fuel state size currentBlock prevBlock firstBlock
      growths = some (answer.pointer, answer.state, count) := by
  induction fuel generalizing state vmm currentBlock prevBlock firstBlock growths with
  | zero => cases result
  | succ fuel ih =>
    rw [pagedSearch] at result
    rw [search]
    split at result
    · next inside =>
      rw [if_pos (show currentBlock < state.top ∧ vmArena.start ≤ currentBlock from inside)]
      by_cases found :
          (heapAlloc state.heap size currentBlock prevBlock state.top firstBlock).1 ≠ 0
      · simp only [if_pos found] at result ⊢
        obtain rfl := Option.some.inj result
        exact ⟨growths, rfl⟩
      · simp only [if_neg found] at result ⊢
        exact ih _ _ _ _ _ _ result
    · next outside =>
      rw [if_neg (show ¬ (currentBlock < state.top ∧ vmArena.start ≤ currentBlock) from outside)]
      have refuses (pages : Nat) : (vmArena.refuses currentBlock state.top pages = true ∨
          true = false) = (kernelVirtualTop < raise state.top pages) := by
        simp [vmArena]
      have start : vmArena.start = kernelVirtualStart := rfl
      simp only [refuses, start] at result ⊢
      split at result
      · next refused =>
        obtain rfl := Option.some.inj result
        exact ⟨growths, if_pos refused⟩
      · next raised =>
        rw [if_neg raised]
        split at result
        · obtain rfl := Option.some.inj result
          cases lasts
        · split at result
          · next extends' =>
            rw [if_pos extends']
            exact ih _ _ _ _ _ _ result
          · next appends =>
            rw [if_neg appends]
            exact ih _ _ _ _ _ _ result

/-- As long as the pages last, `vmalloc` is the `vmalloc` of the virtual heap. -/
theorem vmallocPages_request (vm : State) (vmm : Vmm) (size : Nat) {answer : Answer}
    (passes : size ≤ vmheapMaxBlockSize - headerSize * 3)
    (result : vmallocPages vm vmm size = some answer) (lasts : answer.exhausted = false) :
    ∃ count, request vmArena (fun _ => true) vm size =
      some (answer.pointer, answer.state, count) := by
  rw [vmallocPages, if_neg (Nat.not_lt.mpr passes)] at result
  exact pagedSearch_search _ _ _ _ _ _ 0 _ result lasts

variable {virt size currentBlock prevBlock top index other phys pages : Nat}

/-- A block that is too small is left as it is. -/
theorem heapAlloc_zero {heap : Heap} {firstBlock : Bool}
    (failed : (heapAlloc heap size currentBlock prevBlock top firstBlock).1 = 0) :
    (heapAlloc heap size currentBlock prevBlock top firstBlock).2 = heap := by
  have width := header_size_eq
  by_cases fits : size ≤ (header heap.memory currentBlock).size
  · simp only [heapAlloc, if_pos fits] at failed
    split at failed
    · simp only at failed
      omega
    · simp only at failed
      omega
  · rw [heap_alloc_too_large _ _ _ _ _ _ (by omega)]

/-- A search that runs out of pages returns 0. If this happens in the first growth, the heap is as
it was, and the pages are what that growth has left. -/
theorem pagedSearch_exhausted (fuel : Nat) (state : State) (vmm : Vmm)
    (size currentBlock prevBlock : Nat) (firstBlock : Bool) {answer : Answer}
    (result : pagedSearch fuel state vmm size currentBlock prevBlock firstBlock = some answer)
    (exhausted : answer.exhausted = true) :
    answer.pointer = 0 ∧
      (answer.state = state ∧
          (∃ pages, 0 < pages ∧ mapGrowth state.top pages 0 vmm = (false, answer.vmm)) ∨
        ∃ pages grown, 0 < pages ∧ mapGrowth state.top pages 0 vmm = (true, grown)) := by
  induction fuel generalizing state vmm currentBlock prevBlock firstBlock with
  | zero => cases result
  | succ fuel ih =>
    rw [pagedSearch] at result
    split at result
    · by_cases found :
          (heapAlloc state.heap size currentBlock prevBlock state.top firstBlock).1 ≠ 0
      · simp only [if_pos found] at result
        obtain rfl := Option.some.inj result
        cases exhausted
      · simp only [if_neg found, heapAlloc_zero (not_not.mp found)] at result
        exact ih _ _ _ _ _ result
    · simp only at result
      generalize isExtend : decide (decide (state.top ≤ prevBlock ∨
        prevBlock < kernelVirtualStart) = false ∧ (prevBlock + headerSize +
          (header state.heap.memory prevBlock).size) % 2 ^ 64 = state.top) = extend at result
      generalize isPages : growthPages extend size (header state.heap.memory prevBlock).size =
        pages at result
      have positive : 0 < pages := isPages ▸ Nat.succ_pos _
      split at result
      · obtain rfl := Option.some.inj result
        cases exhausted
      · split at result
        · next vmmAfter mapped =>
          obtain rfl := Option.some.inj result
          exact ⟨rfl, Or.inl ⟨rfl, pages, positive, mapped⟩⟩
        · next vmmAfter mapped =>
          refine ⟨?_, Or.inr ⟨pages, vmmAfter, positive, mapped⟩⟩
          split at result
          · exact (ih _ _ _ _ _ result).1
          · exact (ih _ _ _ _ _ result).1

/-- When no physical page is left, a `vmalloc` that has to grow returns 0 and changes neither the
heap nor a page table nor the queue of free pages. -/
theorem vmalloc_exhausted {vm : State} {vmm : Vmm} {size : Nat} {answer : Answer}
    (empty : vmm.supply = []) (result : vmallocPages vm vmm size = some answer)
    (exhausted : answer.exhausted = true) :
    answer.pointer = 0 ∧ answer.state = vm ∧ answer.vmm.supply = vmm.supply ∧
      answer.vmm.freed = vmm.freed ∧
      ∀ virt, vmmGetPage answer.vmm 0 virt = vmmGetPage vmm 0 virt := by
  unfold vmallocPages at result
  split at result
  · obtain rfl := Option.some.inj result
    cases exhausted
  · obtain ⟨failed, ⟨same, pages, positive, mapped⟩ | ⟨pages, grown, positive, mapped⟩⟩ :=
      pagedSearch_exhausted _ _ _ _ _ _ _ result exhausted
    · rw [mapGrowth_empty empty _ positive] at mapped
      obtain ⟨_, isSame⟩ := Prod.mk.inj mapped
      rw [← isSame]
      exact ⟨failed, same, rfl, rfl, fun _ => rfl⟩
    · rw [mapGrowth_empty empty _ positive] at mapped
      cases mapped

section GivenBackTwice

/-- The top table of the kernel, at its virtual address. -/
def kernelRoot : Nat := p2v (topTable 0)

/-- The tables down to the lowest level exist for an address. -/
def HasTable (vmm : Vmm) (virt : Nat) : Prop :=
  ∃ table, reach child vmm.memory kernelRoot (path virt) = some table

/-- Pages behind the top that are apart by less than the address space have different numbers. -/
theorem behind_ne (ne : index ≠ other) (indexSmall : index < 2 ^ 36) (otherSmall : other < 2 ^ 36) :
    pageNumber (behind top index) ≠ pageNumber (behind top other) := by
  unfold pageNumber behind
  omega

theorem hasTable_of_get (mapped : vmmGetPage vmm 0 virt ≠ 0) :
    ∃ table, reach child vmm.memory kernelRoot (path virt) = some table ∧
      vmmGetPage vmm 0 virt = stripFlags (vmm.memory table (ptOffset virt)) := by
  rw [get_eq] at mapped
  unfold leaf at mapped
  cases found : reach child vmm.memory (p2v (topTable 0)) (path virt) with
  | none =>
    rw [found] at mapped
    exact absurd (by simp [stripFlags]) mapped
  | some table =>
    refine ⟨table, found, ?_⟩
    rw [get_eq, leaf, found]

/-- Taking back a page that is mapped: it is not mapped any more, and it is in the queue twice. -/
theorem takeBack_spec (tree : Tree child vmm.memory kernelRoot 3)
    (mapped : vmmGetPage vmm 0 virt ≠ 0) :
    let after := pmmFree (freePage vmm virt) (vmmGetPage vmm 0 virt)
    after.supply = vmm.supply ++ [vmmGetPage vmm 0 virt, vmmGetPage vmm 0 virt] ∧
      Tree child after.memory kernelRoot 3 ∧
      ∀ other, vmmGetPage after 0 other =
        if pageNumber other = pageNumber virt then 0 else vmmGetPage vmm 0 other := by
  obtain ⟨table, found, isPage⟩ := hasTable_of_get mapped
  have set : vmm.memory table (ptOffset virt) ≠ 0 := by
    intro isZero
    rw [isPage, isZero] at mapped
    exact mapped rfl
  have freed : vmmFreePage vmm 0 virt = { vmm with
      freed := vmmGetPage vmm 0 virt :: vmm.freed
      memory := write vmm.memory table (ptOffset virt) 0 } := by
    rw [vmmFreePage, find_present true found, isPage]
    simp only [if_pos set]
  have one : (vmmGetPage vmm 0 virt :: vmm.freed).take
      ((vmmGetPage vmm 0 virt :: vmm.freed).length - vmm.freed.length) =
        [vmmGetPage vmm 0 virt] := by
    rw [length_cons, Nat.add_sub_cancel_left]
    rfl
  -- the walk takes no page, so the queue does not matter
  have ok : Ok { vmm with supply := [] } kernelRoot :=
    ⟨tree, fun page none => absurd none (by simp), nodup_nil⟩
  obtain ⟨okAfter, entries⟩ := store_spec ok found 0 []
  intro after
  have isMemory : after.memory = write vmm.memory table (ptOffset virt) 0 := by
    simp only [after, pmmFree, freePage, freed]
  refine ⟨?_, isMemory ▸ okAfter.tree, fun other => ?_⟩
  · simp only [after, pmmFree, freePage, freed, one, append_assoc]
    rfl
  · have atOther := entries other
    rw [get_eq, get_eq]
    unfold leaf at atOther ⊢
    rw [isMemory]
    simp only [kernelRoot] at atOther
    rw [atOther]
    split
    · rfl
    · rfl

/-- The pages behind the top are mapped to the pages that were taken, one by one. -/
def Backed (vmm : Vmm) (top index : Nat) (taken : List Nat) : Prop :=
  ∀ offset (inside : offset < taken.length),
    vmmGetPage vmm 0 (behind top (index + offset)) = taken.get ⟨offset, inside⟩ ∧
      taken.get ⟨offset, inside⟩ ≠ 0

/-- Taking back pages that are mapped puts each of them into the queue twice. -/
theorem rollBack_twice (taken : List Nat) (index : Nat) (vmm : Vmm)
    (tree : Tree child vmm.memory kernelRoot 3) (backed : Backed vmm top index taken)
    (small : index + taken.length ≤ 2 ^ 36) :
    (rollBack top taken.length index vmm).supply =
        vmm.supply ++ taken.flatMap (fun page => [page, page]) ∧
      ∀ other, vmmGetPage (rollBack top taken.length index vmm) 0 other =
        if ∃ offset < taken.length, pageNumber other = pageNumber (behind top (index + offset))
        then 0 else vmmGetPage vmm 0 other := by
  induction taken generalizing index vmm with
  | nil =>
    refine ⟨(append_nil _).symm, fun other => ?_⟩
    rw [if_neg (by simp)]
    rfl
  | cons page taken ih =>
    have first : vmmGetPage vmm 0 (behind top index) = page := (backed 0 (Nat.succ_pos _)).1
    have nonzero : page ≠ 0 := (backed 0 (Nat.succ_pos _)).2
    rw [length_cons] at small
    obtain ⟨supply, treeAfter, gets⟩ := takeBack_spec tree (first ▸ nonzero)
    rw [first] at supply treeAfter gets
    have backedAfter : Backed (pmmFree (freePage vmm (behind top index)) page) top (index + 1)
        taken := by
      intro offset inside
      have old := backed (offset + 1) (by simpa using inside)
      have ne : index + (offset + 1) ≠ index := by omega
      rw [Nat.add_assoc, Nat.add_comm 1 offset, gets,
        if_neg (behind_ne ne (by omega) (by omega))]
      exact old
    obtain ⟨supplyAfter, getsAfter⟩ :=
      ih (index + 1) _ treeAfter backedAfter (by omega)
    rw [length_cons, rollBack]
    simp only [first]
    refine ⟨?_, fun other => ?_⟩
    · rw [supplyAfter, supply, append_assoc, flatMap_cons]
    · rw [getsAfter, gets]
      by_cases later : ∃ offset < taken.length,
          pageNumber other = pageNumber (behind top (index + 1 + offset))
      · obtain ⟨offset, inside, same⟩ := later
        have sameFromHere : pageNumber other = pageNumber (behind top (index + (offset + 1))) := by
          rw [same, Nat.add_assoc, Nat.add_comm 1 offset]
        rw [if_pos ⟨offset, inside, same⟩, if_pos ⟨offset + 1, by omega, sameFromHere⟩]
      · rw [if_neg later]
        by_cases here : pageNumber other = pageNumber (behind top index)
        · rw [if_pos here, if_pos ⟨0, by omega, here⟩]
        · rw [if_neg here, if_neg]
          rintro ⟨offset, inside, same⟩
          cases offset with
          | zero => exact here same
          | succ offset =>
            refine later ⟨offset, by omega, ?_⟩
            rw [same, Nat.add_assoc, Nat.add_comm 1 offset]

/-- Setting a page whose table exists takes no page, and keeps every table. -/
theorem set_hasTable (ok : Ok vmm kernelRoot) (phys flags : Nat) (present : HasTable vmm virt) :
    (vmmSetPage vmm 0 virt phys flags).2.supply = vmm.supply ∧
      (∀ other, HasTable vmm other → HasTable (vmmSetPage vmm 0 virt phys flags).2 other) := by
  obtain ⟨table, found⟩ := present
  rw [vmmSetPage, find_present true found]
  refine ⟨rfl, fun other ⟨place, isPlace⟩ => ⟨place, ?_⟩⟩
  rw [← isPlace]
  exact reach_leaf ok.tree found rfl (Nat.le_refl 3)

theorem set_get (ok : Ok vmm kernelRoot) (flags : Nat) (aligned : phys % 4096 = 0)
    (present : HasTable vmm virt) :
    vmmGetPage (vmmSetPage vmm 0 virt phys flags).2 0 virt = phys := by
  obtain ⟨table, found⟩ := present
  rw [vmmSetPage, find_present true found]
  simp only
  generalize (if kernelMapBase ≤ virt ∧ flags &&& pageUser = 0 then flags ||| pageGlobal
    else flags) = allFlags
  obtain ⟨_, entries⟩ := store_spec ok found (addFlags phys allFlags) vmm.freed
  rw [get_eq]
  exact (congrArg stripFlags ((entries virt).trans (if_pos rfl))).trans (strip_add aligned _)

/-- A growth for which there are too few pages, in a region whose tables exist: after `index` rounds
the pages `taken` are mapped, the others are still in the queue. All of them end up in the queue
twice, and none of them is mapped. -/
theorem mapGrowth_short (remaining index : Nat) (vmm : Vmm) (taken : List Nat)
    (ok : Ok vmm kernelRoot)
    (present : ∀ offset < index + remaining, HasTable vmm (behind top offset))
    (isTaken : taken.length = index) (backed : Backed vmm top 0 taken)
    (short : vmm.supply.length < remaining) (small : index + remaining ≤ 2 ^ 36) :
    ∃ after, mapGrowth top remaining index vmm = (false, after) ∧
      after.supply = (taken ++ vmm.supply).flatMap (fun page => [page, page]) ∧
      ∀ offset < index + vmm.supply.length, vmmGetPage after 0 (behind top offset) = 0 := by
  induction remaining generalizing index vmm taken with
  | zero => exact absurd short (Nat.not_lt_zero _)
  | succ remaining ih =>
    cases isSupply : vmm.supply with
    | nil =>
      obtain ⟨supply, gets⟩ := rollBack_twice taken 0 vmm ok.tree backed (by omega)
      refine ⟨rollBack top index 0 vmm, ?_, ?_, fun offset inside => ?_⟩
      · rw [mapGrowth, pmmCalloc, isSupply]
        rfl
      · rw [← isTaken, supply, isSupply, nil_append, append_nil]
      · rw [← isTaken, gets, if_pos ⟨offset, by simpa [isTaken] using inside, by
          rw [Nat.zero_add]⟩]
    | cons phys rest =>
      obtain ⟨isPage, nonzero, aligned, supply, _, okTaken, leaves⟩ := calloc_spec ok isSupply
      have gets := calloc_get ok isSupply
      have presentTaken : ∀ offset < index + (remaining + 1),
          HasTable (pmmCalloc vmm).2 (behind top offset) := by
        intro offset inside
        obtain ⟨table, found⟩ := present offset inside
        refine ⟨table, ?_⟩
        rw [pmmCalloc, isSupply]
        exact ((calloc_ok ok isSupply).2.1 (path (behind top offset)) (Nat.le_refl 3)).trans found
      have atIndex := presentTaken index (by omega)
      obtain ⟨okSet, _, kept⟩ := set_spec okTaken (behind top index) heapPageFlags aligned
      obtain ⟨supplySet, tables⟩ := set_hasTable okTaken phys heapPageFlags atIndex
      have isSet := set_get okTaken heapPageFlags aligned atIndex
      rw [isSupply, length_cons] at short
      obtain ⟨after, result, supplyAfter, unmapped⟩ := ih (index + 1)
        (vmmSetPage (pmmCalloc vmm).2 0 (behind top index) phys heapPageFlags).2 (taken ++ [phys])
        okSet (fun offset inside => tables _ (presentTaken offset (by omega)))
        (by rw [length_append, isTaken]; rfl)
        (by
          intro offset inside
          rw [length_append, length_singleton, isTaken] at inside
          rw [Nat.zero_add]
          by_cases here : offset = index
          · subst here
            have isLast : (taken ++ [phys]).get ⟨offset, by simp [isTaken]⟩ = phys := by
              simp [isTaken]
            rw [isLast]
            exact ⟨isSet, nonzero⟩
          · have below : offset < taken.length := by omega
            have old := backed offset below
            rw [Nat.zero_add] at old
            rw [kept _ (behind_ne here (by omega) (by omega)), gets]
            simpa [getElem_append_left below] using old)
        (by rw [supplySet, supply]; omega) (by omega)
      refine ⟨after, ?_, ?_, fun offset inside => ?_⟩
      · rw [mapGrowth]
        simp only [isPage, if_neg nonzero, result]
      · rw [supplyAfter, supplySet, supply, append_assoc]
        rfl
      · refine unmapped offset ?_
        rw [supplySet, supply]
        rw [length_cons] at inside
        omega

/-- A growth for which there are too few pages, where the tables exist, takes all pages that are
left, and puts each of them into the queue twice. None of them is mapped. -/
theorem growth_gives_back_twice (ok : Ok vmm kernelRoot)
    (present : ∀ offset < pages, HasTable vmm (behind top offset))
    (short : vmm.supply.length < pages) (small : pages ≤ 2 ^ 36) :
    ∃ after, mapGrowth top pages 0 vmm = (false, after) ∧
      after.supply = vmm.supply.flatMap (fun page => [page, page]) ∧
      ∀ offset < vmm.supply.length, vmmGetPage after 0 (behind top offset) = 0 := by
  obtain ⟨after, result, supply, unmapped⟩ := mapGrowth_short pages 0 vmm [] ok
    (fun offset inside => present offset (by omega)) rfl
    (fun offset none => absurd none (Nat.not_lt_zero offset)) short (by omega)
  exact ⟨after, result, supply, fun offset inside => unmapped offset (by omega)⟩

end GivenBackTwice

/-- The page tables after the first page of the heap was mapped. -/
def firstPage (supply : List Nat) : Vmm :=
  (vmmSetPage ⟨fun _ _ => 0, 0x2000 :: 0x3000 :: 0x4000 :: supply, []⟩ 0 kernelVirtualStart 0x8000
    heapPageFlags).2

/-- Three pages were used for the tables. -/
theorem firstPage_spec : Ok (firstPage [0x9000]) kernelRoot ∧
    (firstPage [0x9000]).supply = [0x9000] ∧ HasTable (firstPage [0x9000]) kernelVirtualStart := by
  have start : Ok ⟨fun _ _ => 0, [0x2000, 0x3000, 0x4000, 0x9000], []⟩ kernelRoot :=
    empty_ok (by decide) (by decide)
  obtain ⟨ok, found, _⟩ := set_spec start kernelVirtualStart heapPageFlags
    (show 0x8000 % 4096 = 0 by decide)
  have mapped := found (by decide +kernel)
  obtain ⟨table, isTable, _⟩ := hasTable_of_get (show vmmGetPage (firstPage [0x9000]) 0
    kernelVirtualStart ≠ 0 by rw [firstPage, mapped]; decide)
  exact ⟨ok, by decide +kernel, table, isTable⟩

/-- A request that needs two more pages behind the first megabyte. -/
def largeRequest : Nat := 1052552

/-- On a heap that was just set up, the large request runs off the free list and maps two pages
behind the top. When this fails it returns 0. -/
theorem largeRequest_fails {vmm after : Vmm}
    (failed : mapGrowth (kernelVirtualStart + 256 * 0x1000) 2 0 vmm = (false, after)) :
    vmallocPages (initVmheap (fun _ => 0) false).state vmm largeRequest =
      some ⟨0, (initVmheap (fun _ => 0) false).state, after, true⟩ := by
  have tiled := (init_invariant (fun _ => 0) false).owned.tiled
  have topIs : (initVmheap (fun _ => 0) false).state.top = kernelVirtualStart + 256 * 0x1000 := rfl
  have firstIs : (initVmheap (fun _ => 0) false).state.heap.firstFree = kernelVirtualStart := rfl
  generalize (initVmheap (fun _ => 0) false).state = state at *
  have size : (header state.heap.memory kernelVirtualStart).size = 1048552 := tiled.tagged.1.1
  have next : (header state.heap.memory kernelVirtualStart).nextFree = state.top :=
    (tiled.tagged.1.2.2.2.2 rfl).2
  have inside : kernelVirtualStart < state.top ∧ kernelVirtualStart ≤ kernelVirtualStart := by
    rw [topIs]
    decide
  have outside : ¬ (state.top < state.top ∧ kernelVirtualStart ≤ state.top) :=
    fun both => Nat.lt_irrefl _ both.1
  have skipped := heap_alloc_too_large state.heap (largeRequest + headerSize * 3)
    kernelVirtualStart kernelVirtualStart state.top true (by rw [size]; decide)
  have nonempty : decide (state.top ≤ kernelVirtualStart ∨
      kernelVirtualStart < kernelVirtualStart) = false := by
    rw [topIs]
    decide
  have reaches : decide (True ∧
      (kernelVirtualStart + headerSize + 1048552) % 2 ^ 64 = state.top) = true := by
    rw [topIs]
    decide
  have pages : growthPages true (largeRequest + headerSize * 3) 1048552 = 2 := by decide
  have below : ¬ kernelVirtualTop < raise state.top 2 := by
    rw [topIs]
    decide
  obtain ⟨fuel, isFuel⟩ : ∃ fuel, searchFuel vmArena = fuel + 2 :=
    ⟨searchFuel vmArena - 2, by decide⟩
  rw [vmallocPages, if_neg (by decide), isFuel, firstIs, pagedSearch, if_pos inside]
  simp only [skipped, ne_eq, not_true_eq_false, if_false, next]
  rw [pagedSearch, if_neg outside]
  simp only [nonempty, size, reaches, pages, if_neg below]
  rw [← topIs] at failed
  rw [failed]

/-- Without a page the large request is refused and nothing changes. -/
theorem vmalloc_exhausted_at_once :
    ∃ answer, vmallocPages (initVmheap (fun _ => 0) false).state (firstPage []) largeRequest =
        some answer ∧ answer.exhausted = true ∧ answer.pointer = 0 ∧
      answer.state = (initVmheap (fun _ => 0) false).state ∧
      answer.vmm.freed = (firstPage []).freed := by
  have result := largeRequest_fails (@mapGrowth_empty (firstPage []) rfl
    (kernelVirtualStart + 256 * 0x1000) 2 (by decide))
  obtain ⟨pointer, state, _, freed, _⟩ := vmalloc_exhausted rfl result rfl
  exact ⟨_, result, rfl, pointer, state, freed⟩

/-- With one page of the two, the request is refused and the page is in the queue twice. -/
theorem vmalloc_gives_back_twice :
    ∃ answer, vmallocPages (initVmheap (fun _ => 0) false).state (firstPage [0x9000])
        largeRequest = some answer ∧ answer.exhausted = true ∧ answer.pointer = 0 ∧
      answer.vmm.supply = [0x9000, 0x9000] := by
  obtain ⟨ok, supply, table, found⟩ := firstPage_spec
  have samePath (offset : Nat) (inside : offset < 2) :
      path (behind (kernelVirtualStart + 256 * 0x1000) offset) = path kernelVirtualStart := by
    obtain rfl | rfl : offset = 0 ∨ offset = 1 := by omega
    · decide
    · decide
  obtain ⟨after, failed, twice, _⟩ := growth_gives_back_twice ok
    (fun offset inside => ⟨table, samePath offset inside ▸ found⟩) (by rw [supply]; decide)
    (by decide)
  rw [supply] at twice
  exact ⟨_, largeRequest_fails failed, rfl, rfl, twice⟩

end Balrog.HeapGrowth
