import Balrog.AddressSpace
import Balrog.Runs
import Mathlib.Algebra.Group.Nat.Defs
import Mathlib.Data.List.Basic

/-!
# The physical page allocator

`pmm.c`: pages come from a queue of freed pages or, when it is empty, from a pointer
that moves up through memory. The pointer jumps over the gap below 4 GiB, steps over
the reserved ranges and stops at the top of memory. `init_pmm` goes through the memory
map, maps every page, for which page tables may have to be allocated, and tries to free
the pages of usable memory.

`initCalls` lists what `init_pmm` does to the allocator in order. How many tables a
mapping needs depends on the page tables and is a parameter. `held` and `claimed` are
not read by any function: they record the pages that were handed out and not freed, and
the ranges that `pmm_reserve` was called with.

Left out: the counters of used memory, the debug output, and the contents of pages. The
nodes of the queue are allocated successfully.
-/

namespace Balrog.PhysicalPages

open Runs List
open AddressSpace (kernelMapBase)

/-- `PAGE_SIZE` -/
def pageSize : Nat := 4096

/-- `USABLE_MEMORY` -/
def usableMemory : Nat := 1

/-- Usable regions begin here or above. -/
def oneMiB : Nat := 0x100000

/-- Where the allocator goes on once the memory below it is used up. -/
def fourGiB : Nat := 0x100000000

/-- `PMM_MAX_RESERVED` -/
def maxReserved : Nat := 8

/-- `KERNEL_TEXT_BASE` -/
def kernelTextBase : Nat := 0xFFFFFFFF80000000

/-- `P2V` -/
def p2v (addr : Nat) : Nat := addr ||| kernelMapBase

/-- `V2P` -/
def v2p (addr : Nat) : Nat :=
  if kernelTextBase ≤ addr then addr - kernelTextBase else addr &&& (2 ^ 64 - 1 - kernelMapBase)

/-- `SMAP_entry` -/
structure Region where
  base : Nat
  length : Nat
  kind : Nat
deriving DecidableEq

/-- The end of a region as `init_pmm` computes it. -/
def Region.stop (region : Region) : Nat := (region.base + region.length) % 2 ^ 64

/-- The static variables of `pmm.c`. The queue holds virtual addresses, the oldest first. -/
structure Pmm where
  nextAddr : Nat
  topLow : Nat
  topAddr : Nat
  queue : List Nat
  reserved : List (Nat × Nat)
  held : List Nat
  claimed : List (Nat × Nat)

/-- `pmm_reserve` -/
def pmmReserve (pmm : Pmm) (start size : Nat) : Pmm :=
  let pmm := { pmm with claimed := (start, size) :: pmm.claimed }
  if pmm.reserved.length = maxReserved then pmm
  else
    { pmm with
      reserved := pmm.reserved ++ [(start / pageSize * pageSize,
        (start + size + pageSize - 1) % 2 ^ 64 / pageSize * pageSize)] }

/-- `pmm_free` -/
def pmmFree (pmm : Pmm) (addr : Nat) : Pmm :=
  if pmm.nextAddr < addr then pmm else { pmm with queue := pmm.queue ++ [p2v addr] }

/-- One round over the reserved ranges in `pmm_alloc`. -/
def skipRound (reserved : List (Nat × Nat)) (addr : Nat) : Nat :=
  reserved.foldl (fun addr range => if range.1 ≤ addr ∧ addr < range.2 then range.2 else addr) addr

/-- The loop of `pmm_alloc` over the reserved ranges: it ends with a round that moves
nothing. -/
def skipReserved (reserved : List (Nat × Nat)) : Nat → Nat → Nat
  | 0, addr => addr
  | fuel + 1, addr =>
    if skipRound reserved addr = addr then addr
    else skipReserved reserved fuel (skipRound reserved addr)

/-- The end of `pmm_alloc` when no freed page is left and the pointer is below the top. -/
def allocAbove (pmm : Pmm) : Nat × Pmm :=
  let addr := skipReserved pmm.reserved (pmm.reserved.length + 1) pmm.nextAddr
  if pmm.topAddr ≤ addr then (0, { pmm with nextAddr := addr })
  else (addr, { pmm with nextAddr := (addr + pageSize) % 2 ^ 64 })

/-- `pmm_alloc` -/
def pmmAlloc (pmm : Pmm) : Nat × Pmm :=
  match pmm.queue with
  | addr :: rest => (v2p addr, { pmm with queue := rest })
  | [] =>
    if pmm.topAddr ≤ pmm.nextAddr then (0, pmm)
    else if (pmm.topLow + (2 ^ 64 - 0x1000)) % 2 ^ 64 ≤ pmm.nextAddr ∧ pmm.nextAddr < fourGiB then
      let pmm := { pmm with nextAddr := fourGiB }
      if pmm.topAddr ≤ pmm.nextAddr then (0, pmm) else allocAbove pmm
    else allocAbove pmm

/-- What `init_pmm` takes from a usable region at or above 1 MiB. -/
def addRegion (pmm : Pmm) (region : Region) : Pmm :=
  { pmm with
    nextAddr := if pmm.nextAddr = 0 then region.base else pmm.nextAddr
    topLow := if region.stop ≤ fourGiB then region.stop else pmm.topLow
    topAddr := region.stop }

/-- What happens to the allocator. `region` and `recycle` are steps of `init_pmm`. -/
inductive Call where
  | alloc
  | free (addr : Nat)
  | reserve (start size : Nat)
  | region (region : Region)
  | recycle (addr : Nat)

/-- One call, with the record of the pages that are held. -/
def step (pmm : Pmm) : Call → Pmm
  | .alloc =>
    let (addr, pmm) := pmmAlloc pmm
    if addr = 0 then pmm else { pmm with held := addr :: pmm.held }
  | .free addr => pmmFree { pmm with held := pmm.held.erase addr } addr
  | .reserve start size => pmmReserve pmm start size
  | .region region => addRegion pmm region
  | .recycle addr => pmmFree pmm addr

/-- The allocator after a list of calls. -/
def run (pmm : Pmm) (calls : List Call) : Pmm := calls.foldl step pmm

/-- The static variables before the first call. -/
def blank : Pmm := ⟨0, 0, 0, [], [], [], []⟩

/-- The pages of a region, in the order of the loop of `init_pmm`. -/
def pages (region : Region) : List Nat :=
  (List.range ((region.stop - region.base + pageSize - 1) / pageSize)).map
    (fun index => region.base + index * pageSize)

/-- What `init_pmm` does with a page: map it, which allocates the missing page tables,
and free it if it is usable and above 1 MiB. -/
def pageCalls (region : Region) (tables addr : Nat) : List Call :=
  List.replicate tables .alloc ++
    if region.kind = usableMemory ∧ oneMiB < addr then [.recycle addr] else []

/-- A region that the pointer may move through. -/
def Usable (region : Region) : Prop := oneMiB ≤ region.base ∧ region.kind = usableMemory

instance : DecidablePred Usable := fun region =>
  inferInstanceAs (Decidable (oneMiB ≤ region.base ∧ region.kind = usableMemory))

/-- What `init_pmm` does with a region; `skipped` is set for the last entry of the map
when it is not usable. -/
def regionCalls (region : Region) (skipped : Bool) (tables : Nat → Nat) : List Call :=
  (if Usable region then [.region region] else []) ++
    if skipped then [] else (pages region).flatMap (fun addr => pageCalls region (tables addr) addr)

/-- `init_pmm` on a memory map. The number of tables that a mapping needs may differ from
one entry of the map to the next. -/
def initCalls : List Region → (Nat → Nat → Nat) → List Call
  | [], _ => []
  | region :: rest, tables =>
    regionCalls region (rest.isEmpty && region.kind != usableMemory) (tables rest.length) ++
      initCalls rest tables

/-- Every call of the list satisfies the condition in the state that it meets. -/
def Admits (condition : Pmm → Call → Prop) (pmm : Pmm) : List Call → Prop
  | [] => True
  | call :: calls => condition pmm call ∧ Admits condition (step pmm call) calls

/-- The calls after `init_pmm`: pages that are held may be freed. -/
def Later (pmm : Pmm) : Call → Prop
  | .alloc => True
  | .free addr => addr ∈ pmm.held
  | .reserve _ _ => True
  | .region _ => False
  | .recycle _ => False

/-- The allocator on a memory map: ranges are reserved, `init_pmm` runs, and then pages
are allocated and freed and ranges are reserved. All calls meet the condition. -/
def machine (smap : List Region) (condition : Pmm → Call → Prop) : Machine Pmm Call where
  initial pmm := ∃ (ranges : List (Nat × Nat)) (tables : Nat → Nat → Nat),
    Admits condition blank
      (ranges.map (fun range => .reserve range.1 range.2) ++ initCalls smap tables) ∧
    pmm = run blank (ranges.map (fun range => .reserve range.1 range.2) ++ initCalls smap tables)
  allowed pmm call := Later pmm call ∧ condition pmm call
  step pmm call := some (step pmm call)

/-- What is known of a call on a memory map. -/
def Arises (smap : List Region) (pmm : Pmm) : Call → Prop
  | .alloc => True
  | .free addr => addr ∈ pmm.held
  | .reserve _ _ => True
  | .region region => region ∈ smap ∧ Usable region
  | .recycle addr => ∃ region ∈ smap, region.kind = usableMemory ∧ oneMiB < addr ∧
    addr ∈ pages region

variable {smap : List Region} {condition : Pmm → Call → Prop} {property : Pmm → Prop} {pmm : Pmm}

/-- The steps of `init_pmm` are about regions of the map and their pages. -/
theorem initCalls_arise {rest : List Region} (inside : ∀ region ∈ rest, region ∈ smap)
    (tables : Nat → Nat → Nat) :
    ∀ call ∈ initCalls rest tables, ∀ pmm, Arises smap pmm call := by
  induction rest with
  | nil => exact fun call isCall => absurd isCall not_mem_nil
  | cons region rest ih =>
    intro call isCall pmm
    rw [initCalls, mem_append] at isCall
    rcases isCall with isCall | isCall
    · rw [regionCalls, mem_append] at isCall
      have here : region ∈ smap := inside region mem_cons_self
      rcases isCall with isCall | isCall
      · split_ifs at isCall with usable
        · rw [mem_singleton] at isCall
          subst isCall
          exact ⟨here, usable⟩
        · cases isCall
      · split_ifs at isCall with skipped
        · cases isCall
        · rw [mem_flatMap] at isCall
          obtain ⟨addr, isPage, isCall⟩ := isCall
          rw [pageCalls, mem_append] at isCall
          rcases isCall with isCall | isCall
          · obtain rfl := eq_of_mem_replicate isCall
            trivial
          · split_ifs at isCall with usable
            · rw [mem_singleton] at isCall
              subst isCall
              exact ⟨region, here, usable.1, usable.2, isPage⟩
            · cases isCall
    · exact ih (forall_mem_cons.mp inside).2
        call isCall pmm

theorem run_holds (keeps : ∀ pmm call, property pmm → Arises smap pmm call → condition pmm call →
      property (step pmm call)) {calls : List Call}
    (arise : ∀ call ∈ calls, ∀ pmm, Arises smap pmm call) (holds : property pmm)
    (admitted : Admits condition pmm calls) : property (run pmm calls) := by
  induction calls generalizing pmm with
  | nil => exact holds
  | cons call calls ih =>
    obtain ⟨first, others⟩ := admitted
    exact ih (forall_mem_cons.mp arise).2
      (keeps pmm call holds (arise call mem_cons_self pmm) first) others

theorem machine_holds (starts : property blank)
    (keeps : ∀ pmm call, property pmm → Arises smap pmm call → condition pmm call →
      property (step pmm call)) (reached : Reachable (machine smap condition) pmm) :
    property pmm := by
  refine Inductive.holds ⟨?_, fun before call holds allowed => ⟨_, rfl, ?_⟩⟩ reached
  · rintro pmm ⟨ranges, tables, admitted, rfl⟩
    refine run_holds keeps (fun call isCall pmm => ?_) starts admitted
    rcases mem_append.mp isCall with isReserve | isInit
    · obtain ⟨range, _, rfl⟩ := mem_map.mp isReserve
      trivial
    · exact initCalls_arise (fun region inside => inside) tables call isInit pmm
  · refine keeps before call holds ?_ allowed.2
    have later := allowed.1
    cases call with
    | alloc => trivial
    | free addr => exact later
    | reserve start size => trivial
    | region region => exact later.elim
    | recycle addr => exact later.elim

/-- The allocator after `init_pmm`, with nothing reserved. -/
theorem init_reachable (tables : Nat → Nat → Nat)
    (admitted : Admits condition blank (initCalls smap tables)) :
    Reachable (machine smap condition) (run blank (initCalls smap tables)) :=
  Reachable.initial ⟨[], tables, admitted, rfl⟩

theorem alloc_reachable (reached : Reachable (machine smap condition) pmm)
    (good : condition pmm .alloc) : Reachable (machine smap condition) (step pmm .alloc) :=
  reached.call .alloc ⟨trivial, good⟩ rfl

/-! ### The loop over the reserved ranges -/

variable {reserved : List (Nat × Nat)} {addr : Nat}

/-- A round moves up, to the end of a range that was above, or not at all. -/
theorem skipRound_spec (reserved : List (Nat × Nat)) (addr : Nat) :
    skipRound reserved addr = addr ∨
      ∃ range ∈ reserved, skipRound reserved addr = range.2 ∧ addr < range.2 := by
  induction reserved generalizing addr with
  | nil => exact .inl rfl
  | cons range rest ih =>
    simp only [skipRound, foldl_cons]
    change (skipRound rest _ = addr) ∨ ∃ range' ∈ range :: rest, skipRound rest _ = range'.2 ∧ _
    split_ifs with inside
    · rcases ih range.2 with same | ⟨other, isOther, moved, above⟩
      · exact .inr ⟨range, mem_cons_self, same, inside.2⟩
      · exact .inr ⟨other, mem_cons_of_mem _ isOther, moved, by omega⟩
    · rcases ih addr with same | ⟨other, isOther, moved, above⟩
      · exact .inl same
      · exact .inr ⟨other, mem_cons_of_mem _ isOther, moved, above⟩

/-- A round that moves nothing has found the address outside every range. -/
theorem skipRound_fixed (same : skipRound reserved addr = addr) :
    ∀ range ∈ reserved, ¬ (range.1 ≤ addr ∧ addr < range.2) := by
  induction reserved with
  | nil => exact fun range isRange => absurd isRange not_mem_nil
  | cons first rest ih =>
    simp only [skipRound, foldl_cons] at same
    change skipRound rest _ = addr at same
    split_ifs at same with inside
    · -- The address went up and did not come back.
      exfalso
      rcases skipRound_spec rest first.2 with stays | ⟨other, _, moved, above⟩ <;> omega
    · exact forall_mem_cons.mpr ⟨inside, ih same⟩

/-- Fewer elements have a property that excludes one of them. -/
theorem countP_lt {weak strong : Nat × Nat → Bool} (implies : ∀ range, strong range → weak range)
    {range : Nat × Nat} (inside : range ∈ reserved) (isWeak : weak range = true)
    (notStrong : strong range = false) : reserved.countP strong < reserved.countP weak := by
  obtain ⟨lower, upper, rfl⟩ := append_of_mem inside
  have below : lower.countP strong ≤ lower.countP weak :=
    countP_mono_left fun other _ => implies other
  have above : upper.countP strong ≤ upper.countP weak :=
    countP_mono_left fun other _ => implies other
  rw [countP_append, countP_append, countP_cons_of_pos isWeak, countP_cons_of_neg (by simp [notStrong])]
  omega

/-- The loop ends outside every range: each round that moves leaves one more range
behind. -/
theorem skipReserved_spec {fuel : Nat}
    (enough : reserved.countP (fun range => decide (addr < range.2)) < fuel) :
    (∀ range ∈ reserved, ¬ (range.1 ≤ skipReserved reserved fuel addr ∧
        skipReserved reserved fuel addr < range.2)) ∧
      (skipReserved reserved fuel addr = addr ∨
        ∃ range ∈ reserved, skipReserved reserved fuel addr = range.2 ∧ addr < range.2) := by
  induction fuel generalizing addr with
  | zero => exact absurd enough (Nat.not_lt_zero _)
  | succ fuel ih =>
    rw [skipReserved]
    split_ifs with same
    · exact ⟨skipRound_fixed same, .inl rfl⟩
    · obtain ⟨range, isRange, moved, above⟩ := (skipRound_spec reserved addr).resolve_left same
      have fewer : reserved.countP (fun other => decide (skipRound reserved addr < other.2)) <
          reserved.countP (fun other => decide (addr < other.2)) := by
        refine countP_lt (fun other higher => ?_) isRange (by simpa using above) (by simp [moved])
        simp only [decide_eq_true_eq] at higher ⊢
        omega
      obtain ⟨outside, place⟩ := @ih (skipRound reserved addr) (by omega)
      refine ⟨outside, .inr ?_⟩
      rcases place with stays | ⟨other, isOther, reaches, higher⟩
      · exact ⟨range, isRange, stays.trans moved, above⟩
      · exact ⟨other, isOther, reaches, by omega⟩

/-- The address before the reserved ranges are stepped over. -/
def bumpStart (pmm : Pmm) : Nat :=
  if (pmm.topLow + (2 ^ 64 - 0x1000)) % 2 ^ 64 ≤ pmm.nextAddr ∧ pmm.nextAddr < fourGiB then fourGiB
  else pmm.nextAddr

/-- What `pmm_alloc` does: it takes the oldest freed page, or it fails and the pointer may
have moved up, or it takes the page at the pointer, which is below the top and outside
the reserved ranges. -/
inductive Allocates (pmm : Pmm) : Nat → Pmm → Prop where
  | recycled (addr : Nat) (rest : List Nat) (isQueue : pmm.queue = addr :: rest) :
      Allocates pmm (v2p addr) { pmm with queue := rest }
  | failed (addr : Nat) (above : pmm.nextAddr ≤ addr)
      (place : addr = pmm.nextAddr ∨ (pmm.nextAddr < pmm.topAddr ∧
        (addr = bumpStart pmm ∨ ∃ range ∈ pmm.reserved, addr = range.2))) :
      Allocates pmm 0 { pmm with nextAddr := addr }
  | bumped (addr : Nat) (vacant : pmm.queue = []) (above : pmm.nextAddr ≤ addr)
      (below : addr < pmm.topAddr) (started : pmm.nextAddr < pmm.topAddr)
      (place : addr = bumpStart pmm ∨ ∃ range ∈ pmm.reserved, addr = range.2)
      (outside : ∀ range ∈ pmm.reserved, ¬ (range.1 ≤ addr ∧ addr < range.2)) :
      Allocates pmm addr { pmm with nextAddr := (addr + pageSize) % 2 ^ 64 }

/-- The end of `pmm_alloc`, from a pointer that has already jumped over the gap. -/
theorem allocAbove_spec {start : Nat} (vacant : pmm.queue = []) (above : pmm.nextAddr ≤ start)
    (started : pmm.nextAddr < pmm.topAddr) (isStart : start = bumpStart pmm) :
    Allocates pmm (allocAbove { pmm with nextAddr := start }).1
      (allocAbove { pmm with nextAddr := start }).2 := by
  obtain ⟨outside, place⟩ := @skipReserved_spec pmm.reserved start _
    (Nat.lt_add_one_of_le countP_le_length)
  have higher : start ≤ skipReserved pmm.reserved (pmm.reserved.length + 1) start := by
    rcases place with same | ⟨range, _, moved, above⟩ <;> omega
  have reached : skipReserved pmm.reserved (pmm.reserved.length + 1) start = bumpStart pmm ∨
      ∃ range ∈ pmm.reserved,
        skipReserved pmm.reserved (pmm.reserved.length + 1) start = range.2 := by
    rcases place with same | ⟨range, isRange, moved, _⟩
    · exact .inl (same.trans isStart)
    · exact .inr ⟨range, isRange, moved⟩
  unfold allocAbove
  simp only
  split_ifs with top
  · exact .failed _ (Nat.le_trans above higher) (.inr ⟨started, reached⟩)
  · exact .bumped _ vacant (Nat.le_trans above higher) (by omega) started reached outside

theorem pmmAlloc_spec (pmm : Pmm) : Allocates pmm (pmmAlloc pmm).1 (pmmAlloc pmm).2 := by
  unfold pmmAlloc
  split
  · rename_i addr rest isQueue
    exact .recycled addr rest isQueue
  · rename_i isQueue
    simp only
    split_ifs with full gap higher
    · exact .failed pmm.nextAddr (Nat.le_refl _) (.inl rfl)
    · refine .failed fourGiB (Nat.le_of_lt gap.2) (.inr ⟨by omega, .inl ?_⟩)
      rw [bumpStart, if_pos gap]
    · exact allocAbove_spec isQueue (Nat.le_of_lt gap.2) (by omega) (by rw [bumpStart, if_pos gap])
    · exact allocAbove_spec isQueue (Nat.le_refl _) (by omega) (by rw [bumpStart, if_neg gap])

/-- The largest address whose page `P2V` and `V2P` map there and back. -/
def windowEnd : Nat := 0x7F80000000

/-- A physical address of the linear window is found again. -/
theorem v2p_p2v (inside : addr < windowEnd) : v2p (p2v addr) = addr := by
  have bits : addr < 2 ^ 39 := Nat.lt_trans inside (by decide)
  have sum : p2v addr = 2 ^ 39 * 0x1FFFFFF + addr := by
    rw [p2v, Nat.or_comm, Nat.two_pow_add_eq_or_of_lt bits]
    rfl
  have mask : 2 ^ 64 - 1 - kernelMapBase = 2 ^ 39 - 1 := by decide
  rw [v2p, sum, if_neg, mask, Nat.and_two_pow_sub_one_eq_mod, Nat.mul_add_mod,
    Nat.mod_eq_of_lt bits]
  simp only [windowEnd, kernelTextBase] at inside ⊢
  omega

end Balrog.PhysicalPages
