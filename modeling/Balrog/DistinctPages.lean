import Balrog.PhysicalPages
import Mathlib.Data.List.Nodup

/-!
# No page is handed out twice

Pages that are held are distinct if the queue of freed pages and the pages above the
pointer stay apart. `init_pmm` breaks this: `pmm_free` refuses a page above the pointer
only, so the page at the pointer is queued and is also the next one that the pointer
yields; and while page tables are being allocated, a page that was just taken as a
table is below the pointer and is queued as well. The pages stay distinct when every
page that `init_pmm` recycles is above the pointer, or below it and neither held nor
queued, and memory ends below the address from which `V2P` does not undo `P2V`.
-/

namespace Balrog.DistinctPages

open Runs PhysicalPages List

/-- The pages that are held or wait in the queue, by physical address. -/
def taken (pmm : Pmm) : List Nat := pmm.held ++ pmm.queue.map v2p

/-- The page that `init_pmm` frees is refused, or it is a page that the pointer has passed
and that no one has. -/
def Passed (pmm : Pmm) (addr : Nat) : Prop :=
  pmm.nextAddr < addr ∨ (addr < pmm.nextAddr ∧ addr < windowEnd ∧ addr ∉ taken pmm)

/-- The condition on the steps of `init_pmm`. -/
def GoodInit (pmm : Pmm) : Call → Prop
  | .region region => region.stop ≤ windowEnd
  | .recycle addr => Passed pmm addr
  | _ => True

/-- Held and queued pages are distinct and the pointer has passed them. -/
structure Distinct (pmm : Pmm) : Prop where
  nodup : (taken pmm).Nodup
  passed : ∀ addr ∈ taken pmm, addr < pmm.nextAddr ∧ addr < windowEnd
  top : pmm.topAddr ≤ windowEnd

variable {pmm : Pmm} {addr : Nat}

/-- A page that is queued may be held before. -/
theorem free_distinct (distinct : Distinct pmm) (inside : addr ∈ pmm.held) :
    Distinct (step pmm (.free addr)) := by
  obtain ⟨passed, window⟩ := distinct.passed addr (mem_append_left _ inside)
  have permuted : List.Perm (taken (step pmm (.free addr))) (taken pmm) := by
    have accepted : ¬ pmm.nextAddr < addr := by omega
    simp only [step, pmmFree, if_neg accepted, taken, map_append, map_cons, map_nil,
      v2p_p2v window]
    rw [← append_assoc]
    refine (perm_append_comm).trans ?_
    rw [← append_assoc]
    refine List.Perm.append_right _ ?_
    exact (perm_cons_erase inside).symm
  have same : (step pmm (.free addr)).nextAddr = pmm.nextAddr ∧
      (step pmm (.free addr)).topAddr = pmm.topAddr := by
    simp only [step, pmmFree]
    split <;> exact ⟨rfl, rfl⟩
  refine ⟨permuted.nodup_iff.mpr distinct.nodup, fun other isOther => ?_, ?_⟩
  · rw [same.1]
    exact distinct.passed other (permuted.mem_iff.mp isOther)
  · rw [same.2]
    exact distinct.top

theorem recycle_distinct (distinct : Distinct pmm) (good : Passed pmm addr) :
    Distinct (step pmm (.recycle addr)) := by
  simp only [step, pmmFree]
  split
  · exact distinct
  · obtain ⟨below, window, free⟩ := good.resolve_left (by assumption)
    have after : taken { pmm with queue := pmm.queue ++ [p2v addr] } = taken pmm ++ [addr] := by
      simp [taken, v2p_p2v window]
    refine ⟨?_, fun other isOther => ?_, distinct.top⟩
    · rw [after, ← concat_eq_append]
      exact List.Nodup.concat free distinct.nodup
    · rw [after, mem_append, mem_singleton] at isOther
      rcases isOther with earlier | rfl
      · exact distinct.passed other earlier
      · exact ⟨below, window⟩

/-- A page that leaves the queue may be held afterwards. -/
theorem taken_recycled {queued : Nat} {rest : List Nat} (isQueue : pmm.queue = queued :: rest) :
    List.Perm (v2p queued :: (pmm.held ++ rest.map v2p)) (taken pmm) := by
  rw [taken, isQueue, map_cons]
  exact perm_middle.symm

/-- A page that is handed out came from the queue, or the pointer had not passed it. -/
theorem alloc_distinct (distinct : Distinct pmm) : Distinct (step pmm .alloc) := by
  simp only [step]
  have allocates := pmmAlloc_spec pmm
  generalize (pmmAlloc pmm).1 = page at allocates
  generalize (pmmAlloc pmm).2 = after at allocates
  cases allocates with
  | recycled queued rest isQueue =>
    have permuted := taken_recycled isQueue
    have nodup := permuted.nodup_iff.mpr distinct.nodup
    split_ifs
    · refine ⟨(nodup_cons.mp nodup).2, fun other isOther => ?_, distinct.top⟩
      exact distinct.passed other (permuted.mem_iff.mp (mem_cons_of_mem _ isOther))
    · refine ⟨nodup, fun other isOther => ?_, distinct.top⟩
      exact distinct.passed other (permuted.mem_iff.mp isOther)
  | failed moved above _ =>
    rw [if_pos rfl]
    refine ⟨distinct.nodup, fun other isOther => ?_, distinct.top⟩
    obtain ⟨below, window⟩ := distinct.passed other isOther
    exact ⟨Nat.lt_of_lt_of_le below above, window⟩
  | bumped moved vacant above below started place outside =>
    have top := distinct.top
    have small : page + pageSize < 2 ^ 64 := by
      simp only [windowEnd] at top
      simp only [pageSize]
      omega
    rw [Nat.mod_eq_of_lt small]
    have fresh : page ∉ taken pmm := by
      intro isTaken
      have passed := (distinct.passed page isTaken).1
      omega
    have higher : page < page + pageSize := by simp [pageSize]
    split_ifs
    · refine ⟨distinct.nodup, fun other isOther => ?_, distinct.top⟩
      obtain ⟨passed, window⟩ := distinct.passed other isOther
      exact ⟨Nat.lt_of_lt_of_le passed (Nat.le_trans above (Nat.le_of_lt higher)), window⟩
    · refine ⟨nodup_cons.mpr ⟨fresh, distinct.nodup⟩, fun other isOther => ?_, distinct.top⟩
      rcases mem_cons.mp isOther with rfl | earlier
      · exact ⟨higher, by omega⟩
      · obtain ⟨passed, window⟩ := distinct.passed other earlier
        exact ⟨Nat.lt_of_lt_of_le passed (Nat.le_trans above (Nat.le_of_lt higher)), window⟩

theorem step_distinct {smap : List Region} (call : Call) (distinct : Distinct pmm)
    (arises : Arises smap pmm call) (good : GoodInit pmm call) : Distinct (step pmm call) := by
  cases call with
  | alloc => exact alloc_distinct distinct
  | free addr => exact free_distinct distinct arises
  | reserve start size =>
    obtain ⟨nodup, passed, top⟩ := distinct
    simp only [step, pmmReserve]
    split <;> exact ⟨nodup, passed, top⟩
  | region region =>
    refine ⟨distinct.nodup, fun other isOther => ?_, good⟩
    obtain ⟨below, window⟩ := distinct.passed other isOther
    simp only [step, addRegion]
    split_ifs
    · omega
    · exact ⟨below, window⟩
  | recycle addr => exact recycle_distinct distinct good

/-- On every memory map, in every run in which `init_pmm` recycles only pages that the
pointer has passed and no one has, and memory ends below the window's end, the pages
that are held are distinct. -/
theorem held_pages_distinct {smap : List Region} {pmm : Pmm}
    (reached : Reachable (machine smap GoodInit) pmm) : pmm.held.Nodup := by
  have distinct : Distinct pmm := machine_holds ⟨nodup_nil,
    fun addr isTaken => absurd isTaken not_mem_nil, Nat.zero_le _⟩
    (fun _ call holds arises good => step_distinct call holds arises good) reached
  exact (nodup_append.mp distinct.nodup).1

theorem run_two (calls : List Call) (pmm : Pmm) :
    run pmm (calls ++ [.alloc, .alloc]) = step (step (run pmm calls) .alloc) .alloc := by
  rw [run, foldl_append]
  rfl

/-- A memory map whose usable memory starts at 1 MiB. -/
def mapAtOneMiB : List Region := [⟨0x100000, 0x3000, 1⟩]

/-- Two pages are allocated on it, when the linear window is mapped already. -/
def twoPages : Pmm := run blank (initCalls mapAtOneMiB (fun _ _ => 0) ++ [.alloc, .alloc])

/-- The theorem applies there. -/
theorem held_pages_distinct_two :
    Reachable (machine mapAtOneMiB GoodInit) twoPages ∧ twoPages.held = [0x101000, 0x100000] ∧
      twoPages.held.Nodup := by
  have calls : initCalls mapAtOneMiB (fun _ _ => 0) =
      [.region ⟨0x100000, 0x3000, 1⟩, .recycle 0x101000, .recycle 0x102000] := by rfl
  have admitted : Admits GoodInit blank (initCalls mapAtOneMiB (fun _ _ => 0)) := by
    rw [calls]
    refine ⟨?_, Or.inl (by decide), Or.inl (by decide), trivial⟩
    change (0x100000 + 0x3000) % 2 ^ 64 ≤ windowEnd
    decide
  have reached : Reachable (machine mapAtOneMiB GoodInit) twoPages := by
    rw [twoPages, run_two]
    exact alloc_reachable (alloc_reachable (init_reachable _ admitted) trivial) trivial
  exact ⟨reached, by decide, held_pages_distinct reached⟩

/-- A memory map whose usable memory starts at 2 MiB. -/
def mapAtTwoMiB : List Region := [⟨0x200000, 0x3000, 1⟩]

/-- Two pages allocated out of memory that begins at 2 MiB. -/
def samePages : Pmm := run blank (initCalls mapAtTwoMiB (fun _ _ => 0) ++ [.alloc, .alloc])

/-- The page at the start of memory is handed out twice. -/
theorem page_handed_out_twice :
    Reachable (machine mapAtTwoMiB (fun _ _ => True)) samePages ∧
      samePages.held = [0x200000, 0x200000] := by
  have calls : initCalls mapAtTwoMiB (fun _ _ => 0) = [.region ⟨0x200000, 0x3000, 1⟩,
      .recycle 0x200000, .recycle 0x201000, .recycle 0x202000] := by rfl
  have admitted : Admits (fun _ _ => True) blank (initCalls mapAtTwoMiB (fun _ _ => 0)) := by
    rw [calls]
    exact ⟨trivial, trivial, trivial, trivial, trivial⟩
  refine ⟨?_, by decide⟩
  rw [samePages, run_two]
  exact alloc_reachable (alloc_reachable (init_reachable _ admitted) trivial) trivial

end Balrog.DistinctPages
