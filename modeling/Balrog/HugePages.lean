import Balrog.PageTables

/-!
# Page tables with pages of 2 MiB

The loader maps the first 8 MiB of physical memory, and an entry of a page directory with bit 7
set maps 2 MiB without a further table. The walk of `vmm_find_page` does not look at that bit:
it takes the first page of the data as a table. `vmm_set_page` then writes an entry into the
data, and `vmm_get_page` reports what the data hold.

Against this stands the walk of the processor. Where no page of 2 MiB covers an address the two
agree, and `vmm_set_page` writes tables of the processor's walk and new tables only. Pages of
1 GiB are left out, since nobody builds them.
-/

namespace Balrog.HugePages

open PhysicalPages PageTables RadixTree Function List Option

/-- `PAGE_PRESENT` is bit 0. -/
def isPresent (entry : Nat) : Bool := entry.testBit 0

/-- `PAGE_HUGE` is bit 7. -/
def isHuge (entry : Nat) : Bool := entry.testBit 7

/-- The table that the processor goes to behind an entry. -/
def cpuTable (entry : Nat) : Option Nat := if isPresent entry then some (tableOf entry) else none

section Walk

variable (vmm : Vmm) (root virt : Nat)

/-- The directory pointer table of an address. -/
def cpuPdpt : Option Nat := cpuTable (vmm.memory root (pml4tOffset virt))

/-- The page directory of an address. -/
def cpuPdt : Option Nat :=
  (cpuPdpt vmm root virt).bind fun pdpt => cpuTable (vmm.memory pdpt (pdptOffset virt))

/-- The entry of the page of 2 MiB that covers an address. -/
def hugeEntry : Option Nat :=
  (cpuPdt vmm root virt).bind fun pdt =>
    let entry := vmm.memory pdt (pdtOffset virt)
    if isPresent entry && isHuge entry then some entry else none

/-- The lowest table that the processor reaches for an address, unless a huge page ends its walk. -/
def cpuPt : Option Nat :=
  (cpuPdt vmm root virt).bind fun pdt =>
    let entry := vmm.memory pdt (pdtOffset virt)
    if isHuge entry then none else cpuTable entry

/-- The physical address that the processor translates an address to. -/
def cpuTranslate : Option Nat :=
  match hugeEntry vmm root virt with
  | some entry => some (entry / 2 ^ 21 * 2 ^ 21 + virt % 2 ^ 21)
  | none => (cpuPt vmm root virt).bind fun pt =>
    let entry := vmm.memory pt (ptOffset virt)
    if isPresent entry then some (stripFlags entry + virt % 4096) else none

/-- The tables that the processor reads on the way to an address. -/
def walkTables : List Nat :=
  root :: ((cpuPdpt vmm root virt).toList ++ (cpuPdt vmm root virt).toList ++
    (cpuPt vmm root virt).toList)

/-- The entries that the walk of the processor reads are empty or present, as the loader and the
kernel write them. What else these tables hold does not matter. -/
structure Built : Prop where
  top : vmm.memory root (pml4tOffset virt) ≠ 0 →
    isPresent (vmm.memory root (pml4tOffset virt)) = true
  pdpt : ∀ pdpt, cpuPdpt vmm root virt = some pdpt → vmm.memory pdpt (pdptOffset virt) ≠ 0 →
    isPresent (vmm.memory pdpt (pdptOffset virt)) = true
  pdt : ∀ pdt, cpuPdt vmm root virt = some pdt → vmm.memory pdt (pdtOffset virt) ≠ 0 →
    isPresent (vmm.memory pdt (pdtOffset virt)) = true
  pt : ∀ pt, cpuPt vmm root virt = some pt → vmm.memory pt (ptOffset virt) ≠ 0 →
    isPresent (vmm.memory pt (ptOffset virt)) = true

end Walk

/-- `vmm_get_page` reports the page that the processor translates the address to. -/
def GetSound (vmm : Vmm) (pml4t virt : Nat) : Prop :=
  vmmGetPage vmm pml4t virt =
    ((cpuTranslate vmm (p2v (topTable pml4t)) virt).map stripFlags).getD 0

/-- A table of the processor's walk, or a page that `pmm_calloc` has returned. -/
def RealTable (vmm : Vmm) (root virt page : Nat) : Prop :=
  page ∈ walkTables vmm root virt ∨ ∃ phys ∈ vmm.supply, page = p2v phys

/-- What has changed lies in the given pages. -/
def Touches (pages : Nat → Prop) (before after : Vmm) : Prop :=
  ∀ page index, after.memory page index ≠ before.memory page index → pages page

/-- `vmm_set_page` writes real tables only. -/
def SetSound (vmm : Vmm) (pml4t virt phys flags : Nat) : Prop :=
  Touches (RealTable vmm (p2v (topTable pml4t)) virt) vmm (vmmSetPage vmm pml4t virt phys flags).2

variable {vmm : Vmm} {root virt : Nat}

/-- Offsets do not depend on the low bits of an address. -/
theorem offsets_strip (virt : Nat) : pml4tOffset (stripFlags virt) = pml4tOffset virt ∧
    pdptOffset (stripFlags virt) = pdptOffset virt ∧
    pdtOffset (stripFlags virt) = pdtOffset virt := by
  have same := path_strip virt
  simp only [path, List.cons.injEq, and_true] at same
  exact same

variable {entry pml4t table : Nat} {pages : Nat → Prop} {expected next : Option Nat}
  {index : Fin 512}

/-- The two walks read an entry that is empty or present alike. -/
theorem child_eq_cpuTable (present : entry ≠ 0 → isPresent entry = true) :
    child entry = cpuTable entry := by
  by_cases empty : entry = 0
  · subst empty
    rfl
  · rw [child, cpuTable, if_neg empty, if_pos (present empty)]

/-- Where no large page covers the address, the kernel's walk is the processor's. -/
theorem reach_eq_cpuPt (built : Built vmm root virt) (plain : hugeEntry vmm root virt = none) :
    reach child vmm.memory root (path virt) = cpuPt vmm root virt := by
  have first : child (vmm.memory root (pml4tOffset virt)) = cpuPdpt vmm root virt :=
    child_eq_cpuTable built.top
  simp only [path, reach, first]
  cases isPdpt : cpuPdpt vmm root virt with
  | none => simp [cpuPt, cpuPdt, isPdpt]
  | some pdpt =>
    have second : child (vmm.memory pdpt (pdptOffset virt)) = cpuPdt vmm root virt := by
      rw [child_eq_cpuTable (built.pdpt pdpt isPdpt), cpuPdt, isPdpt, bind_some]
    rw [bind_some, second]
    cases isPdt : cpuPdt vmm root virt with
    | none => simp [cpuPt, isPdt]
    | some pdt =>
      have present := built.pdt pdt isPdt
      have small : isHuge (vmm.memory pdt (pdtOffset virt)) = true →
          cpuTable (vmm.memory pdt (pdtOffset virt)) = none := by
        intro huge
        simp only [hugeEntry, isPdt, bind_some, huge, Bool.and_true] at plain
        rw [cpuTable]
        split
        · next isPresent => simp [isPresent] at plain
        · rfl
      rw [bind_some, child_eq_cpuTable present, cpuPt, isPdt, bind_some]
      simp only
      split
      · next huge => simp [small huge]
      · cases cpuTable (vmm.memory pdt (pdtOffset virt)) <;> rfl

/-- `vmm_get_page` agrees with the processor where no large page covers the address. -/
theorem get_sound (built : Built vmm (p2v (topTable pml4t)) virt)
    (plain : hugeEntry vmm (p2v (topTable pml4t)) virt = none) : GetSound vmm pml4t virt := by
  rw [GetSound, get_eq, leaf, reach_eq_cpuPt built plain, cpuTranslate, plain]
  cases isPt : cpuPt vmm (p2v (topTable pml4t)) virt with
  | none => simp [stripFlags]
  | some pt =>
    have present := built.pt pt isPt
    simp only [bind_some]
    split
    · simp only [map_some, getD_some, stripFlags]
      omega
    · next absent =>
      have empty : vmm.memory pt (ptOffset virt) = 0 := by
        by_contra nonzero
        exact absent (present nonzero)
      simp [empty, stripFlags]

/-- Tables that were added, all from the supply, whose entries lead to one another. -/
structure Added (vmm : Vmm) (used : List Nat) (after : Vmm) : Prop where
  supplied : ∀ table ∈ used, ∃ phys ∈ vmm.supply, table = p2v phys
  closed : ∀ table ∈ used, ∀ index, after.memory table index ≠ 0 →
    tableOf (after.memory table index) ∈ used

/-- How far the walk has come: it stands in a table of the processor's walk and has changed
nothing, or in a table that was added. -/
structure Stage (vmm : Vmm) (pages : Nat → Prop) (expected : Option Nat)
    (found : Option Nat × Vmm) : Prop where
  touches : Touches pages vmm found.2
  supply : ∀ phys ∈ found.2.supply, phys ∈ vmm.supply
  table : ∀ table, found.1 = some table → (found.2 = vmm ∧ expected = some table) ∨
    ∃ used, table ∈ used ∧ Added vmm used found.2

theorem create_stage {now : Vmm} {used : List Nat} (aligned : ∀ phys ∈ vmm.supply, phys % 4096 = 0)
    (free : ∀ phys ∈ vmm.supply, pages (p2v phys)) (touches : Touches pages vmm now)
    (supply : ∀ phys ∈ now.supply, phys ∈ vmm.supply) (added : Added vmm used now)
    (here : pages table) (empty : now.memory table index = 0) :
    Stage vmm pages expected (nextTable now table index true) := by
  cases isSupply : now.supply with
  | nil =>
    have result : nextTable now table index true = (none, now) := by
      simp [nextTable, empty, pmmCalloc, isSupply]
    rw [result]
    exact ⟨touches, supply, fun _ found => absurd found (by simp)⟩
  | cons phys rest =>
    have member : phys ∈ vmm.supply := supply phys (isSupply ▸ mem_cons_self)
    have left : ∀ other ∈ rest, other ∈ vmm.supply :=
      fun other inside => supply other (isSupply ▸ mem_cons_of_mem _ inside)
    have cleared : Touches pages vmm
        { now with memory := update now.memory (p2v phys) fun _ => 0, supply := rest } := by
      intro page probe changed
      by_cases isNew : page = p2v phys
      · exact isNew ▸ free phys member
      · simp only [update_of_ne isNew] at changed
        exact touches page probe changed
    by_cases isZero : phys = 0
    · have result : nextTable now table index true =
          (none, { now with
            memory := update now.memory (p2v phys) fun _ => 0
            supply := rest }) := by
        simp [nextTable, empty, pmmCalloc, isSupply, isZero]
      rw [result]
      exact ⟨cleared, left, fun _ found => absurd found (by simp)⟩
    · have leads : tableOf (addFlags phys tableFlags) = p2v phys := by
        rw [tableOf, strip_add (aligned phys member)]
      have result : nextTable now table index true =
          (some (p2v phys), { now with
            memory := write (update now.memory (p2v phys) fun _ => 0) table index
              (addFlags phys tableFlags)
            supply := rest }) := by
        simp [nextTable, empty, pmmCalloc, isSupply, isZero, leads]
      rw [result]
      refine ⟨fun page probe changed => ?_, left, ?_⟩
      · by_cases isTable : page = table
        · exact isTable ▸ here
        · simp only [write, update_of_ne isTable] at changed
          exact cleared page probe changed
      · rintro _ ⟨⟩
        refine .inr ⟨p2v phys :: used, mem_cons_self, ?_, ?_⟩
        · exact forall_mem_cons.mpr ⟨⟨phys, member, rfl⟩, added.supplied⟩
        · intro other inside probe
          simp only [write_apply]
          split
          · intro _
            rw [leads]
            exact mem_cons_self
          · intro nonzero
            by_cases isNew : other = p2v phys
            · exact absurd (by rw [isNew, update_self]) nonzero
            · rw [update_of_ne isNew] at nonzero ⊢
              have old := (mem_cons.mp inside).resolve_left isNew
              exact mem_cons_of_mem _ (added.closed other old probe nonzero)

theorem andThen_stage {found : Option Nat × Vmm} (aligned : ∀ phys ∈ vmm.supply, phys % 4096 = 0)
    (free : ∀ phys ∈ vmm.supply, pages (p2v phys)) (stage : Stage vmm pages expected found)
    (here : ∀ table, expected = some table → pages table)
    (follows : ∀ table, expected = some table → vmm.memory table index ≠ 0 →
      next = some (tableOf (vmm.memory table index))) :
    Stage vmm pages next (andThen found index true) := by
  obtain ⟨isTable, now⟩ := found
  cases isTable with
  | none => exact ⟨stage.touches, stage.supply, fun _ found => absurd found (by simp [andThen])⟩
  | some table =>
    rw [andThen]
    have position := stage.table table rfl
    by_cases empty : now.memory table index = 0
    · rcases position with ⟨rfl, isExpected⟩ | ⟨used, inside, added⟩
      · exact create_stage aligned free stage.touches stage.supply
          ⟨fun _ inside => absurd inside not_mem_nil,
            fun _ inside => absurd inside not_mem_nil⟩ (here table isExpected) empty
      · obtain ⟨phys, member, isNew⟩ := added.supplied table inside
        exact create_stage aligned free stage.touches stage.supply added
          (isNew ▸ free phys member) empty
    · have result : nextTable now table index true =
          (some (tableOf (now.memory table index)), now) := by
        rw [nextTable, if_pos empty]
      rw [result]
      refine ⟨stage.touches, stage.supply, ?_⟩
      rintro _ ⟨⟩
      rcases position with ⟨rfl, isExpected⟩ | ⟨used, inside, added⟩
      · exact .inl ⟨rfl, follows table isExpected empty⟩
      · exact .inr ⟨used, added.closed table inside index empty, added⟩

theorem find_stage (aligned : ∀ phys ∈ vmm.supply, phys % 4096 = 0)
    (built : Built vmm (p2v pml4t) virt) (plain : hugeEntry vmm (p2v pml4t) virt = none) :
    Stage vmm (RealTable vmm (p2v pml4t) virt) (cpuPt vmm (p2v pml4t) virt)
      (vmmFindPage vmm pml4t virt true) := by
  obtain ⟨samePml4t, samePdpt, samePdt⟩ := offsets_strip virt
  have free : ∀ phys ∈ vmm.supply, RealTable vmm (p2v pml4t) virt (p2v phys) :=
    fun phys member => .inr ⟨phys, member, rfl⟩
  have start : Stage vmm (RealTable vmm (p2v pml4t) virt) (some (p2v pml4t))
      (some (p2v pml4t), vmm) :=
    ⟨fun _ _ changed => absurd rfl changed, fun _ member => member,
      fun _ isRoot => .inl ⟨rfl, isRoot⟩⟩
  have first : Stage vmm (RealTable vmm (p2v pml4t) virt) (cpuPdpt vmm (p2v pml4t) virt)
      (andThen (some (p2v pml4t), vmm) (pml4tOffset virt) true) := by
    refine andThen_stage aligned free start ?_ ?_
    · rintro _ ⟨⟩
      exact .inl mem_cons_self
    · rintro _ ⟨⟩ nonzero
      exact if_pos (built.top nonzero)
  have second : Stage vmm (RealTable vmm (p2v pml4t) virt) (cpuPdt vmm (p2v pml4t) virt)
      (andThen (andThen (some (p2v pml4t), vmm) (pml4tOffset virt) true) (pdptOffset virt)
        true) := by
    refine andThen_stage aligned free first ?_ ?_
    · intro table isPdpt
      exact .inl (by simp [walkTables, isPdpt])
    · intro table isPdpt nonzero
      rw [cpuPdt, isPdpt]
      exact if_pos (built.pdpt table isPdpt nonzero)
  simp only [vmmFindPage, samePml4t, samePdpt, samePdt]
  refine andThen_stage aligned free second ?_ ?_
  · intro table isPdt
    exact .inl (by simp [walkTables, isPdt])
  · intro table isPdt nonzero
    have present := built.pdt table isPdt nonzero
    have small : isHuge (vmm.memory table (pdtOffset virt)) = false := by
      simp only [hugeEntry, isPdt, bind_some, present, Bool.true_and] at plain
      simpa using plain
    simp only [cpuPt, isPdt, bind_some, small, Bool.false_eq_true, if_false]
    exact if_pos present

/-- `vmm_set_page` writes real tables only where no large page covers the address. -/
theorem set_sound (aligned : ∀ phys ∈ vmm.supply, phys % 4096 = 0)
    (built : Built vmm (p2v (topTable pml4t)) virt)
    (plain : hugeEntry vmm (p2v (topTable pml4t)) virt = none) (phys flags : Nat) :
    SetSound vmm pml4t virt phys flags := by
  have stage := find_stage aligned built plain
  unfold SetSound vmmSetPage
  cases result : vmmFindPage vmm (topTable pml4t) virt true with
  | mk found after =>
    rw [result] at stage
    cases found with
    | none => exact stage.touches
    | some table =>
      have isReal : RealTable vmm (p2v (topTable pml4t)) virt table := by
        rcases stage.table table rfl with ⟨_, isPt⟩ | ⟨used, inside, added⟩
        · exact .inl (by simp [walkTables, isPt])
        · obtain ⟨phys, member, isNew⟩ := added.supplied table inside
          exact .inr ⟨phys, member, isNew⟩
      intro page index changed
      by_cases isTable : page = table
      · exact isTable ▸ isReal
      · refine stage.touches page index fun same => changed ?_
        simp only [write, update_of_ne isTable]
        exact same

/-- The pages that `init_pmm` maps: the last region is skipped unless it is usable. -/
def initPages : List Region → List Nat
  | [] => []
  | [last] => if last.kind = 1 then PhysicalPages.pages last else []
  | region :: rest => PhysicalPages.pages region ++ initPages rest

/-- How `init_pmm` maps a page. -/
def initMap (vmm : Vmm) (page : Nat) : Vmm := (vmmSetPage vmm 0 (p2v page) page 3).2

/-- Every page of a list is mapped by writing real tables only. -/
def InitSound (vmm : Vmm) : List Nat → Prop
  | [] => True
  | page :: rest => SetSound vmm 0 (p2v page) page 3 ∧ InitSound (initMap vmm page) rest

/-- The pages to come are aligned, the tables on the way to an address are built as the loader
and the kernel build them, and no page of 2 MiB covers it. -/
def Plain (vmm : Vmm) (pml4t virt : Nat) : Prop :=
  (∀ phys ∈ vmm.supply, phys % 4096 = 0) ∧ Built vmm (p2v (topTable pml4t)) virt ∧
    hugeEntry vmm (p2v (topTable pml4t)) virt = none

/-- No page of the list meets a huge page while the list is mapped. -/
def InitPlain (vmm : Vmm) : List Nat → Prop
  | [] => True
  | page :: rest => Plain vmm 0 (p2v page) ∧ InitPlain (initMap vmm page) rest

theorem init_sound (pages : List Nat) (vmm : Vmm) (plain : InitPlain vmm pages) :
    InitSound vmm pages := by
  induction pages generalizing vmm with
  | nil => trivial
  | cons page rest ih =>
    obtain ⟨⟨aligned, built, small⟩, later⟩ := plain
    exact ⟨set_sound aligned built small page 3, ih _ later⟩

/-- `__build_page_tables`, with the given contents of the rest of the memory. -/
def buildPageTables (data : Nat) (page : Nat) (index : Fin 512) : Nat :=
  if page = p2v 0x1000 then
    if index.val = 0 then 0x2000 ||| 3 else if index.val = 511 then 0x2000 ||| 3 ||| 0x100 else 0
  else if page = p2v 0x2000 then
    if index.val = 0 then 0x3000 ||| 3 else if index.val = 510 then 0x6000 ||| 3 else 0
  else if page = p2v 0x3000 then
    if index.val = 0 then 0x4000 ||| 3
    else if index.val < 4 then index.val * 0x200000 ||| 3 ||| 0x80 ||| 0x100
    else 0
  else if page = p2v 0x4000 then index.val * 0x1000 ||| 3 ||| 0x100
  else if page = p2v 0x5000 then 0
  else if page = p2v 0x6000 then
    if index.val < 4 then index.val * 0x200000 ||| 3 ||| 0x80 ||| 0x100 else 0
  else data

/-- The tables of the loader, with memory full of sevens behind them. -/
def loaderTables : Vmm := { memory := buildPageTables 7, supply := [], freed := [] }

end Balrog.HugePages
