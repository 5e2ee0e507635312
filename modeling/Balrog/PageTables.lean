import Balrog.PhysicalPages
import Balrog.RadixTree

/-!
# Page tables as a map of pages

`vmm_set_page`, `vmm_get_page` and `vmm_free_page` walk four levels of tables of 512
entries, with the tables in the linear window. On tables that form a tree they are a map
from 48-bit page numbers to physical pages. Tables that are missing are created, also by
`vmm_free_page`; a new table is empty, so this maps nothing, and an allocation that fails
half-way leaves only empty tables behind.

`supply` lists the pages that `pmm_calloc` is going to return; when it is used up
`pmm_calloc` fails. Left out: the debug output and the flush of the translation buffer.
-/

namespace Balrog.PageTables

open PhysicalPages RadixTree Function List
open AddressSpace (kernelMapBase)

/-- `STRIP_FLAGS`: the low twelve bits are cleared. -/
def stripFlags (addr : Nat) : Nat := addr / 4096 * 4096

/-- `ADD_FLAGS` -/
def addFlags (addr flags : Nat) : Nat := addr ||| (flags &&& 0xfff)

/-- `PAGE_PRESENT | PAGE_WRITE | PAGE_USER` -/
def tableFlags : Nat := 0x007

/-- `PAGE_USER` -/
def pageUser : Nat := 0x004

/-- `PAGE_GLOBAL` -/
def pageGlobal : Nat := 0x100

/-- `PML4T_OFFSET`: nine bits select an entry. -/
def pml4tOffset (addr : Nat) : Fin 512 := Fin.ofNat 512 (addr >>> 39)

/-- `PDPT_OFFSET` -/
def pdptOffset (addr : Nat) : Fin 512 := Fin.ofNat 512 (addr >>> 30)

/-- `PDT_OFFSET` -/
def pdtOffset (addr : Nat) : Fin 512 := Fin.ofNat 512 (addr >>> 21)

/-- `PT_OFFSET` -/
def ptOffset (addr : Nat) : Fin 512 := Fin.ofNat 512 (addr >>> 12)

/-- The physical address of the kernel's top table. -/
def kernelPml4t : Nat := 0x1000

/-- The entries of the tables by virtual address, the pages that `pmm_calloc` will return
and those given to `pmm_free`. -/
structure Vmm where
  memory : Nat → Fin 512 → Nat
  supply : List Nat
  freed : List Nat

/-- `pmm_calloc`: a page is taken and cleared. -/
def pmmCalloc (vmm : Vmm) : Nat × Vmm :=
  match vmm.supply with
  | [] => (0, vmm)
  | page :: rest =>
    (page, { vmm with memory := update vmm.memory (p2v page) (fun _ => 0), supply := rest })

/-- The table that an entry points to, at its virtual address. -/
def tableOf (entry : Nat) : Nat := p2v (stripFlags entry)

/-- How `vmm_find_page` goes from one table to the next: `PML4T` to `PDPT`, `PDPT` to
`PDT`, and `PDT` to `PT`. -/
def nextTable (vmm : Vmm) (table : Nat) (index : Fin 512) (create : Bool) : Option Nat × Vmm :=
  if vmm.memory table index ≠ 0 then (some (tableOf (vmm.memory table index)), vmm)
  else if create = false then (none, vmm)
  else
    let (page, vmm) := pmmCalloc vmm
    if page = 0 then (none, vmm)
    else
      (some (tableOf (addFlags page tableFlags)),
        { vmm with memory := write vmm.memory table index (addFlags page tableFlags) })

/-- The next level of the walk; a missing table stays missing. -/
def andThen (found : Option Nat × Vmm) (index : Fin 512) (create : Bool) : Option Nat × Vmm :=
  match found with
  | (none, vmm) => (none, vmm)
  | (some table, vmm) => nextTable vmm table index create

/-- `vmm_find_page` -/
def vmmFindPage (vmm : Vmm) (pml4t virt : Nat) (create : Bool) : Option Nat × Vmm :=
  let virt := stripFlags virt
  let found := nextTable vmm (p2v pml4t) (pml4tOffset virt) create
  let found := andThen found (pdptOffset virt) create
  andThen found (pdtOffset virt) create

/-- The table of the top level; zero asks for that of the kernel. -/
def topTable (pml4t : Nat) : Nat := if pml4t = 0 then kernelPml4t else pml4t

/-- `vmm_get_page` -/
def vmmGetPage (vmm : Vmm) (pml4t virt : Nat) : Nat :=
  match (vmmFindPage vmm (topTable pml4t) virt false).1 with
  | none => 0
  | some table => stripFlags (vmm.memory table (ptOffset virt))

/-- `vmm_set_page` -/
def vmmSetPage (vmm : Vmm) (pml4t virt phys flags : Nat) : Nat × Vmm :=
  match vmmFindPage vmm (topTable pml4t) virt true with
  | (none, vmm) => (0, vmm)
  | (some table, vmm) =>
    let flags := if kernelMapBase ≤ virt ∧ flags &&& pageUser = 0 then flags ||| pageGlobal else flags
    let vmm := { vmm with
      memory := write vmm.memory table (ptOffset virt) (addFlags phys flags) }
    (vmm.memory table (ptOffset virt), vmm)

/-- `vmm_free_page` -/
def vmmFreePage (vmm : Vmm) (pml4t virt : Nat) : Vmm :=
  match vmmFindPage vmm (topTable pml4t) virt true with
  | (none, vmm) => vmm
  | (some table, vmm) =>
    if vmm.memory table (ptOffset virt) ≠ 0 then
      { vmm with
        freed := stripFlags (vmm.memory table (ptOffset virt)) :: vmm.freed
        memory := write vmm.memory table (ptOffset virt) 0 }
    else vmm

/-- The number of the page of an address, out of its four indices. -/
def pageNumber (virt : Nat) : Nat := virt / 4096 % 2 ^ 36

/-- The table that a word points at, if it is not empty. -/
def child (entry : Nat) : Option Nat := if entry = 0 then none else some (tableOf entry)

/-- The indices that lead to the last table of a page. -/
def path (virt : Nat) : List (Fin 512) := [pml4tOffset virt, pdptOffset virt, pdtOffset virt]

/-- The tables below a root form a tree, and the pages that `pmm_calloc` will return are
pages that are not among them. -/
structure Ok (vmm : Vmm) (root : Nat) : Prop where
  tree : RadixTree.Tree child vmm.memory root 3
  fresh : ∀ page ∈ vmm.supply, page ≠ 0 ∧ page % 4096 = 0 ∧
    Unreached child vmm.memory root 3 (p2v page)
  distinct : (vmm.supply.map p2v).Nodup

/-- The last entry on the way to a page; empty when a table is missing. -/
def leaf (vmm : Vmm) (root : Nat) (tables : List (Fin 512)) (index : Fin 512) : Nat :=
  match reach child vmm.memory root tables with
  | none => 0
  | some table => vmm.memory table index

variable {vmm : Vmm} {root virt : Nat}

/-- The four indices as digits of the address. -/
theorem offsets_eq (addr : Nat) : (pml4tOffset addr).val = addr / 2 ^ 39 % 512 ∧
    (pdptOffset addr).val = addr / 2 ^ 30 % 512 ∧ (pdtOffset addr).val = addr / 2 ^ 21 % 512 ∧
    (ptOffset addr).val = addr / 2 ^ 12 % 512 := by
  simp only [pml4tOffset, pdptOffset, pdtOffset, ptOffset, Fin.val_ofNat,
    Nat.shiftRight_eq_div_pow, and_self]

/-- The four indices make up the page number. -/
theorem pageNumber_eq (addr : Nat) : pageNumber addr =
    (pml4tOffset addr).val * 2 ^ 27 + (pdptOffset addr).val * 2 ^ 18 +
      (pdtOffset addr).val * 2 ^ 9 + (ptOffset addr).val := by
  obtain ⟨isPml4t, isPdpt, isPdt, isPt⟩ := offsets_eq addr
  have first : addr / 2 ^ 21 = addr / 4096 / 512 := by simp [Nat.div_div_eq_div_mul]
  have second : addr / 2 ^ 30 = addr / 4096 / 512 / 512 := by simp [Nat.div_div_eq_div_mul]
  have third : addr / 2 ^ 39 = addr / 4096 / 512 / 512 / 512 := by
    simp [Nat.div_div_eq_div_mul]
  rw [isPml4t, isPdpt, isPdt, isPt, pageNumber, first, second, third]
  omega

/-- The four indices identify a page. -/
theorem path_inj (first second : Nat) :
    (path first = path second ∧ ptOffset first = ptOffset second) ↔
      pageNumber first = pageNumber second := by
  rw [pageNumber_eq, pageNumber_eq]
  simp only [path, List.cons.injEq, and_true, Fin.ext_iff]
  omega

/-- The flags of an address do not change its path. -/
theorem path_strip (virt : Nat) : path (stripFlags virt) = path virt := by
  have same : pageNumber (stripFlags virt) = pageNumber virt := by
    rw [pageNumber, pageNumber, stripFlags, Nat.mul_div_cancel _ (by decide)]
  exact ((path_inj _ _).mpr same).1

variable {phys table root page below pml4t : Nat} {index : Fin 512}

/-- The flags do not leak into the address. -/
theorem strip_add (aligned : phys % 4096 = 0) (flags : Nat) :
    stripFlags (addFlags phys flags) = phys := by
  have mask : flags &&& 0xfff = flags % 4096 := Nat.and_two_pow_sub_one_eq_mod flags 12
  have small : flags % 4096 < 2 ^ 12 := Nat.mod_lt _ (by decide)
  have sum : addFlags phys flags = phys + flags % 4096 := by
    have parts : phys = 2 ^ 12 * (phys / 4096) := by omega
    rw [addFlags, mask]
    conv_lhs => rw [parts]
    rw [← Nat.two_pow_add_eq_or_of_lt small]
    omega
  rw [sum, stripFlags]
  omega

/-- The entry that is written for a new table leads to it. -/
theorem child_new (nonzero : page ≠ 0) (aligned : page % 4096 = 0) :
    child (addFlags page tableFlags) = some (p2v page) := by
  have strip := strip_add aligned tableFlags
  rw [child, if_neg, tableOf, strip]
  intro isZero
  rw [isZero] at strip
  exact nonzero (strip.symm.trans (by decide))

variable {rest : List Nat}

/-- Clearing a page that is not among the tables changes nothing below the root. -/
theorem calloc_ok (ok : Ok vmm root) (isSupply : vmm.supply = page :: rest) :
    RadixTree.Tree child (update vmm.memory (p2v page) (fun _ => 0)) root 3 ∧
      (∀ tables, tables.length ≤ 3 →
        reach child (update vmm.memory (p2v page) (fun _ => 0)) root tables =
          reach child vmm.memory root tables) ∧
      Unreached child (update vmm.memory (p2v page) (fun _ => 0)) root 3 (p2v page) := by
  obtain ⟨_, _, unreached⟩ := ok.fresh page (by rw [isSupply]; exact mem_cons_self)
  have same (tables : List (Fin 512)) (short : tables.length ≤ 3) :
      reach child (update vmm.memory (p2v page) (fun _ => 0)) root tables =
        reach child vmm.memory root tables :=
    reach_unreached unreached _ (by omega)
  refine ⟨fun first second table firstShort secondShort => ?_, same, fun tables short => ?_⟩
  · rw [same first firstShort, same second secondShort]
    exact ok.tree first second table firstShort secondShort
  · rw [same tables short]
    exact unreached tables short

/-- `pmm_calloc` of a page that is not among the tables maps and unmaps nothing. -/
theorem calloc_spec (ok : Ok vmm root) (isSupply : vmm.supply = page :: rest) :
    (pmmCalloc vmm).1 = page ∧ page ≠ 0 ∧ page % 4096 = 0 ∧ (pmmCalloc vmm).2.supply = rest ∧
      (pmmCalloc vmm).2.freed = vmm.freed ∧ Ok (pmmCalloc vmm).2 root ∧
      ∀ tables index, tables.length ≤ 3 →
        leaf (pmmCalloc vmm).2 root tables index = leaf vmm root tables index := by
  obtain ⟨nonzero, aligned, unreached⟩ := ok.fresh page (by rw [isSupply]; exact mem_cons_self)
  obtain ⟨tree, same, _⟩ := calloc_ok ok isSupply
  have distinct := ok.distinct
  rw [isSupply, map_cons, nodup_cons] at distinct
  have isAfter : pmmCalloc vmm = (page, { vmm with
      memory := update vmm.memory (p2v page) (fun _ => 0), supply := rest }) := by
    rw [pmmCalloc, isSupply]
  rw [isAfter]
  refine ⟨rfl, nonzero, aligned, rfl, rfl, ⟨tree, fun other isOther => ?_, distinct.2⟩,
    fun tables index short => ?_⟩
  · obtain ⟨otherNonzero, otherAligned, otherUnreached⟩ :=
      ok.fresh other (by rw [isSupply]; exact mem_cons_of_mem _ isOther)
    refine ⟨otherNonzero, otherAligned, fun tables short => ?_⟩
    rw [same tables short]
    exact otherUnreached tables short
  · unfold leaf
    simp only [same tables short]
    cases found : reach child vmm.memory root tables with
    | none => rfl
    | some place =>
      have notPage : place ≠ p2v page := by
        rintro rfl
        exact unreached tables short found
      exact congrFun (update_of_ne notPage _ _) index

variable {tables : List (Fin 512)}

/-- A new empty table is hung into the tree: the tables stay a tree, and no page is mapped
or unmapped. -/
theorem grow_spec (ok : Ok vmm root) (here : reach child vmm.memory root tables = some table)
    (short : tables.length < 3) (absent : vmm.memory table index = 0)
    (isSupply : vmm.supply = page :: rest) :
    let memory := write (update vmm.memory (p2v page) (fun _ => 0)) table index
      (addFlags page tableFlags)
    Ok { vmm with memory := memory, supply := rest } root ∧
      (∀ others position, others.length = 3 →
        leaf { vmm with memory := memory, supply := rest } root others position =
          leaf vmm root others position) ∧
      reach child memory root (tables ++ [index]) = some (p2v page) := by
  intro memory
  have isFirst : page ∈ vmm.supply := by
    rw [isSupply]
    exact mem_cons_self
  obtain ⟨nonzero, aligned, unreached⟩ := ok.fresh page isFirst
  obtain ⟨tree, same, unreachedAfter⟩ := calloc_ok ok isSupply
  have notFresh : table ≠ p2v page := by
    rintro rfl
    exact unreached tables short.le here
  have hereAfter : reach child (update vmm.memory (p2v page) (fun _ => 0)) root tables =
      some table := by
    rw [same tables short.le, here]
  have free : child (update vmm.memory (p2v page) (fun _ => 0) table index) = none := by
    rw [update_of_ne notFresh, absent]
    rfl
  have childless (position : Fin 512) :
      child (update vmm.memory (p2v page) (fun _ => 0) (p2v page) position) = none := by
    rw [update_self]
    rfl
  have hung := child_new nonzero aligned
  have after {others : List (Fin 512)} (othersShort : others.length ≤ 3) :
      reach child memory root others =
        if others = tables ++ [index] then some (p2v page)
        else reach child vmm.memory root others := by
    rw [reach_grow tree hereAfter short free unreachedAfter childless hung othersShort,
      same others othersShort]
  have lengths : (tables ++ [index]).length ≤ 3 := by
    rw [length_append, length_singleton]
    omega
  refine ⟨⟨tree_grow tree hereAfter short free unreachedAfter childless hung,
    fun other isOther => ?_, ?_⟩, fun others position isLast => ?_, ?_⟩
  · obtain ⟨otherNonzero, otherAligned, otherUnreached⟩ :=
      ok.fresh other (by rw [isSupply]; exact mem_cons_of_mem _ isOther)
    refine ⟨otherNonzero, otherAligned, fun others othersShort => ?_⟩
    rw [after othersShort]
    split_ifs
    · intro equal
      have distinct := ok.distinct
      rw [isSupply, map_cons, nodup_cons] at distinct
      exact distinct.1 (mem_map.mpr ⟨other, isOther, (Option.some.inj equal).symm⟩)
    · exact otherUnreached others othersShort
  · have distinct := ok.distinct
    rw [isSupply, map_cons, nodup_cons] at distinct
    exact distinct.2
  · unfold leaf
    simp only [after isLast.le]
    split_ifs with isNew
    · -- The new table is empty, and there was none before.
      rw [isNew, reach_concat, here, Option.bind_some, child, if_pos absent]
      simp only [memory]
      rw [write_apply, if_neg (fun both => notFresh both.1.symm), update_self]
    · cases found : reach child vmm.memory root others with
      | none => rfl
      | some place =>
        have notTable : place ≠ table := by
          rintro rfl
          have equal := ok.tree others tables place isLast.le short.le found here
          rw [equal] at isLast
          omega
        have notPage : place ≠ p2v page := by
          rintro rfl
          exact unreached others isLast.le found
        simp only [memory]
        rw [write_apply, if_neg (fun both => notTable both.1), update_of_ne notPage]
  · rw [after lengths, if_pos rfl]

/-- One step of the walk: the tables stay a tree, no page is mapped or unmapped, and the
table that is returned is the next one on the way. -/
theorem nextTable_spec (ok : Ok vmm root) (here : reach child vmm.memory root tables = some table)
    (short : tables.length < 3) (index : Fin 512) :
    Ok (nextTable vmm table index true).2 root ∧
      (∀ others position, others.length = 3 →
        leaf (nextTable vmm table index true).2 root others position =
          leaf vmm root others position) ∧
      ∀ below, (nextTable vmm table index true).1 = some below →
        reach child (nextTable vmm table index true).2.memory root (tables ++ [index]) =
          some below := by
  unfold nextTable
  by_cases present : vmm.memory table index ≠ 0
  · simp only [if_pos present]
    refine ⟨ok, fun _ _ _ => trivial, fun below isBelow => ?_⟩
    rw [reach_concat, here, Option.bind_some, child, if_neg present]
    exact isBelow
  · rw [if_neg present, if_neg (by decide)]
    unfold pmmCalloc
    cases isSupply : vmm.supply with
    | nil =>
      simp only [if_true]
      exact ⟨ok, fun _ _ _ => trivial, fun below isBelow => by cases isBelow⟩
    | cons page rest =>
      obtain ⟨nonzero, aligned, _⟩ := ok.fresh page (by rw [isSupply]; exact mem_cons_self)
      simp only [if_neg nonzero]
      obtain ⟨okAfter, leaves, reached⟩ := grow_spec ok here short (not_not.mp present) isSupply
      refine ⟨okAfter, leaves, fun below isBelow => ?_⟩
      rw [reached, ← isBelow, tableOf, strip_add aligned]

/-- A walk that goes on from a table that was found. -/
theorem andThen_spec {found : Option Nat × Vmm} (index : Fin 512) (ok : Ok found.2 root)
    (here : ∀ table, found.1 = some table → reach child found.2.memory root tables = some table)
    (short : tables.length < 3) :
    Ok (andThen found index true).2 root ∧
      (∀ others position, others.length = 3 →
        leaf (andThen found index true).2 root others position =
          leaf found.2 root others position) ∧
      ∀ below, (andThen found index true).1 = some below →
        reach child (andThen found index true).2.memory root (tables ++ [index]) = some below := by
  obtain ⟨result, vmm⟩ := found
  cases result with
  | none => exact ⟨ok, fun _ _ _ => rfl, fun below isBelow => by cases isBelow⟩
  | some table => exact nextTable_spec ok (here table rfl) short index

/-- `vmm_find_page` with creation: it maps and unmaps nothing, and it returns the last
table on the way to the page. -/
theorem find_spec (ok : Ok vmm (p2v pml4t)) (virt : Nat) :
    Ok (vmmFindPage vmm pml4t virt true).2 (p2v pml4t) ∧
      (∀ others position, others.length = 3 →
        leaf (vmmFindPage vmm pml4t virt true).2 (p2v pml4t) others position =
          leaf vmm (p2v pml4t) others position) ∧
      ∀ table, (vmmFindPage vmm pml4t virt true).1 = some table →
        reach child (vmmFindPage vmm pml4t virt true).2.memory (p2v pml4t) (path virt) =
          some table := by
  have start : reach child vmm.memory (p2v pml4t) [] = some (p2v pml4t) := rfl
  obtain ⟨firstOk, firstLeaves, firstFound⟩ :=
    nextTable_spec ok start (by decide) (pml4tOffset (stripFlags virt))
  obtain ⟨secondOk, secondLeaves, secondFound⟩ :=
    andThen_spec (pdptOffset (stripFlags virt)) firstOk firstFound (by simp)
  obtain ⟨thirdOk, thirdLeaves, thirdFound⟩ :=
    andThen_spec (pdtOffset (stripFlags virt)) secondOk secondFound (by simp)
  rw [← path_strip virt]
  refine ⟨thirdOk, fun others position isLast => ?_, thirdFound⟩
  exact (thirdLeaves others position isLast).trans
    ((secondLeaves others position isLast).trans (firstLeaves others position isLast))

/-- A step of the walk without creation. -/
theorem nextTable_lookup (vmm : Vmm) (table : Nat) (index : Fin 512) :
    nextTable vmm table index false = (child (vmm.memory table index), vmm) := by
  unfold nextTable child
  split_ifs <;> simp_all

/-- `vmm_find_page` without creation follows the path. -/
theorem find_lookup (vmm : Vmm) (pml4t virt : Nat) :
    vmmFindPage vmm pml4t virt false =
      (reach child vmm.memory (p2v pml4t) (path virt), vmm) := by
  have goesOn (found : Option Nat) (index : Fin 512) : andThen (found, vmm) index false =
      (found.bind (fun table => child (vmm.memory table index)), vmm) := by
    cases found with
    | none => rfl
    | some table => exact nextTable_lookup vmm table index
  rw [← path_strip virt]
  simp only [vmmFindPage, nextTable_lookup, goesOn, path, reach, Option.bind_assoc]
  simp

/-- `vmm_get_page` reads the last entry. -/
theorem get_eq (vmm : Vmm) (pml4t virt : Nat) : vmmGetPage vmm pml4t virt =
    stripFlags (leaf vmm (p2v (topTable pml4t)) (path virt) (ptOffset virt)) := by
  unfold vmmGetPage leaf
  rw [find_lookup]
  cases reach child vmm.memory (p2v (topTable pml4t)) (path virt) with
  | none => simp [stripFlags]
  | some table => rfl

/-- A store in the last table on the way to a page: the tables stay a tree, and only the
entry of that page changes. -/
theorem store_spec (ok : Ok vmm root) (here : reach child vmm.memory root (path virt) = some table)
    (entry : Nat) (freed : List Nat) :
    Ok { vmm with memory := write vmm.memory table (ptOffset virt) entry, freed := freed } root ∧
      ∀ other, leaf { vmm with
          memory := write vmm.memory table (ptOffset virt) entry
          freed := freed } root (path other) (ptOffset other) =
        if pageNumber other = pageNumber virt then entry
        else leaf vmm root (path other) (ptOffset other) := by
  have same {tables : List (Fin 512)} (short : tables.length ≤ 3) :
      reach child (write vmm.memory table (ptOffset virt) entry) root tables =
        reach child vmm.memory root tables :=
    reach_leaf ok.tree here rfl short
  refine ⟨⟨fun first second place firstShort secondShort => ?_, fun page isPage => ?_, ok.distinct⟩,
    fun other => ?_⟩
  · rw [same firstShort, same secondShort]
    exact ok.tree first second place firstShort secondShort
  · obtain ⟨nonzero, aligned, unreached⟩ := ok.fresh page isPage
    refine ⟨nonzero, aligned, fun tables short => ?_⟩
    rw [same short]
    exact unreached tables short
  · have short : (path other).length ≤ 3 := Nat.le_refl 3
    unfold leaf
    simp only [same short]
    cases found : reach child vmm.memory root (path other) with
    | none =>
      rw [if_neg]
      intro equal
      rw [((path_inj other virt).mpr equal).1, here] at found
      cases found
    | some place =>
      simp only [write_apply]
      by_cases equal : pageNumber other = pageNumber virt
      · obtain ⟨samePath, sameOffset⟩ := (path_inj other virt).mpr equal
        rw [samePath, here] at found
        rw [if_pos equal, if_pos ⟨(Option.some.inj found).symm, sameOffset⟩]
      · rw [if_neg equal, if_neg]
        rintro ⟨rfl, sameOffset⟩
        have samePath := ok.tree _ (path virt) place short (Nat.le_refl 3) found here
        exact equal ((path_inj other virt).mp ⟨samePath, sameOffset⟩)

/-- A table that is present is found, and nothing changes. -/
theorem nextTable_present (create : Bool) (present : child (vmm.memory table index) = some below) :
    nextTable vmm table index create = (some below, vmm) := by
  unfold child at present
  split_ifs at present with absent
  unfold nextTable
  rw [if_pos absent, ← Option.some.inj present]

/-- Where all tables are present, the walk changes nothing. -/
theorem find_present (create : Bool)
    (here : reach child vmm.memory (p2v pml4t) (path virt) = some table) :
    vmmFindPage vmm pml4t virt create = (some table, vmm) := by
  rw [← path_strip virt] at here
  simp only [path, reach, Option.bind_eq_some_iff, Option.some.injEq] at here
  obtain ⟨pdpt, isPdpt, pdt, isPdt, pt, isPt, rfl⟩ := here
  simp only [vmmFindPage, nextTable_present create isPdpt, andThen,
    nextTable_present create isPdt, nextTable_present create isPt]

/-- Taking a page for a table changes no mapping. -/
theorem calloc_get (ok : Ok vmm (p2v (topTable pml4t))) (isSupply : vmm.supply = page :: rest)
    (virt : Nat) :
    vmmGetPage (pmmCalloc vmm).2 pml4t virt = vmmGetPage vmm pml4t virt := by
  obtain ⟨_, _, _, _, _, _, leaves⟩ := calloc_spec ok isSupply
  rw [get_eq, get_eq, leaves (path virt) (ptOffset virt) (Nat.le_refl 3)]

/-- Creating the tables of an address changes no mapping. -/
theorem find_get (ok : Ok vmm (p2v (topTable pml4t))) (virt other : Nat) :
    vmmGetPage (vmmFindPage vmm (topTable pml4t) virt true).2 pml4t other =
      vmmGetPage vmm pml4t other := by
  obtain ⟨_, leaves, _⟩ := find_spec ok virt
  rw [get_eq, get_eq, leaves _ _ rfl]

/-- `vmm_set_page`: a page that could be set is found, and no other page changes. -/
theorem set_spec (ok : Ok vmm (p2v (topTable pml4t))) (virt : Nat) (flags : Nat)
    (aligned : phys % 4096 = 0) :
    Ok (vmmSetPage vmm pml4t virt phys flags).2 (p2v (topTable pml4t)) ∧
      ((vmmSetPage vmm pml4t virt phys flags).1 ≠ 0 →
        vmmGetPage (vmmSetPage vmm pml4t virt phys flags).2 pml4t virt = phys) ∧
      ∀ other, pageNumber other ≠ pageNumber virt →
        vmmGetPage (vmmSetPage vmm pml4t virt phys flags).2 pml4t other =
          vmmGetPage vmm pml4t other := by
  obtain ⟨okAfter, _, found⟩ := find_spec ok virt
  have kept := find_get ok virt
  unfold vmmSetPage
  rcases isFound : vmmFindPage vmm (topTable pml4t) virt true with ⟨_ | table, after⟩
  · rw [isFound] at okAfter kept
    exact ⟨okAfter, fun returned => absurd rfl returned, fun other _ => kept other⟩
  · rw [isFound] at okAfter found kept
    simp only
    generalize (if kernelMapBase ≤ virt ∧ flags &&& pageUser = 0 then flags ||| pageGlobal
      else flags) = allFlags
    obtain ⟨okStored, entries⟩ := store_spec okAfter (found table rfl) (addFlags phys allFlags)
      after.freed
    refine ⟨okStored, fun _ => ?_, fun other isOther => ?_⟩
    · rw [get_eq, entries virt, if_pos rfl, strip_add aligned]
    · rw [← kept other, get_eq, get_eq, entries other, if_neg isOther]

/-- `vmm_free_page`: a page that was mapped is not mapped any more, and no other page changes. -/
theorem free_spec (ok : Ok vmm (p2v (topTable pml4t))) (virt : Nat) :
    Ok (vmmFreePage vmm pml4t virt) (p2v (topTable pml4t)) ∧
      (vmmGetPage vmm pml4t virt ≠ 0 → vmmGetPage (vmmFreePage vmm pml4t virt) pml4t virt = 0) ∧
      ∀ other, pageNumber other ≠ pageNumber virt →
        vmmGetPage (vmmFreePage vmm pml4t virt) pml4t other = vmmGetPage vmm pml4t other := by
  obtain ⟨okAfter, _, found⟩ := find_spec ok virt
  have kept := find_get ok virt
  unfold vmmFreePage
  rcases isFound : vmmFindPage vmm (topTable pml4t) virt true with ⟨_ | table, after⟩
  · rw [isFound] at okAfter kept
    refine ⟨okAfter, fun mapped => ?_, fun other _ => kept other⟩
    cases reached : reach child vmm.memory (p2v (topTable pml4t)) (path virt) with
    | none =>
      rw [get_eq, leaf, reached] at mapped
      simp [stripFlags] at mapped
    | some table =>
      rw [find_present true reached] at isFound
      cases isFound
  · rw [isFound] at okAfter found kept
    simp only
    split
    · obtain ⟨okStored, entries⟩ := store_spec okAfter (found table rfl) 0
        (stripFlags (after.memory table (ptOffset virt)) :: after.freed)
      refine ⟨okStored, fun _ => ?_, fun other isOther => ?_⟩
      · rw [get_eq, entries virt, if_pos rfl]
        rfl
      · rw [← kept other, get_eq, get_eq, entries other, if_neg isOther]
    · rename_i isEmpty
      refine ⟨okAfter, fun _ => ?_, fun other _ => kept other⟩
      rw [get_eq, leaf, found table rfl]
      simp only [not_not.mp isEmpty]
      rfl

/-- On page tables that form a tree, with fresh pages from `pmm_calloc`, the three
functions are a map from 48-bit page numbers to physical pages. After a successful
`vmm_set_page` of an aligned page the page is found, after a `vmm_free_page` of a mapped
page it is not mapped, and no call changes another page. The tables stay a tree, so this
holds for the calls that follow as well. -/
theorem page_tables_refine_map {vmm : Vmm} {pml4t : Nat} (ok : Ok vmm (p2v (topTable pml4t)))
    (virt : Nat) :
    (∀ phys flags, phys % 4096 = 0 →
      Ok (vmmSetPage vmm pml4t virt phys flags).2 (p2v (topTable pml4t)) ∧
      ((vmmSetPage vmm pml4t virt phys flags).1 ≠ 0 →
        vmmGetPage (vmmSetPage vmm pml4t virt phys flags).2 pml4t virt = phys) ∧
      ∀ other, pageNumber other ≠ pageNumber virt →
        vmmGetPage (vmmSetPage vmm pml4t virt phys flags).2 pml4t other =
          vmmGetPage vmm pml4t other) ∧
    Ok (vmmFreePage vmm pml4t virt) (p2v (topTable pml4t)) ∧
      (vmmGetPage vmm pml4t virt ≠ 0 → vmmGetPage (vmmFreePage vmm pml4t virt) pml4t virt = 0) ∧
      ∀ other, pageNumber other ≠ pageNumber virt →
        vmmGetPage (vmmFreePage vmm pml4t virt) pml4t other = vmmGetPage vmm pml4t other :=
  ⟨fun _ flags aligned => set_spec ok virt flags aligned, free_spec ok virt⟩

/-- A top table that is empty, and one page to allocate for each level. -/
def emptyTables : Vmm := ⟨fun _ _ => 0, [0x2000, 0x3000, 0x4000], []⟩

theorem empty_reach (found : reach child (fun _ _ => 0) root tables = some table) :
    tables = [] ∧ table = root := by
  cases tables with
  | nil => exact ⟨rfl, (Option.some.inj found).symm⟩
  | cons index rest => cases found

/-- Empty tables, and pages to allocate that are not the top table. -/
theorem empty_ok {supply freed : List Nat}
    (fresh : ∀ page ∈ supply, page ≠ 0 ∧ page % 4096 = 0 ∧ p2v page ≠ root)
    (distinct : (supply.map p2v).Nodup) : Ok ⟨fun _ _ => 0, supply, freed⟩ root := by
  refine ⟨fun first second table _ _ isFirst isSecond => ?_, fun page isPage => ?_, distinct⟩
  · exact (empty_reach isFirst).1.trans (empty_reach isSecond).1.symm
  · obtain ⟨nonzero, aligned, apart⟩ := fresh page isPage
    exact ⟨nonzero, aligned, fun _ _ found => apart (empty_reach found).2⟩

/-- The theorem applies when a page is mapped in empty tables. -/
theorem page_tables_refine_map_first :
    (vmmSetPage emptyTables 0 0x5000 0x9000 3).1 ≠ 0 ∧
      vmmGetPage (vmmSetPage emptyTables 0 0x5000 0x9000 3).2 0 0x5000 = 0x9000 :=
  ⟨by decide, ((page_tables_refine_map (empty_ok (by decide) (by decide)) 0x5000).1 0x9000 3
    rfl).2.1 (by decide)⟩

end Balrog.PageTables
