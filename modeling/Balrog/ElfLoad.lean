import Balrog.ByteMemory
import Mathlib.Algebra.GroupWithZero.Nat
import Mathlib.Data.List.Pairwise

/-!
# Loading the segments of an ELF image

`__elf_load_prog` walks a segment twice in pieces: over its size in memory to map the pages
that are missing, and over its size in the file to copy the bytes. A piece ends at a page
boundary only while more than a page is left. A segment of at most one page that crosses a
page boundary is therefore taken as a single piece: its second page is not mapped, and the
copy runs on behind the first page.

The headers are given as read from the image. Page tables are the map they implement, with
address 0 for a page that is not mapped; `tables` says for which pages `vmm_set_page` finds or
gets its tables. `supply` lists what `pmm_calloc` will return, and it returns 0 when that is
used up. Left out: the debug output and the access flags.
-/

namespace Balrog.ElfLoad

open ByteMemory Function List

/-- `PAGE_SIZE` -/
def pageSize : Nat := 4096

/-- Physical memory, the physical page behind each user page, and the pages to come. -/
structure Loader where
  memory : Bytes
  space : Nat → Nat
  supply : List Nat

/-- `elf_program`: the fields that the loader reads. -/
structure ElfProgram where
  pType : Nat
  pOffset : Nat
  pVaddr : Nat
  pFilesz : Nat
  pMemsz : Nat
deriving DecidableEq, Repr

/-- `elf_header`: the fields that are checked. -/
structure ElfHeader where
  eiMag : Nat
  eiClass : Nat
  eMachine : Nat
deriving DecidableEq, Repr

/-- `ELF_MAGIC` -/
def elfMagic : Nat := 0x464c457f

/-- `ELF_CLASS_64` -/
def elfClass64 : Nat := 2

/-- `ELF_MACHINE_X86_64` -/
def elfMachineX86_64 : Nat := 0x3e

/-- `ELF_PT_LOAD` -/
def elfPtLoad : Nat := 1

/-- `pmm_calloc` -/
def pmmCalloc (loader : Loader) : Nat × Loader :=
  match loader.supply with
  | [] => (0, loader)
  | phys :: rest =>
    (phys, { loader with memory := fill loader.memory phys pageSize 0, supply := rest })

/-- `vmm_get_page`, and `pmm_calloc` with `vmm_set_page` where there is no page. -/
def ensurePage (tables : Nat → Bool) (loader : Loader) (vaddr : Nat) : Nat × Loader :=
  let phys := loader.space (vaddr / pageSize)
  if phys = 0 then
    let (phys, loader) := pmmCalloc loader
    if tables (vaddr / pageSize) = true then
      (phys, { loader with space := update loader.space (vaddr / pageSize) phys })
    else (phys, loader)
  else (phys, loader)

/-- `size`: the bytes of one round, in 16 bits. -/
def pieceSize (vaddr fsize : Nat) : Nat :=
  (if 0x1000 < fsize then pageSize - vaddr % 0x1000 else fsize) % 2 ^ 16

variable {index fsize other page piece : Nat} {middle : Loader}
  {prog first second : ElfProgram}

/-- Every piece has some bytes, and no more than are left. -/
theorem pieceSize_bound (vaddr : Nat) (positive : 0 < fsize) :
    0 < pieceSize vaddr fsize ∧ pieceSize vaddr fsize ≤ fsize := by
  unfold pieceSize pageSize
  split <;> omega

/-- The loop over `p_memsz`. -/
def mapLoop (tables : Nat → Bool) (vaddr fsize : Nat) (loader : Loader) : Loader :=
  if _ : 0 < fsize then
    mapLoop tables (vaddr + pieceSize vaddr fsize) (fsize - pieceSize vaddr fsize)
      (ensurePage tables loader vaddr).2
  else loader
termination_by fsize
decreasing_by exact Nat.sub_lt ‹0 < fsize› (pieceSize_bound vaddr ‹0 < fsize›).1

/-- The bytes of the file from an offset on. -/
def slice (data : Bytes) (offset size : Nat) : List UInt8 :=
  (List.range size).map fun index => data (offset + index)

/-- The loop over `p_filesz`. -/
def copyLoop (tables : Nat → Bool) (data : Bytes) (vaddr fsize offset : Nat) (loader : Loader) :
    Loader :=
  if _ : 0 < fsize then
    let size := pieceSize vaddr fsize
    let (phys, loader) := ensurePage tables loader vaddr
    let loader := { loader with
      memory := copy loader.memory (phys + vaddr % 0x1000) (slice data offset size) }
    copyLoop tables data (vaddr + size) (fsize - size) (offset + size) loader
  else loader
termination_by fsize
decreasing_by exact Nat.sub_lt ‹0 < fsize› (pieceSize_bound vaddr ‹0 < fsize›).1

/-- `__elf_load_prog` -/
def elfLoadProg (tables : Nat → Bool) (data : Bytes) (loader : Loader) (prog : ElfProgram) :
    Loader :=
  copyLoop tables data prog.pVaddr prog.pFilesz prog.pOffset
    (mapLoop tables prog.pVaddr prog.pMemsz loader)

/-- `elf_load_binary`; there is no result when a check of the header fails. -/
def elfLoadBinary (tables : Nat → Bool) (header : ElfHeader) (programs : List ElfProgram)
    (data : Bytes) (loader : Loader) : Option Loader :=
  if header.eiMag ≠ elfMagic then none
  else if header.eiClass ≠ elfClass64 then none
  else if header.eMachine ≠ elfMachineX86_64 then none
  else
    some (programs.foldl
      (fun loader prog =>
        if prog.pType = elfPtLoad then elfLoadProg tables data loader prog else loader) loader)

/-- The physical address behind a user address. -/
def Loader.phys (loader : Loader) (virt : Nat) : Nat :=
  loader.space (virt / pageSize) + virt % pageSize

/-- The byte that the process reads at an address, if its page is mapped. -/
def Loader.user (loader : Loader) (virt : Nat) : Option UInt8 :=
  if loader.space (virt / pageSize) = 0 then none else some (loader.memory (loader.phys virt))

/-- A page that a range has a byte in. -/
def Spans (vaddr size page : Nat) : Prop :=
  ∃ virt, vaddr ≤ virt ∧ virt < vaddr + size ∧ virt / pageSize = page

/-- A page that a segment has a byte in. -/
def ElfProgram.HasPage (prog : ElfProgram) (page : Nat) : Prop :=
  Spans prog.pVaddr prog.pMemsz page

/-- The segments have arrived: their bytes of the file, zero behind them, every page mapped,
and no change outside the pages of the segments. -/
def Arrived (segments : List ElfProgram) (data : Bytes) (before after : Loader) : Prop :=
  (∀ prog ∈ segments,
    (∀ index < prog.pFilesz,
      after.user (prog.pVaddr + index) = some (data (prog.pOffset + index))) ∧
    (∀ index < prog.pMemsz, prog.pFilesz ≤ index →
      after.user (prog.pVaddr + index) = some 0) ∧
    ∀ page, prog.HasPage page → after.space page ≠ 0) ∧
  ∀ probe, after.memory probe ≠ before.memory probe →
    ∃ prog ∈ segments, ∃ page, prog.HasPage page ∧
      after.space page = probe / pageSize * pageSize

/-- The mapped pages are distinct pages, and the pages to come are other ones. -/
structure Valid (loader : Loader) : Prop where
  aligned : ∀ page, loader.space page % pageSize = 0
  distinct : ∀ page other, loader.space page ≠ 0 → loader.space page = loader.space other →
    page = other
  fresh : ∀ phys ∈ loader.supply, phys ≠ 0 ∧ phys % pageSize = 0 ∧
    ∀ page, loader.space page ≠ phys
  nodup : loader.supply.Nodup

variable {loader : Loader}

variable {virt vaddr size offset : Nat}

/-- Different user addresses have different physical addresses. -/
theorem Valid.phys_inj (valid : Valid loader) (mapped : loader.space (virt / pageSize) ≠ 0)
    (same : loader.phys virt = loader.phys other) : virt = other := by
  have aligned := valid.aligned (virt / pageSize)
  have otherAligned := valid.aligned (other / pageSize)
  have samePage := valid.distinct (virt / pageSize) (other / pageSize) mapped
  unfold Loader.phys at same
  unfold pageSize at *
  omega

/-- The pages of a list that are not mapped yet. -/
def missing (wanted : List Nat) (loader : Loader) : Nat :=
  wanted.countP fun page => loader.space page = 0

/-- Pages have been mapped: those that were mapped stay, the new ones are zero, and nothing
else changes. A supply that was enough for some pages, these among them, still is. -/
structure Grown (pages : Nat → Prop) (before after : Loader) : Prop where
  valid : Valid after
  keeps : ∀ page, before.space page ≠ 0 → after.space page = before.space page
  mapped : ∀ page, pages page → after.space page ≠ 0
  kept : ∀ page, before.space page ≠ 0 → ∀ offset < pageSize,
    after.memory (after.space page + offset) = before.memory (before.space page + offset)
  zero : ∀ page, before.space page = 0 → after.space page ≠ 0 → ∀ offset < pageSize,
    after.memory (after.space page + offset) = 0
  outside : ∀ probe, after.memory probe ≠ before.memory probe →
    ∃ page, pages page ∧ after.space page = probe / pageSize * pageSize
  supply : ∀ wanted, (∀ page, pages page → page ∈ wanted) →
    missing wanted before ≤ before.supply.length → missing wanted after ≤ after.supply.length

theorem Grown.same {pages : Nat → Prop} (valid : Valid loader)
    (mapped : ∀ page, pages page → loader.space page ≠ 0) : Grown pages loader loader where
  valid := valid
  keeps _ _ := rfl
  mapped := mapped
  kept _ _ _ _ := rfl
  zero _ unmapped isMapped := absurd unmapped isMapped
  outside _ changed := absurd rfl changed
  supply _ _ enough := enough

/-- Two growths after each other map the pages of both. -/
theorem Grown.trans {pages more all : Nat → Prop} {before after : Loader}
    (first : Grown pages before middle) (second : Grown more middle after)
    (union : ∀ page, all page ↔ pages page ∨ more page) : Grown all before after where
  valid := second.valid
  keeps page mapped := by
    have same := first.keeps page mapped
    rw [second.keeps page (same ▸ mapped), same]
  mapped page member := by
    rcases (union page).mp member with early | late
    · have mapped := first.mapped page early
      rw [second.keeps page mapped]
      exact mapped
    · exact second.mapped page late
  kept page mapped offset below := by
    have same := first.keeps page mapped
    rw [second.kept page (same ▸ mapped) offset below, first.kept page mapped offset below]
  zero page unmapped mapped offset below := by
    by_cases early : middle.space page = 0
    · exact second.zero page early mapped offset below
    · rw [second.kept page early offset below]
      exact first.zero page unmapped early offset below
  outside probe changed := by
    by_cases early : middle.memory probe = before.memory probe
    · obtain ⟨page, member, place⟩ := second.outside probe (early.symm ▸ changed)
      exact ⟨page, (union page).mpr (.inr member), place⟩
    · obtain ⟨page, member, place⟩ := first.outside probe early
      refine ⟨page, (union page).mpr (.inl member), ?_⟩
      rw [second.keeps page (first.mapped page member), place]
  supply wanted inside enough :=
    second.supply wanted (fun page late => inside page ((union page).mpr (.inr late)))
      (first.supply wanted (fun page early => inside page ((union page).mpr (.inl early))) enough)

/-- The loader after it has mapped the next page and cleared it. -/
def mapNext (loader : Loader) (page phys : Nat) (rest : List Nat) : Loader :=
  { memory := fill loader.memory phys pageSize 0
    space := update loader.space page phys
    supply := rest }

/-- Mapping the next page keeps the loader valid. -/
theorem Valid.mapNext (valid : Valid loader) {phys : Nat} {rest : List Nat}
    (supply : loader.supply = phys :: rest) (page : Nat) :
    Valid (mapNext loader page phys rest) := by
  obtain ⟨_, aligned, unused⟩ := valid.fresh phys (supply ▸ mem_cons_self)
  have nodup := nodup_cons.mp (supply ▸ valid.nodup)
  refine ⟨fun probe => ?_, fun probe other => ?_, fun later member => ?_, nodup.2⟩
  · simp only [ElfLoad.mapNext, update_apply]
    split
    · exact aligned
    · exact valid.aligned probe
  · simp only [ElfLoad.mapNext, update_apply]
    split <;> split
    · next isPage isOther => exact fun _ _ => isPage.trans isOther.symm
    · exact fun _ same => absurd same.symm (unused other)
    · exact fun _ same => absurd same (unused probe)
    · exact valid.distinct probe other
  · obtain ⟨laterNonzero, laterAligned, laterUnused⟩ :=
      valid.fresh later (supply ▸ mem_cons_of_mem _ member)
    refine ⟨laterNonzero, laterAligned, fun probe => ?_⟩
    simp only [ElfLoad.mapNext, update_apply]
    split
    · rintro rfl
      exact nodup.1 member
    · exact laterUnused probe

/-- Mapping a page of a list leaves fewer of its pages to be mapped. -/
theorem missing_lt {wanted : List Nat} {after : Loader} (member : page ∈ wanted)
    (unmapped : loader.space page = 0) (mapped : after.space page ≠ 0)
    (keeps : ∀ page, loader.space page ≠ 0 → after.space page ≠ 0) :
    missing wanted after < missing wanted loader := by
  have few : ∀ wanted, missing wanted after ≤ missing wanted loader := by
    intro wanted
    refine countP_mono_left fun other _ isFree => ?_
    simp only [decide_eq_true_eq] at isFree ⊢
    exact not_not.mp fun isMapped => keeps other isMapped isFree
  induction wanted with
  | nil => exact absurd member not_mem_nil
  | cons first rest ih =>
    simp only [missing, countP_cons, decide_eq_true_eq]
    have fewer := few rest
    simp only [missing] at ih fewer
    by_cases isFirst : first = page
    · rw [isFirst, if_neg mapped, if_pos unmapped]
      omega
    · have less := ih ((mem_cons.mp member).resolve_left fun same => isFirst same.symm)
      have one := keeps first
      split <;> split <;> omega

/-- Mapping the next page adds that page only. -/
theorem mapNext_grown (valid : Valid loader) {phys : Nat} {rest : List Nat}
    (supply : loader.supply = phys :: rest) (unmapped : loader.space page = 0) :
    Grown (fun probe => probe = page) loader (mapNext loader page phys rest) where
  valid := valid.mapNext supply page
  keeps probe mapped := by
    have other : probe ≠ page := fun same => mapped (same ▸ unmapped)
    exact update_of_ne other _ _
  mapped := by
    rintro probe rfl
    simpa only [mapNext, update_self] using (valid.fresh phys (supply ▸ mem_cons_self)).1
  kept probe mapped offset below := by
    obtain ⟨_, aligned, unused⟩ := valid.fresh phys (supply ▸ mem_cons_self)
    have other : probe ≠ page := fun same => mapped (same ▸ unmapped)
    have apart := unused probe
    have probeAligned := valid.aligned probe
    simp only [mapNext, update_of_ne other, fill]
    refine if_neg ?_
    unfold pageSize at *
    omega
  zero probe wasUnmapped mapped offset below := by
    by_cases isPage : probe = page
    · simp only [mapNext, isPage, update_self, fill]
      exact if_pos (by omega)
    · simp only [mapNext, update_of_ne isPage] at mapped
      exact absurd wasUnmapped mapped
  outside probe changed := by
    obtain ⟨_, aligned, _⟩ := valid.fresh phys (supply ▸ mem_cons_self)
    refine ⟨page, rfl, ?_⟩
    simp only [mapNext, fill] at changed ⊢
    split at changed
    · rw [update_self]
      unfold pageSize at *
      omega
    · exact absurd rfl changed
  supply wanted inside enough := by
    have nonzero := (valid.fresh phys (supply ▸ mem_cons_self)).1
    have less : missing wanted (mapNext loader page phys rest) < missing wanted loader := by
      refine missing_lt (inside page rfl) unmapped ?_ fun probe mapped => ?_
      · simpa only [mapNext, update_self] using nonzero
      · have other : probe ≠ page := fun same => mapped (same ▸ unmapped)
        simpa only [mapNext, update_of_ne other] using mapped
    rw [supply, length_cons] at enough
    exact Nat.le_of_lt_succ (Nat.lt_of_lt_of_le less enough)

variable {tables : Nat → Bool} {wanted : List Nat}

/-- One page, which is mapped already or taken from the supply. -/
theorem ensurePage_grown (valid : Valid loader) (table : tables (vaddr / pageSize) = true)
    (member : vaddr / pageSize ∈ wanted) (enough : missing wanted loader ≤ loader.supply.length) :
    Grown (fun page => page = vaddr / pageSize) loader (ensurePage tables loader vaddr).2 := by
  by_cases unmapped : loader.space (vaddr / pageSize) = 0
  · cases supply : loader.supply with
    | nil =>
      have some' : 0 < missing wanted loader :=
        countP_pos_iff.mpr ⟨_, member, decide_eq_true unmapped⟩
      rw [supply, length_nil] at enough
      omega
    | cons phys rest =>
      have after : (ensurePage tables loader vaddr).2 =
          mapNext loader (vaddr / pageSize) phys rest := by
        simp [ensurePage, unmapped, pmmCalloc, supply, table, mapNext]
      rw [after]
      exact mapNext_grown valid supply unmapped
  · have after : (ensurePage tables loader vaddr).2 = loader := by simp [ensurePage, unmapped]
    rw [after]
    exact Grown.same valid fun page isPage => isPage ▸ unmapped

/-- A range is taken in pieces that end at page boundaries. -/
def Whole (vaddr size : Nat) : Prop := 0x1000 < size ∨ vaddr % 0x1000 + size ≤ 0x1000

/-- A piece lies in one page, and the rest is a range of the same kind that starts behind
that page. -/
theorem piece_spec (positive : 0 < size) (whole : Whole vaddr size) :
    vaddr % pageSize + pieceSize vaddr size ≤ pageSize ∧
      Whole (vaddr + pieceSize vaddr size) (size - pieceSize vaddr size) := by
  unfold Whole pieceSize pageSize at *
  split <;> omega

/-- The pages of a range are the page of its first piece and the pages of the rest. -/
theorem spans_piece (positive : 0 < size) (whole : Whole vaddr size) (page : Nat) :
    Spans vaddr size page ↔ page = vaddr / pageSize ∨
      Spans (vaddr + pieceSize vaddr size) (size - pieceSize vaddr size) page := by
  have bound := pieceSize_bound vaddr positive
  have inPage := (piece_spec positive whole).1
  constructor
  · rintro ⟨virt, low, high, rfl⟩
    by_cases first : virt < vaddr + pieceSize vaddr size
    · left
      unfold pageSize at *
      omega
    · exact .inr ⟨virt, by omega, by omega, rfl⟩
  · rintro (rfl | ⟨virt, low, high, rfl⟩)
    · exact ⟨vaddr, Nat.le_refl _, by omega, rfl⟩
    · exact ⟨virt, by omega, by omega, rfl⟩

/-- The loop maps every page of its range. The induction follows the size that is left. -/
theorem mapLoop_grown (size vaddr : Nat) (loader : Loader) (valid : Valid loader)
    (whole : Whole vaddr size) (table : ∀ page, Spans vaddr size page → tables page = true)
    (inside : ∀ page, Spans vaddr size page → page ∈ wanted)
    (enough : missing wanted loader ≤ loader.supply.length) :
    Grown (Spans vaddr size) loader (mapLoop tables vaddr size loader) := by
  induction size using Nat.strongRecOn generalizing vaddr loader with
  | ind size ih =>
    rw [mapLoop]
    split
    · next positive =>
      have bound := pieceSize_bound vaddr positive
      obtain ⟨_, wholeRest⟩ := piece_spec positive whole
      have pages := spans_piece positive whole
      have here : Spans vaddr size (vaddr / pageSize) := (pages _).mpr (.inl rfl)
      have first := ensurePage_grown valid (table _ here) (inside _ here) enough
      have left := first.supply wanted (fun page isPage => isPage ▸ inside _ here) enough
      have rest := ih _ (by omega) _ (ensurePage tables loader vaddr).2 first.valid
        wholeRest (fun page member => table page ((pages page).mpr (.inr member)))
        (fun page member => inside page ((pages page).mpr (.inr member))) left
      exact first.trans rest pages
    · next empty =>
      refine Grown.same valid fun page => ?_
      rintro ⟨virt, low, high, _⟩
      omega

/-- Bytes have been copied to a range of user addresses. -/
structure Copied (data : Bytes) (vaddr size offset : Nat) (before after : Loader) : Prop where
  space : after.space = before.space
  supply : after.supply = before.supply
  inside : ∀ index < size, after.memory (before.phys (vaddr + index)) = data (offset + index)
  outside : ∀ probe, after.memory probe ≠ before.memory probe →
    ∃ index < size, probe = before.phys (vaddr + index)

theorem slice_getD (data : Bytes) (below : index < size) :
    (slice data offset size).getD index 0 = data (offset + index) := by
  simp [slice, below]

variable {data : Bytes}

/-- A piece inside one page is copied to where the process reads it. -/
theorem copy_copied (inPage : vaddr % pageSize + size ≤ pageSize) :
    Copied data vaddr size offset loader
      { loader with
        memory := copy loader.memory (loader.phys vaddr) (slice data offset size) } := by
  have place : ∀ index < size, loader.phys (vaddr + index) = loader.phys vaddr + index := by
    intro index below
    have samePage : (vaddr + index) / pageSize = vaddr / pageSize := by
      unfold pageSize at *
      omega
    rw [Loader.phys, Loader.phys, samePage]
    unfold pageSize at *
    omega
  refine ⟨rfl, rfl, fun index below => ?_, fun probe changed => ?_⟩
  · rw [place index below, ← slice_getD data below]
    exact copy_inside (by simpa [slice])
  · by_contra missing
    refine changed (copy_outside ?_)
    by_contra inside
    rw [slice, length_map, length_range] at inside
    have below : probe - loader.phys vaddr < size := by omega
    refine missing ⟨probe - loader.phys vaddr, below, ?_⟩
    rw [place _ below]
    omega

/-- Two pieces that follow each other. -/
theorem Copied.trans {before after : Loader} (valid : Valid before)
    (mapped : ∀ page, Spans vaddr size page → before.space page ≠ 0) (below : piece ≤ size)
    (first : Copied data vaddr piece offset before middle)
    (second : Copied data (vaddr + piece) (size - piece) (offset + piece) middle after) :
    Copied data vaddr size offset before after := by
  have same (virt : Nat) : middle.phys virt = before.phys virt := by
    rw [Loader.phys, Loader.phys, first.space]
  refine ⟨second.space.trans first.space, second.supply.trans first.supply, fun index inside => ?_,
    fun probe changed => ?_⟩
  · by_cases early : index < piece
    · rw [← first.inside index early]
      by_contra changed
      obtain ⟨other, otherInside, place⟩ := second.outside _ changed
      rw [same] at place
      have here := mapped _ ⟨vaddr + index, by omega, by omega, rfl⟩
      have equal := valid.phys_inj here place
      omega
    · have late := second.inside (index - piece) (by omega)
      rw [same, show vaddr + piece + (index - piece) = vaddr + index by omega,
        show offset + piece + (index - piece) = offset + index by omega] at late
      exact late
  · by_cases early : middle.memory probe = before.memory probe
    · obtain ⟨index, inside, place⟩ := second.outside probe (early.symm ▸ changed)
      refine ⟨piece + index, by omega, ?_⟩
      rw [place, same, Nat.add_assoc]
    · obtain ⟨index, inside, place⟩ := first.outside probe early
      exact ⟨index, by omega, place⟩

/-- The loop copies its whole range, page by page. -/
theorem copyLoop_copied (size vaddr offset : Nat) (loader : Loader) (valid : Valid loader)
    (whole : Whole vaddr size) (mapped : ∀ page, Spans vaddr size page → loader.space page ≠ 0) :
    Copied data vaddr size offset loader (copyLoop tables data vaddr size offset loader) := by
  induction size using Nat.strongRecOn generalizing vaddr offset loader with
  | ind size ih =>
    rw [copyLoop]
    split
    · next positive =>
      have bound := pieceSize_bound vaddr positive
      obtain ⟨inPage, wholeRest⟩ := piece_spec positive whole
      have pages := spans_piece positive whole
      have here := mapped _ ((pages _).mpr (.inl rfl))
      have ensured : ensurePage tables loader vaddr =
          (loader.space (vaddr / pageSize), loader) := by
        simp [ensurePage, here]
      simp only [ensured]
      have first : Copied data vaddr (pieceSize vaddr size) offset loader _ := copy_copied inPage
      refine Copied.trans valid mapped bound.2 first (ih _ (by omega) _ _ _ ?_
        wholeRest fun page member => mapped page ((pages page).mpr (.inr member)))
      exact { valid with }
    · next empty =>
      exact ⟨rfl, rfl, fun index below => absurd below (by omega),
        fun _ changed => absurd rfl changed⟩

/-- A segment that the loops take in pieces that end at page boundaries. It lies in the user's
half of the address space, where an address and the 48 bits that select a page agree. -/
structure Loadable (tables : Nat → Bool) (prog : ElfProgram) : Prop where
  user : prog.pVaddr + prog.pMemsz ≤ 2 ^ 47
  sizes : prog.pFilesz ≤ prog.pMemsz
  memory : Whole prog.pVaddr prog.pMemsz
  file : Whole prog.pVaddr prog.pFilesz
  tables : ∀ page, prog.HasPage page → tables page = true

/-- What loading a segment leaves: its pages are mapped, its bytes of the file are in place,
and every other byte that the process can read is as before, or zero where nothing was. -/
structure Loaded (data : Bytes) (prog : ElfProgram) (before after : Loader) : Prop where
  valid : Valid after
  keeps : ∀ page, before.space page ≠ 0 → after.space page = before.space page
  mapped : ∀ page, prog.HasPage page → after.space page ≠ 0
  file : ∀ index < prog.pFilesz,
    after.memory (after.phys (prog.pVaddr + index)) = data (prog.pOffset + index)
  kept : ∀ virt, before.space (virt / pageSize) ≠ 0 →
    virt < prog.pVaddr ∨ prog.pVaddr + prog.pFilesz ≤ virt →
    after.memory (after.phys virt) = before.memory (before.phys virt)
  zero : ∀ virt, before.space (virt / pageSize) = 0 → after.space (virt / pageSize) ≠ 0 →
    virt < prog.pVaddr ∨ prog.pVaddr + prog.pFilesz ≤ virt → after.memory (after.phys virt) = 0
  outside : ∀ probe, after.memory probe ≠ before.memory probe →
    ∃ page, prog.HasPage page ∧ after.space page = probe / pageSize * pageSize
  supply : ∀ wanted, (∀ page, prog.HasPage page → page ∈ wanted) →
    missing wanted before ≤ before.supply.length → missing wanted after ≤ after.supply.length

/-- A loadable segment is loaded while pages are left. -/
theorem elfLoadProg_loaded (valid : Valid loader) (loadable : Loadable tables prog)
    (inside : ∀ page, prog.HasPage page → page ∈ wanted)
    (enough : missing wanted loader ≤ loader.supply.length) :
    Loaded data prog loader (elfLoadProg tables data loader prog) := by
  have grown := mapLoop_grown prog.pMemsz prog.pVaddr loader valid loadable.memory
    loadable.tables inside enough
  have sizes := loadable.sizes
  have mapped : ∀ page, Spans prog.pVaddr prog.pFilesz page →
      (mapLoop tables prog.pVaddr prog.pMemsz loader).space page ≠ 0 := by
    rintro page ⟨virt, low, high, isPage⟩
    exact grown.mapped page ⟨virt, low, by omega, isPage⟩
  have copied : Copied data prog.pVaddr prog.pFilesz prog.pOffset _
      (elfLoadProg tables data loader prog) :=
    copyLoop_copied prog.pFilesz prog.pVaddr prog.pOffset _ grown.valid loadable.file mapped
  generalize mapLoop tables prog.pVaddr prog.pMemsz loader = middle at *
  generalize elfLoadProg tables data loader prog = after at *
  have same (virt : Nat) : after.phys virt = middle.phys virt := by
    rw [Loader.phys, Loader.phys, copied.space]
  have offset (virt : Nat) : virt % pageSize < pageSize := Nat.mod_lt _ (by decide)
  -- outside the file bytes the copy changes nothing that the process can read
  have untouched : ∀ virt, middle.space (virt / pageSize) ≠ 0 →
      virt < prog.pVaddr ∨ prog.pVaddr + prog.pFilesz ≤ virt →
      after.memory (middle.phys virt) = middle.memory (middle.phys virt) := by
    intro virt isMapped apart
    by_contra changed
    obtain ⟨index, inside, place⟩ := copied.outside _ changed
    have equal := grown.valid.phys_inj isMapped place
    omega
  refine ⟨?_, ?_, ?_, ?_, ?_, ?_, ?_, ?_⟩
  · exact ⟨copied.space ▸ grown.valid.aligned, copied.space ▸ grown.valid.distinct,
      copied.space ▸ copied.supply ▸ grown.valid.fresh, copied.supply ▸ grown.valid.nodup⟩
  · rw [copied.space]
    exact grown.keeps
  · rw [copied.space]
    exact grown.mapped
  · intro index below
    rw [same]
    exact copied.inside index below
  · intro virt wasMapped apart
    have keeps := grown.keeps _ wasMapped
    rw [same, untouched virt (keeps ▸ wasMapped) apart]
    exact grown.kept _ wasMapped _ (offset virt)
  · intro virt unmapped isMapped apart
    rw [copied.space] at isMapped
    rw [same, untouched virt isMapped apart]
    exact grown.zero _ unmapped isMapped _ (offset virt)
  · intro probe changed
    rw [copied.space]
    by_cases early : middle.memory probe = loader.memory probe
    · obtain ⟨index, inside, rfl⟩ := copied.outside probe (early.symm ▸ changed)
      refine ⟨_, ⟨prog.pVaddr + index, by omega, by omega, rfl⟩, ?_⟩
      have aligned := grown.valid.aligned ((prog.pVaddr + index) / pageSize)
      rw [Loader.phys]
      have below := offset (prog.pVaddr + index)
      unfold pageSize at *
      omega
    · exact grown.outside probe early
  · intro wanted inside enough
    rw [copied.supply, missing, copied.space]
    exact grown.supply wanted inside enough

/-- Two segments share no address. -/
def Apart (first second : ElfProgram) : Prop :=
  first.pVaddr + first.pMemsz ≤ second.pVaddr ∨ second.pVaddr + second.pMemsz ≤ first.pVaddr

/-- The address lies outside the file bytes of a segment. -/
def Outside (virt : Nat) (prog : ElfProgram) : Prop :=
  virt < prog.pVaddr ∨ prog.pVaddr + prog.pFilesz ≤ virt

/-- An address of one segment lies outside the file bytes of another. -/
theorem Apart.outside (apart : Apart first second) (loadable : Loadable tables second)
    (inside : index < first.pMemsz) : Outside (first.pVaddr + index) second := by
  have sizes := loadable.sizes
  unfold Apart at apart
  unfold Outside
  omega

theorem Apart.symm (apart : Apart first second) : Apart second first := Or.symm apart

/-- The bytes that a segment is going to have are not mapped, or zero. -/
def Clear (loader : Loader) (prog : ElfProgram) : Prop :=
  ∀ index < prog.pMemsz, loader.space ((prog.pVaddr + index) / pageSize) = 0 ∨
    loader.memory (loader.phys (prog.pVaddr + index)) = 0

/-- After loading a segment a byte outside its file bytes is zero if it was, or if it was not
mapped. -/
theorem Loaded.clear {before after : Loader} (loaded : Loaded data prog before after)
    (outside : Outside virt prog)
    (clear : before.space (virt / pageSize) = 0 ∨ before.memory (before.phys virt) = 0)
    (mapped : after.space (virt / pageSize) ≠ 0) : after.memory (after.phys virt) = 0 := by
  by_cases unmapped : before.space (virt / pageSize) = 0
  · exact loaded.zero virt unmapped mapped outside
  · rw [loaded.kept virt unmapped outside]
    exact clear.resolve_left unmapped

/-- What loading all segments leaves for the pages that were mapped before. -/
structure Preserved (segments : List ElfProgram) (before after : Loader) : Prop where
  keeps : ∀ page, before.space page ≠ 0 → after.space page = before.space page
  kept : ∀ virt, before.space (virt / pageSize) ≠ 0 → (∀ prog ∈ segments, Outside virt prog) →
    after.memory (after.phys virt) = before.memory (before.phys virt)

theorem user_mapped {byte : UInt8} (mapped : loader.space (virt / pageSize) ≠ 0)
    (stored : loader.memory (loader.phys virt) = byte) : loader.user virt = some byte := by
  rw [Loader.user, if_neg mapped, stored]

/-- Loading segments that lie apart: each one finds its bytes unmapped or zero, and what it
leaves is not touched by the later ones. -/
theorem segments_arrived (segments : List ElfProgram) (loader : Loader) (valid : Valid loader)
    (loadable : ∀ prog ∈ segments, Loadable tables prog) (apart : segments.Pairwise Apart)
    (inside : ∀ prog ∈ segments, ∀ page, prog.HasPage page → page ∈ wanted)
    (enough : missing wanted loader ≤ loader.supply.length) (clear : ∀ prog ∈ segments, Clear loader prog) :
    Arrived segments data loader (segments.foldl (elfLoadProg tables data) loader) ∧
      Preserved segments loader (segments.foldl (elfLoadProg tables data) loader) := by
  induction segments generalizing loader with
  | nil =>
    exact ⟨⟨fun prog member => absurd member not_mem_nil, fun _ changed => absurd rfl changed⟩,
      fun _ _ => rfl, fun _ _ _ => rfl⟩
  | cons first rest ih =>
    obtain ⟨apartFirst, apartRest⟩ := pairwise_cons.mp apart
    have firstLoadable := loadable first mem_cons_self
    have firstClear := clear first mem_cons_self
    have firstInside := inside first mem_cons_self
    have loaded : Loaded data first loader _ :=
      elfLoadProg_loaded valid firstLoadable firstInside enough
    have left := loaded.supply wanted firstInside enough
    rw [foldl_cons]
    generalize elfLoadProg tables data loader first = middle at *
    have restClear : ∀ prog ∈ rest, Clear middle prog := by
      intro prog member index inside
      by_cases mapped : middle.space ((prog.pVaddr + index) / pageSize) = 0
      · exact .inl mapped
      · exact .inr (loaded.clear ((apartFirst prog member).symm.outside firstLoadable inside)
          (clear prog (mem_cons_of_mem _ member) index inside) mapped)
    obtain ⟨⟨arrived, changes⟩, keeps, kept⟩ := ih middle loaded.valid
      (forall_mem_cons.mp loadable).2 apartRest (forall_mem_cons.mp inside).2 left restClear
    generalize rest.foldl (elfLoadProg tables data) middle = after at *
    -- the bytes of the first segment stay while the rest is loaded
    have stays : ∀ index < first.pMemsz,
        middle.space ((first.pVaddr + index) / pageSize) ≠ 0 ∧
        after.space ((first.pVaddr + index) / pageSize) ≠ 0 ∧
        after.memory (after.phys (first.pVaddr + index)) =
          middle.memory (middle.phys (first.pVaddr + index)) := by
      intro index inside
      have mapped := loaded.mapped _ ⟨first.pVaddr + index, by omega, by omega, rfl⟩
      exact ⟨mapped, keeps _ mapped ▸ mapped, kept _ mapped fun prog member =>
        (apartFirst prog member).outside (loadable prog (mem_cons_of_mem _ member)) inside⟩
    have firstSizes := firstLoadable.sizes
    refine ⟨⟨fun prog member => ?_, fun probe changed => ?_⟩, fun page mapped => ?_,
      fun virt mapped outside => ?_⟩
    · rcases mem_cons.mp member with rfl | later
      · refine ⟨fun index below => ?_, fun index below behind => ?_, fun page hasPage => ?_⟩
        · obtain ⟨_, mapped, same⟩ := stays index (by omega)
          exact user_mapped mapped (same.trans (loaded.file index below))
        · obtain ⟨wasMapped, mapped, same⟩ := stays index below
          exact user_mapped mapped (same.trans
            (loaded.clear (.inr (by omega)) (firstClear index below) wasMapped))
        · have mapped := loaded.mapped page hasPage
          exact keeps page mapped ▸ mapped
      · exact arrived prog later
    · by_cases early : middle.memory probe = loader.memory probe
      · obtain ⟨prog, member, page, hasPage, place⟩ := changes probe (early.symm ▸ changed)
        exact ⟨prog, mem_cons_of_mem _ member, page, hasPage, place⟩
      · obtain ⟨page, hasPage, place⟩ := loaded.outside probe early
        refine ⟨first, mem_cons_self, page, hasPage, ?_⟩
        rw [keeps page (loaded.mapped page hasPage), place]
    · have same := loaded.keeps page mapped
      rw [keeps page (same ▸ mapped), same]
    · have same := loaded.keeps _ mapped
      rw [kept virt (same ▸ mapped) (forall_mem_cons.mp outside).2,
        loaded.kept virt mapped (outside first mem_cons_self)]

/-- The segments that are to be loaded; the others are skipped. -/
def loadSegments (programs : List ElfProgram) : List ElfProgram :=
  programs.filter fun prog => prog.pType = elfPtLoad

/-- There are pages enough for the pages of the segments that are not mapped yet. Segments may share
a page, which is then counted once. -/
def Enough (segments : List ElfProgram) (loader : Loader) : Prop :=
  ∃ wanted, (∀ prog ∈ segments, ∀ page, prog.HasPage page → page ∈ wanted) ∧
    missing wanted loader ≤ loader.supply.length

/-- A header that passes every check. -/
def goodHeader : ElfHeader :=
  { eiMag := elfMagic, eiClass := elfClass64, eMachine := elfMachineX86_64 }

/-- A segment of a page and a half, with file bytes in both pages. -/
def textSegment : ElfProgram :=
  { pType := elfPtLoad, pOffset := 0x1000, pVaddr := 0x400000, pFilesz := 0x1200, pMemsz := 0x1800 }

/-- An empty address space with two pages left. -/
def emptyLoader : Loader :=
  { memory := fun _ => 1, space := fun _ => 0, supply := [0x1000, 0x2000] }

theorem emptyLoader_valid : Valid emptyLoader where
  aligned _ := rfl
  distinct _ _ mapped := absurd rfl mapped
  fresh := by
    intro phys member
    simp only [emptyLoader, mem_cons, not_mem_nil, or_false] at member
    rcases member with rfl | rfl
    · exact ⟨by decide, by decide, fun _ => (by decide : 0 ≠ 0x1000)⟩
    · exact ⟨by decide, by decide, fun _ => (by decide : 0 ≠ 0x2000)⟩
  nodup := by decide

/-- A segment that shares the second page. -/
def dataSegment : ElfProgram :=
  { pType := elfPtLoad, pOffset := 0, pVaddr := 0x401800, pFilesz := 0x10, pMemsz := 0x20 }

/-- A segment of 16 bytes, half of them in the next page. -/
def crossingSegment : ElfProgram :=
  { pType := elfPtLoad, pOffset := 0, pVaddr := 0x400ff8, pFilesz := 16, pMemsz := 16 }

end Balrog.ElfLoad
