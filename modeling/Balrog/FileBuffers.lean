import Balrog.OpenFiles
import Balrog.Runs
import Mathlib.Data.List.Pairwise
import Mathlib.Data.Nat.Bitwise

/-!
# The buffers of the open-file cache

The contents of open files are kept in a window of 4096 pieces of 32 MiB. A request takes
the first run of free pieces that is long enough and maps pages for the requested size, and
one page for an empty file. A release computes the pieces and the pages from the address and
the size that the file table holds, with the size divided by 32 MiB and rounded down.

A request is answered with address 0 when it cannot be served; `ext2_open` does not look at
that answer and caches the file at address 0. Files are taken to be resolved; whether one
could be read is part of the call, and so is what `pmm_calloc` and `vmm_set_page` answer for
each page. The page tables are the map of pages that they implement. What lies past the file
table is not modelled.
-/

namespace Balrog.FileBuffers

open Runs Function List
open OpenFiles (fsMaxFile)

/-- `FS_BUFFER_SIZE` -/
def fsBufferSize : Nat := 33554432

/-- `FS_CACHE_OFFSET` -/
def fsCacheOffset : Nat := 0xffffffa000000000

/-- `~FS_CACHE_OFFSET` in 64 bits. -/
def offsetMask : Nat := 0x5fffffffff

/-- The length of `free_buffer_map`. -/
def bufferSlots : Nat := 4096

/-- `PAGE_SIZE` -/
def pageSize : Nat := 4096

/-- The answer for one page: mapped, none left, or taken but without a page table for it. -/
inductive Grant where
  | page (phys : Nat)
  | noPage
  | noTable (phys : Nat)
deriving DecidableEq, Repr

/-- The physical page behind each virtual page, the pages obtained from `pmm_calloc`, and
those given to `pmm_free`. -/
structure Space where
  pages : Nat → Option Nat
  granted : List Nat
  returned : List Nat

/-- A slot of `file_table`. -/
structure FsFile where
  data : Nat
  size : Nat
  reference : Nat
deriving DecidableEq, Repr

/-- `free_buffer_map`, `file_table` and the pages. -/
structure Cache where
  taken : Nat → Bool
  table : Nat → FsFile
  space : Space

/-- The variables of the search: `start_buffer_index`, `buffer_size` and `contiguous`. -/
structure Scan where
  start : Nat
  bufferSize : Nat
  contiguous : Bool
deriving DecidableEq, Repr

/-- One step of the search for free slots that stand next to each other. -/
def Scan.next (taken : Nat → Bool) (index : Nat) (scan : Scan) : Scan :=
  if taken index = false ∧ scan.bufferSize = 0 then ⟨index, fsBufferSize, true⟩
  else if taken index = false ∧ scan.contiguous = true then
    { scan with bufferSize := scan.bufferSize + fsBufferSize }
  else if taken index = true then ⟨0, 0, false⟩
  else scan

/-- The search, which ends early when the run is long enough. -/
def search (taken : Nat → Bool) (size : Nat) : Nat → Nat → Scan → Scan
  | 0, _, scan => scan
  | remaining + 1, index, scan =>
    if size ≤ (scan.next taken index).bufferSize then scan.next taken index
    else search taken size remaining (index + 1) (scan.next taken index)

/-- The loops that mark slots. -/
def fill (taken : Nat → Bool) (first last : Nat) (value : Bool) : Nat → Bool :=
  fun index => if first ≤ index ∧ index < last then value else taken index

/-- The rounds of a loop over a size in steps of a page. -/
def pageRounds (size : Nat) : Nat := (size + (pageSize - 1)) / pageSize

/-- The loop that maps the pages; it stops at the first page that fails. -/
def mapPages (grants : Nat → Grant) (addr : Nat) : Nat → Nat → Space → Option Nat × Space
  | 0, _, space => (none, space)
  | remaining + 1, index, space =>
    match grants index with
    | .page phys => mapPages grants addr remaining (index + 1)
        { space with
          pages := update space.pages (addr / pageSize + index) (some phys)
          granted := space.granted ++ [phys] }
    | .noPage => (some index, space)
    | .noTable phys => (some index, { space with granted := space.granted ++ [phys] })

/-- `vmm_free_page` -/
def vmmFreePage (space : Space) (page : Nat) : Space :=
  match space.pages page with
  | none => space
  | some phys =>
    { space with pages := update space.pages page none, returned := space.returned ++ [phys] }

/-- The loop that unmaps the pages of a buffer again. -/
def freePages (addr : Nat) : Nat → Nat → Space → Space
  | 0, _, space => space
  | remaining + 1, index, space =>
    freePages addr remaining (index + 1) (vmmFreePage space (addr / pageSize + index))

/-- `to_map`: an empty file has one page. -/
def toMap (size : Nat) : Nat := if size ≠ 0 then size else pageSize

/-- `fs_cache_get_new_buffer` -/
def getNewBuffer (cache : Cache) (size : Nat) (grants : Nat → Grant) : Nat × Cache :=
  let scan := search cache.taken size bufferSlots 0 ⟨0, 0, false⟩
  if size ≤ scan.bufferSize then
    let endBlockBuffer := scan.start + scan.bufferSize / fsBufferSize
    let addr := fsCacheOffset ||| scan.start * fsBufferSize
    let taken := fill cache.taken scan.start endBlockBuffer true
    match mapPages grants addr (pageRounds (toMap size)) 0 cache.space with
    | (none, space) => (addr, { cache with taken := taken, space := space })
    | (some failed, space) =>
      (0, { cache with
            taken := fill taken scan.start endBlockBuffer false
            space := freePages addr failed 0 space })
  else (0, cache)

/-- The loop of `_fs_cache_add_file_array`: the first slot of size zero. -/
def freeSlot (table : Nat → FsFile) : Nat → Nat → Nat
  | 0, index => index
  | remaining + 1, index =>
    if (table index).size = 0 then index else freeSlot table remaining (index + 1)

/-- `fs_cache_add_file` -/
def addFile (cache : Cache) (buffer size : Nat) : Nat × Cache :=
  let index := freeSlot cache.table fsMaxFile 0
  if index < fsMaxFile then
    (index, { cache with
      table := update cache.table index
        { data := buffer, size := size, reference := (cache.table index).reference } })
  else (index, cache)

/-- `fs_cache_increase_ref` -/
def increaseRef (cache : Cache) (index : Nat) : Cache :=
  { cache with
    table := update cache.table index
      { cache.table index with reference := ((cache.table index).reference + 1) % 2 ^ 32 } }

/-- `__fs_cache_free_buffer` -/
def freeBuffer (cache : Cache) (index : Nat) : Cache :=
  let file := cache.table index
  let bufIdx := (file.data &&& offsetMask) / fsBufferSize
  { cache with
    taken := fill cache.taken bufIdx (bufIdx + file.size / fsBufferSize) false
    space := freePages file.data (pageRounds file.size) 0 cache.space }

/-- `fs_cache_close_file`: the last reference frees the buffer. -/
def closeFile (cache : Cache) (index : Nat) : Cache :=
  let reference := ((cache.table index).reference + (2 ^ 32 - 1)) % 2 ^ 32
  if reference = 0 then
    let cache := freeBuffer cache index
    { cache with
      table := update cache.table index { cache.table index with reference := 0, size := 0 } }
  else
    { cache with
      table := update cache.table index { cache.table index with reference := reference } }

/-- `ext2_open` for a file that is not cached: the answer of the request is not looked at,
and a file that cannot be read leaves its buffer behind. -/
def openFile (cache : Cache) (size : Nat) (grants : Nat → Grant) (readable : Bool) :
    Option Nat × Cache :=
  let (buffer, cache) := getNewBuffer cache size grants
  if readable = false then (none, cache)
  else
    let (index, cache) := addFile cache buffer size
    (some index, increaseRef cache index)

/-- The pieces that a request of this size takes. -/
def slotsFor (size : Nat) : Nat := (size - 1) / fsBufferSize + 1

/-- The slots of a buffer cover its bytes and its pages. -/
theorem slotsFor_spec (size : Nat) : size ≤ slotsFor size * fsBufferSize ∧
    toMap size ≤ slotsFor size * fsBufferSize := by
  unfold toMap slotsFor fsBufferSize pageSize
  split <;> omega

/-- The scan stands behind a run of free slots of this length, which cannot be extended
to the left. -/
structure Tracks (taken : Nat → Bool) (index length : Nat) (scan : Scan) : Prop where
  size : scan.bufferSize = length * fsBufferSize
  fits : length ≤ index
  start : 0 < length → scan.contiguous = true ∧ scan.start + length = index
  free : ∀ probe, index - length ≤ probe → probe < index → taken probe = false
  maximal : length < index → taken (index - length - 1) = true

variable {taken : Nat → Bool}

variable {scan : Scan} {start count length rounds more failed : Nat} {space done : Space}
  {after third : Cache}

/-- The run grows by a free slot and ends at a taken one. -/
theorem Tracks.next {index : Nat} (tracks : Tracks taken index length scan) :
    Tracks taken (index + 1) (if taken index = true then 0 else length + 1)
      (scan.next taken index) := by
  cases isTaken : taken index with
  | true =>
    have after : scan.next taken index = ⟨0, 0, false⟩ := by simp [Scan.next, isTaken]
    rw [after, if_pos rfl]
    exact ⟨by simp, Nat.zero_le _, fun positive => absurd positive (Nat.lt_irrefl 0),
      fun probe low high => by omega, fun _ => by simpa using isTaken⟩
  | false =>
    have free : ∀ probe, index + 1 - (length + 1) ≤ probe → probe < index + 1 →
        taken probe = false := by
      intro probe low high
      by_cases last : probe = index
      · rw [last, isTaken]
      · exact tracks.free probe (by omega) (by omega)
    have maximal : length + 1 < index + 1 → taken (index + 1 - (length + 1) - 1) = true := by
      intro short
      rw [Nat.add_sub_add_right]
      exact tracks.maximal (by omega)
    have fits := tracks.fits
    rw [if_neg (by decide)]
    by_cases first : length = 0
    · have none : scan.bufferSize = 0 := by rw [tracks.size, first, Nat.zero_mul]
      have after : scan.next taken index = ⟨index, fsBufferSize, true⟩ := by
        simp [Scan.next, isTaken, none]
      rw [after]
      subst first
      exact ⟨by simp, by omega, fun _ => ⟨rfl, rfl⟩, free, maximal⟩
    · obtain ⟨contiguous, start⟩ := tracks.start (Nat.pos_of_ne_zero first)
      have some : scan.bufferSize ≠ 0 := by
        rw [tracks.size]
        exact Nat.mul_ne_zero first (by decide)
      have after : scan.next taken index =
          { scan with bufferSize := scan.bufferSize + fsBufferSize } := by
        simp [Scan.next, isTaken, some, contiguous]
      rw [after]
      exact ⟨by rw [tracks.size, Nat.add_mul, Nat.one_mul], by omega,
        fun _ => ⟨contiguous, by simp only; omega⟩, free, maximal⟩

variable {size : Nat}

/-- A search that succeeds has found free slots, exactly as many as the size needs. An empty
file is served by the first slot looked at, provided that it is free. -/
theorem search_found (remaining index length : Nat) (scan : Scan)
    (tracks : Tracks taken index length scan) (short : length = 0 ∨ length * fsBufferSize < size)
    (empty : size = 0 → taken index = false) (more : 0 < remaining)
    (found : size ≤ (search taken size remaining index scan).bufferSize) :
    ∃ last ≤ index + remaining,
      Tracks taken last (slotsFor size) (search taken size remaining index scan) := by
  induction remaining generalizing index length scan with
  | zero => exact absurd more (Nat.lt_irrefl 0)
  | succ remaining ih =>
    have next := tracks.next
    rw [search] at found ⊢
    split at found
    · next enough =>
      rw [if_pos enough]
      have long := next.size ▸ enough
      refine ⟨index + 1, by omega, ?_⟩
      have exactly : (if taken index = true then 0 else length + 1) = slotsFor size := by
        unfold slotsFor
        unfold fsBufferSize at short long ⊢
        cases isTaken : taken index with
        | true =>
          rw [if_pos isTaken] at long
          rw [empty (by omega)] at isTaken
          exact absurd isTaken (by decide)
        | false =>
          rw [isTaken, if_neg (by decide)] at long
          rw [if_neg (by decide)]
          omega
      rw [← exactly]
      exact next
    · next missing =>
      rw [if_neg missing]
      have more : 0 < remaining := by
        cases remaining with
        | zero => exact absurd found missing
        | succ remaining => exact Nat.succ_pos remaining
      obtain ⟨last, bound, result⟩ := ih (index + 1) _ _ next
        (.inr (by rw [← next.size]; omega))
        (fun isZero => absurd (Nat.zero_le _) (isZero ▸ missing)) more found
      exact ⟨last, by omega, result⟩

/-- Where a long enough run of free slots lies ahead, the search succeeds. -/
theorem search_complete (enough : size ≤ count * fsBufferSize)
    (free : ∀ probe, start ≤ probe → probe < start + count → taken probe = false)
    (remaining index length : Nat) (scan : Scan) (tracks : Tracks taken index length scan)
    (ahead : index < start + count) (inside : start + count ≤ index + remaining) :
    size ≤ (search taken size remaining index scan).bufferSize := by
  induction remaining generalizing index length scan with
  | zero => omega
  | succ remaining ih =>
    have next := tracks.next
    rw [search]
    split
    · next found => exact found
    · next missing =>
      refine ih (index + 1) _ _ next ?_ (by omega)
      by_contra reached
      have atEnd : index + 1 = start + count := by omega
      -- a run that ends here and cannot be extended covers the free slots
      have long : count ≤ if taken index = true then 0 else length + 1 := by
        by_contra shorter
        have border := next.maximal (by omega)
        rw [free _ (by omega) (by omega)] at border
        exact absurd border (by decide)
      have covered := Nat.mul_le_mul_right fsBufferSize long
      rw [← next.size] at covered
      omega

variable {grants : Nat → Grant}

variable (remaining index : Nat) (table : Nat → FsFile) {addr : Nat}

/-- A successful loop maps one page after the other and nothing else. -/
theorem mapPages_done {after : Space}
    (result : mapPages grants addr remaining index space = (none, after)) :
    ∃ pages : List Nat, pages.length = remaining ∧ after.granted = space.granted ++ pages ∧
      after.returned = space.returned ∧
      ∀ page, after.pages page =
        if addr / pageSize + index ≤ page ∧ page < addr / pageSize + index + remaining then
          pages[page - (addr / pageSize + index)]?
        else space.pages page := by
  induction remaining generalizing index space with
  | zero =>
    obtain rfl : space = after := (Prod.mk.inj result).2
    exact ⟨[], rfl, (append_nil _).symm, rfl, fun page => by rw [if_neg (by omega)]⟩
  | succ remaining ih =>
    cases granted : grants index with
    | noPage =>
      rw [mapPages, granted] at result
      exact absurd (Prod.mk.inj result).1 (by simp)
    | noTable phys =>
      rw [mapPages, granted] at result
      exact absurd (Prod.mk.inj result).1 (by simp)
    | page phys =>
      rw [mapPages, granted] at result
      obtain ⟨pages, length, all, kept, mapped⟩ := ih (index + 1) result
      refine ⟨phys :: pages, by rw [length_cons, length], ?_, kept, fun page => ?_⟩
      · rw [all]
        simp only [append_assoc, singleton_append]
      · rw [mapped page]
        by_cases first : page = addr / pageSize + index
        · subst first
          rw [if_neg (by omega), if_pos (by omega), Nat.sub_self, getElem?_cons_zero]
          exact update_self _ _ _
        · by_cases inside : addr / pageSize + (index + 1) ≤ page ∧
              page < addr / pageSize + (index + 1) + remaining
          · rw [if_pos inside, if_pos (by omega), ← getElem?_cons_succ (a := phys)]
            congr 1
            omega
          · rw [if_neg inside, if_neg (by omega)]
            exact update_of_ne first _ _

/-- A mapping loop that fails has done the rounds before the failing one, and may have taken a
page that it could not map. -/
theorem mapPages_failed {after : Space}
    (result : mapPages grants addr remaining index space = (some failed, after)) :
    index ≤ failed ∧ failed < index + remaining ∧
      ∃ done, mapPages grants addr (failed - index) index space = (none, done) ∧
        (grants failed = .noPage ∧ after = done ∨
          ∃ phys, grants failed = .noTable phys ∧
            after = { done with granted := done.granted ++ [phys] }) := by
  induction remaining generalizing index space with
  | zero => exact absurd (Prod.mk.inj result).1 (by simp)
  | succ remaining ih =>
    cases granted : grants index with
    | noPage =>
      rw [mapPages, granted] at result
      obtain ⟨isFailed, rfl⟩ := Prod.mk.inj result
      obtain rfl := Option.some.inj isFailed
      refine ⟨Nat.le_refl _, by omega, space, ?_, .inl ⟨granted, rfl⟩⟩
      rw [Nat.sub_self, mapPages]
    | noTable phys =>
      rw [mapPages, granted] at result
      obtain ⟨isFailed, rfl⟩ := Prod.mk.inj result
      obtain rfl := Option.some.inj isFailed
      refine ⟨Nat.le_refl _, by omega, space, ?_, .inr ⟨phys, granted, rfl⟩⟩
      rw [Nat.sub_self, mapPages]
    | page phys =>
      rw [mapPages, granted] at result
      obtain ⟨low, high, done, completed, ending⟩ := ih (index + 1) result
      refine ⟨by omega, by omega, done, ?_, ending⟩
      obtain ⟨rounds, isRounds⟩ : ∃ rounds, failed = index + 1 + rounds :=
        ⟨failed - (index + 1), by omega⟩
      rw [isRounds, Nat.add_sub_cancel_left] at completed
      rw [isRounds, show index + 1 + rounds - index = rounds + 1 by omega, mapPages, granted]
      exact completed

/-- Freeing the pages that are mapped in a range returns them and leaves the range empty. -/
theorem freePages_spec (pages : List Nat) (index : Nat) (space : Space)
    (mapped : ∀ offset < pages.length, space.pages (addr / pageSize + index + offset) =
      pages[offset]?) :
    (freePages addr pages.length index space).granted = space.granted ∧
      (freePages addr pages.length index space).returned = space.returned ++ pages ∧
      ∀ page, (freePages addr pages.length index space).pages page =
        if addr / pageSize + index ≤ page ∧ page < addr / pageSize + index + pages.length then none
        else space.pages page := by
  induction pages generalizing index space with
  | nil => exact ⟨rfl, (append_nil _).symm, fun page => by
      rw [if_neg (by simp only [length_nil]; omega)]
      rfl⟩
  | cons phys pages ih =>
    have first : space.pages (addr / pageSize + index) = some phys := mapped 0 (Nat.succ_pos _)
    have freed : vmmFreePage space (addr / pageSize + index) =
        { space with
          pages := update space.pages (addr / pageSize + index) none
          returned := space.returned ++ [phys] } := by
      rw [vmmFreePage, first]
    obtain ⟨granted, returned, left⟩ := ih (index + 1)
      (vmmFreePage space (addr / pageSize + index)) (by
        intro offset inside
        rw [freed]
        have other : addr / pageSize + (index + 1) + offset ≠ addr / pageSize + index := by omega
        simp only [update_of_ne other]
        have old := mapped (offset + 1) (by simpa using inside)
        rw [getElem?_cons_succ] at old
        rw [← old]
        congr 1
        omega)
    rw [length_cons, freePages]
    refine ⟨granted.trans (by rw [freed]), ?_, fun page => ?_⟩
    · rw [returned, freed]
      simp only [append_assoc, singleton_append]
    · rw [left page]
      by_cases first : page = addr / pageSize + index
      · rw [if_neg (by omega), if_pos (by omega), freed, first]
        exact update_self _ _ _
      · by_cases inside : addr / pageSize + (index + 1) ≤ page ∧
            page < addr / pageSize + (index + 1) + pages.length
        · rw [if_pos inside, if_pos (by omega)]
        · rw [if_neg inside, if_neg (by omega), freed]
          exact update_of_ne first _ _

/-- The pages of the completed rounds are returned by the loop that frees them, and leave no
mapping behind. -/
theorem freePages_mapped (completed : mapPages grants addr rounds 0 space = (none, done)) :
    (∃ pages, (freePages addr rounds 0 done).granted = space.granted ++ pages ∧
        (freePages addr rounds 0 done).returned = space.returned ++ pages) ∧
      ∀ page, (freePages addr rounds 0 done).pages page = space.pages page ∨
        (freePages addr rounds 0 done).pages page = none := by
  obtain ⟨pages, length, granted, kept, mapped⟩ := mapPages_done _ 0 completed
  have found : ∀ offset < pages.length, done.pages (addr / pageSize + 0 + offset) =
      pages[offset]? := by
    intro offset below
    rw [mapped, if_pos ⟨Nat.le_add_right _ _, Nat.add_lt_add_left (length ▸ below) _⟩,
      Nat.add_sub_cancel_left]
  obtain ⟨given, returned, left⟩ := freePages_spec pages 0 done found
  rw [length] at given returned left
  refine ⟨⟨pages, given.trans granted, by rw [returned, kept]⟩, fun page => ?_⟩
  rw [left page]
  split
  · exact .inr rfl
  · next outside =>
    rw [mapped page, if_neg outside]
    exact .inl rfl

/-- The bits of a slot's offset and of the cache's address do not meet, so that `|` adds them. -/
theorem slot_address (start : Nat) (inside : start < bufferSlots) :
    (fsCacheOffset ||| start * fsBufferSize) = fsCacheOffset + start * fsBufferSize := by
  have parts : fsCacheOffset = 2 ^ 37 * 134217725 := by decide
  have small : start * fsBufferSize < 2 ^ 37 := by
    unfold bufferSlots at inside
    unfold fsBufferSize
    omega
  rw [parts, ← Nat.two_pow_add_eq_or_of_lt small]

/-- A release finds the piece of an address. -/
theorem address_slot (inside : start < bufferSlots) :
    ((fsCacheOffset + start * fsBufferSize) &&& offsetMask) / fsBufferSize = start := by
  have small : start * fsBufferSize < 2 ^ 37 := by
    unfold bufferSlots at inside
    unfold fsBufferSize
    omega
  have mask : offsetMask = 2 ^ 38 ||| (2 ^ 37 - 1) := by decide
  have cleared : fsCacheOffset &&& offsetMask = 0 := by decide
  have high : (start * fsBufferSize).testBit 38 = false :=
    Nat.testBit_lt_two_pow (Nat.lt_trans small (by decide))
  have kept : start * fsBufferSize &&& offsetMask = start * fsBufferSize := by
    rw [mask, Nat.and_or_distrib_left, Nat.and_two_pow, high, Nat.and_two_pow_sub_one_eq_mod,
      Nat.mod_eq_of_lt small]
    simp
  rw [← slot_address start inside, Nat.and_or_distrib_right, cleared, kept, Nat.zero_or]
  exact Nat.mul_div_cancel _ (by decide)

theorem tracks_start (taken : Nat → Bool) : Tracks taken 0 0 ⟨0, 0, false⟩ :=
  ⟨by simp, Nat.le_refl _, fun positive => absurd positive (Nat.lt_irrefl 0),
    fun probe _ high => absurd high (Nat.not_lt_zero probe),
    fun short => absurd short (Nat.lt_irrefl 0)⟩

/-- The run of slots that a request takes. -/
structure Free (taken : Nat → Bool) (start size : Nat) : Prop where
  inside : start + slotsFor size ≤ bufferSlots
  free : ∀ probe, start ≤ probe → probe < start + slotsFor size → taken probe = false

/-- An empty file needs the first slot to be free. -/
def Placeable (cache : Cache) (size : Nat) : Prop := size = 0 → cache.taken 0 = false

variable {cache : Cache}

/-- A search that succeeds gives free slots next to each other. -/
theorem search_run (placeable : Placeable cache size)
    (found : size ≤ (search cache.taken size bufferSlots 0 ⟨0, 0, false⟩).bufferSize) :
    ∃ start, Free cache.taken start size ∧
      (search cache.taken size bufferSlots 0 ⟨0, 0, false⟩).start = start ∧
      (search cache.taken size bufferSlots 0 ⟨0, 0, false⟩).bufferSize / fsBufferSize =
        slotsFor size := by
  obtain ⟨last, bound, tracks⟩ := search_found bufferSlots 0 0 _ (tracks_start cache.taken)
    (.inl rfl) placeable (by decide) found
  have positive : 0 < slotsFor size := Nat.succ_pos _
  obtain ⟨_, isStart⟩ := tracks.start positive
  refine ⟨_, ⟨by omega, fun probe low high => tracks.free probe (by omega) (by omega)⟩, rfl, ?_⟩
  rw [tracks.size]
  exact Nat.mul_div_cancel _ (by decide)

/-- A run of slots that was free is free again after it was taken and released. -/
theorem fill_release (run : Free taken start size) :
    fill (fill taken start (start + slotsFor size) true) start (start + slotsFor size) false =
      taken := by
  funext probe
  simp only [fill]
  split
  · next between => exact (run.free probe between.1 between.2).symm
  · rfl

/-- A request whose search succeeds takes a run of free slots and maps its pages; without a page
for each of them it gives the slots back. -/
theorem getNewBuffer_found (grants : Nat → Grant) (placeable : Placeable cache size)
    (found : size ≤ (search cache.taken size bufferSlots 0 ⟨0, 0, false⟩).bufferSize) :
    ∃ start, Free cache.taken start size ∧
      getNewBuffer cache size grants =
        match mapPages grants (fsCacheOffset + start * fsBufferSize) (pageRounds (toMap size)) 0
            cache.space with
        | (none, space) =>
          (fsCacheOffset + start * fsBufferSize,
            { cache with taken := fill cache.taken start (start + slotsFor size) true
                         space := space })
        | (some failed, space) =>
          (0, { cache with
            space := freePages (fsCacheOffset + start * fsBufferSize) failed 0 space }) := by
  obtain ⟨start, run, isStart, length⟩ := search_run placeable found
  have positive : 0 < slotsFor size := Nat.succ_pos _
  have inside := run.inside
  have address := slot_address start (by omega)
  refine ⟨start, run, ?_⟩
  simp only [getNewBuffer, if_pos found, isStart, length, address, fill_release run]

/-- A request that is refused leaves the map as it was. One that is served takes a run of free
slots, and the pages of the buffer are mapped. -/
theorem getNewBuffer_cases (placeable : Placeable cache size)
    (result : getNewBuffer cache size grants = (addr, after)) :
    after.table = cache.table ∧ (addr = 0 ∧ after.taken = cache.taken ∨
      addr ≠ 0 ∧ ∃ start, Free cache.taken start size ∧
        addr = fsCacheOffset + start * fsBufferSize ∧
        after.taken = fill cache.taken start (start + slotsFor size) true ∧
        mapPages grants addr (pageRounds (toMap size)) 0 cache.space = (none, after.space)) := by
  by_cases found : size ≤ (search cache.taken size bufferSlots 0 ⟨0, 0, false⟩).bufferSize
  · obtain ⟨start, run, isResult⟩ := getNewBuffer_found grants placeable found
    rw [isResult] at result
    split at result
    · next space mapped =>
      obtain ⟨rfl, rfl⟩ := Prod.mk.inj result
      refine ⟨rfl, .inr ⟨?_, start, run, rfl, rfl, mapped⟩⟩
      unfold fsCacheOffset
      omega
    · obtain ⟨rfl, rfl⟩ := Prod.mk.inj result
      exact ⟨rfl, .inl ⟨rfl, rfl⟩⟩
  · simp only [getNewBuffer, if_neg found] at result
    obtain ⟨rfl, rfl⟩ := Prod.mk.inj result
    exact ⟨rfl, .inl ⟨rfl, rfl⟩⟩

/-- There is a run of free slots and a page for every part of the buffer. -/
def Roomy (cache : Cache) (size : Nat) (grants : Nat → Grant) : Prop :=
  (∃ start, Free cache.taken start size) ∧
    ∀ index < pageRounds (toMap size), ∃ phys, grants index = .page phys

/-- A request that there is room for is served. -/
theorem getNewBuffer_roomy (roomy : Roomy cache size grants) :
    (getNewBuffer cache size grants).1 ≠ 0 := by
  obtain ⟨⟨start, run⟩, pages⟩ := roomy
  have positive : 0 < slotsFor size := Nat.succ_pos _
  have found := search_complete (slotsFor_spec size).1 run.free bufferSlots 0 0 _
    (tracks_start cache.taken) (by omega) (by have := run.inside; omega)
  dsimp only [getNewBuffer]
  rw [if_pos found]
  split
  · intro zero
    have offset : fsCacheOffset = 0 := (Nat.or_eq_zero_iff.mp zero).1
    exact absurd offset (by decide)
  · next failed space isFailed =>
    obtain ⟨_, high, _, _, ⟨refused, _⟩ | ⟨_, refused, _⟩⟩ := mapPages_failed _ 0 isFailed <;>
    · obtain ⟨phys, granted⟩ := pages failed (by omega)
      cases granted.symm.trans refused

/-- A buffer that has been handed out. -/
structure Buffer where
  addr : Nat
  size : Nat
deriving DecidableEq, Repr

/-- The cache and the buffers that were handed out and not released. -/
structure System where
  cache : Cache
  inUse : List Buffer

/-- The calls of a run: a file is opened that is not cached, a cached file is opened once
more, a descriptor is closed. -/
inductive Call where
  | openFile (size : Nat) (grants : Nat → Grant) (readable : Bool)
  | openAgain (index : Nat)
  | close (index : Nat)

/-- The buffers in use after an open; address zero means that it failed. -/
def addBuffer (inUse : List Buffer) (addr size : Nat) : List Buffer :=
  if addr = 0 then inUse else ⟨addr, size⟩ :: inUse

/-- The buffers in use after a close: the last reference gives the buffer back. -/
def dropBuffer (inUse : List Buffer) (file : FsFile) : List Buffer :=
  if (file.reference + (2 ^ 32 - 1)) % 2 ^ 32 = 0 then inUse.erase ⟨file.data, file.size⟩
  else inUse

/-- One call on the cache, with the record of the buffers in use. -/
def step (system : System) : Call → Option System
  | .openFile size grants readable =>
    some { cache := (openFile system.cache size grants readable).2
           inUse := addBuffer system.inUse (getNewBuffer system.cache size grants).1 size }
  | .openAgain index => some { system with cache := increaseRef system.cache index }
  | .close index =>
    some { cache := closeFile system.cache index
           inUse := dropBuffer system.inUse (system.cache.table index) }

/-- Only a file that is open is opened again or closed; `condition` restricts the calls. -/
def allowed (condition : System → Call → Prop) (system : System) (call : Call) : Prop :=
  condition system call ∧
    match call with
    | .openFile _ _ _ => True
    | .openAgain index | .close index =>
      index < fsMaxFile ∧ 0 < (system.cache.table index).reference

/-- The cache at startup. -/
def emptyCache : Cache where
  taken := fun _ => false
  table := fun _ => ⟨0, 0, 0⟩
  space := { pages := fun _ => none, granted := [], returned := [] }

/-- The cache over whole runs whose calls satisfy a condition. -/
def machine (condition : System → Call → Prop) : Machine System Call where
  initial system := system = { cache := emptyCache, inUse := [] }
  allowed := allowed condition
  step := step

/-- The ranges that were mapped for two buffers do not meet. -/
def Apart (first second : Buffer) : Prop :=
  first.addr + toMap first.size ≤ second.addr ∨ second.addr + toMap second.size ≤ first.addr

instance : Std.Symm Apart := ⟨fun _ _ apart => Or.symm apart⟩

/-- A request that is served gets a range of the window, mapped as far as the request goes and
apart from every buffer in use. -/
def ServedApart (system : System) (size : Nat) (grants : Nat → Grant) : Prop :=
  ∀ addr after, getNewBuffer system.cache size grants = (addr, after) → addr ≠ 0 →
    fsCacheOffset ≤ addr ∧ addr + size ≤ fsCacheOffset + bufferSlots * fsBufferSize ∧
    (∀ offset < size, (after.space.pages ((addr + offset) / pageSize)).isSome) ∧
    ∀ buffer ∈ system.inUse, Apart ⟨addr, size⟩ buffer

/-- When an open keeps the buffers apart: an empty file finds the first slot free, a file that
is going to be cached can be served and has a slot of the file table, and the reference count
does not wrap. -/
def Good (system : System) : Call → Prop
  | .openFile size grants readable => Placeable system.cache size ∧
    (readable = true → Roomy system.cache size grants ∧
      ∃ index < fsMaxFile, (system.cache.table index).size = 0)
  | .openAgain index => (system.cache.table index).reference + 1 < 2 ^ 32
  | .close _ => True

/-- A buffer that covers the slots from `start` on, all of them taken. -/
structure Placed (taken : Nat → Bool) (buffer : Buffer) (start : Nat) : Prop where
  addr : buffer.addr = fsCacheOffset + start * fsBufferSize
  inside : start + slotsFor buffer.size ≤ bufferSlots
  taken : ∀ probe, start ≤ probe → probe < start + slotsFor buffer.size → taken probe = true

/-- Every buffer in use has its slots, the buffers are apart, and a file of the table has a
buffer in use that no other file has. -/
structure Invariant (system : System) : Prop where
  placed : ∀ buffer ∈ system.inUse, ∃ start, Placed system.cache.taken buffer start
  apart : system.inUse.Pairwise Apart
  cached : ∀ index, (system.cache.table index).size ≠ 0 →
    ⟨(system.cache.table index).data, (system.cache.table index).size⟩ ∈ system.inUse
  owner : ∀ first second, (system.cache.table first).size ≠ 0 →
    (system.cache.table second).size ≠ 0 →
    (system.cache.table first).data = (system.cache.table second).data → first = second

variable {first second buffer file : Buffer} {other : Nat}

/-- Buffers over different slots are apart. -/
theorem apart_of_slots (address : first.addr = fsCacheOffset + start * fsBufferSize)
    (otherAddress : second.addr = fsCacheOffset + other * fsBufferSize)
    (order : start + slotsFor first.size ≤ other ∨ other + slotsFor second.size ≤ start) :
    Apart first second := by
  have long := (slotsFor_spec first.size).2
  have otherLong := (slotsFor_spec second.size).2
  unfold Apart
  unfold fsBufferSize at *
  omega

theorem toMap_positive (size : Nat) : 0 < toMap size := by
  unfold toMap pageSize
  split <;> omega

/-- Buffers that are apart have different slots. -/
theorem slots_of_apart (placed : Placed taken first start)
    (otherPlaced : Placed taken second other) (apart : Apart first second) :
    start + slotsFor first.size ≤ other ∨ other + slotsFor second.size ≤ start := by
  have positive := toMap_positive first.size
  have otherPositive := toMap_positive second.size
  have address := placed.addr
  have otherAddress := otherPlaced.addr
  unfold Apart at apart
  unfold toMap pageSize at *
  unfold slotsFor
  unfold fsBufferSize at *
  split at apart <;> split at apart <;> omega

/-- Free slots are apart from those of any buffer in use. -/
theorem free_apart (run : Free taken start size) (placed : Placed taken buffer other) :
    start + slotsFor size ≤ other ∨ other + slotsFor buffer.size ≤ start := by
  by_contra meets
  have positive : 0 < slotsFor size := Nat.succ_pos _
  have otherPositive : 0 < slotsFor buffer.size := Nat.succ_pos _
  have free := run.free (max start other) (by omega) (by omega)
  rw [placed.taken (max start other) (by omega) (by omega)] at free
  exact absurd free (by decide)

variable {system : System}

/-- Where the invariant holds, a request is served apart from the buffers in use. -/
theorem Invariant.servedApart (invariant : Invariant system) (grants : Nat → Grant)
    (placeable : Placeable system.cache size) :
    ServedApart system size grants := by
  intro addr after result served
  obtain ⟨_, refused | ⟨_, start, run, address, _, mapping⟩⟩ := getNewBuffer_cases placeable result
  · exact absurd refused.1 served
  obtain ⟨pages, length, _, _, mapped⟩ := mapPages_done _ 0 mapping
  have inside := run.inside
  have long := (slotsFor_spec size).1
  refine ⟨by omega, ?_, fun offset below => ?_, fun buffer used => ?_⟩
  · unfold bufferSlots at *
    unfold fsBufferSize at *
    omega
  · have aligned : (addr + offset) / pageSize = addr / pageSize + offset / pageSize := by
      rw [address]
      unfold fsCacheOffset fsBufferSize pageSize
      omega
    have count : offset / pageSize < pageRounds (toMap size) := by
      unfold pageRounds toMap pageSize
      rw [if_pos (by omega)]
      omega
    rw [aligned, mapped, Nat.add_zero, Nat.add_sub_cancel_left,
      if_pos ⟨Nat.le_add_right _ _, Nat.add_lt_add_left count _⟩,
      getElem?_eq_getElem (length ▸ count)]
    rfl
  · obtain ⟨other, placed⟩ := invariant.placed buffer used
    exact apart_of_slots address placed.addr (free_apart run placed)

/-- The first free slot of the table is found. The induction is on the slots that remain. -/
theorem freeSlot_spec (remaining index target : Nat) (lower : index ≤ target)
    (upper : target < index + remaining) (free : (table target).size = 0) :
    freeSlot table remaining index ≤ target ∧
      (table (freeSlot table remaining index)).size = 0 := by
  induction remaining generalizing index with
  | zero => omega
  | succ remaining ih =>
    rw [freeSlot]
    split
    · next empty => exact ⟨lower, empty⟩
    · next taken =>
      have further : index ≠ target := by
        rintro rfl
        exact taken free
      exact ih (index + 1) (by omega) (by omega)

/-- A file takes the first free slot of the table. -/
theorem addFile_spec (buffer size : Nat)
    (slot : ∃ index < fsMaxFile, (cache.table index).size = 0) :
    ∃ index < fsMaxFile, (cache.table index).size = 0 ∧ addFile cache buffer size =
      (index, { cache with
        table := update cache.table index
          { data := buffer, size := size, reference := (cache.table index).reference } }) := by
  obtain ⟨target, below, free⟩ := slot
  obtain ⟨first, empty⟩ := freeSlot_spec cache.table fsMaxFile 0 target (Nat.zero_le _)
    (by omega) free
  refine ⟨freeSlot cache.table fsMaxFile 0, by omega, empty, ?_⟩
  rw [addFile, if_pos (by omega)]

/-- The invariant depends on the map and the table only, and not on reference counts. -/
theorem Invariant.congr {after : System} (invariant : Invariant system)
    (taken : after.cache.taken = system.cache.taken) (inUse : after.inUse = system.inUse)
    (table : ∀ index, (after.cache.table index).data = (system.cache.table index).data ∧
      (after.cache.table index).size = (system.cache.table index).size) : Invariant after := by
  refine ⟨?_, ?_, fun index => ?_, fun first second => ?_⟩
  · rw [taken, inUse]
    exact invariant.placed
  · rw [inUse]
    exact invariant.apart
  · rw [(table index).1, (table index).2, inUse]
    exact invariant.cached index
  · rw [(table first).1, (table first).2, (table second).1, (table second).2]
    exact invariant.owner first second

/-- Changing a reference count changes neither data nor size. -/
theorem reference_fields (index reference probe : Nat) :
    (update table index { table index with reference := reference } probe).data =
        (table probe).data ∧
      (update table index { table index with reference := reference } probe).size =
        (table probe).size := by
  by_cases same : probe = index
  · subst same
    simp only [update_self, and_self]
  · simp only [update_of_ne same, and_self]

/-- A request for a buffer keeps the invariant, whether it is met or not. -/
theorem Invariant.request (invariant : Invariant system) (placeable : Placeable system.cache size)
    (result : getNewBuffer system.cache size grants = (addr, after)) :
    Invariant { cache := after, inUse := addBuffer system.inUse addr size } := by
  obtain ⟨table, ⟨rfl, taken⟩ | ⟨served, start, run, address, taken, _⟩⟩ :=
    getNewBuffer_cases placeable result
  · exact invariant.congr taken (by rw [addBuffer, if_pos rfl]) fun index => by
      simp only [table, and_self]
  · rw [addBuffer, if_neg served]
    refine ⟨?_, ?_, ?_, ?_⟩
    · intro buffer used
      rw [taken]
      rcases mem_cons.mp used with rfl | old
      · exact ⟨start, address, run.inside, fun probe low high => if_pos ⟨low, high⟩⟩
      · obtain ⟨other, placed⟩ := invariant.placed buffer old
        refine ⟨other, placed.addr, placed.inside, fun probe low high => ?_⟩
        simp only [fill, placed.taken probe low high, ite_self]
    · refine pairwise_cons.mpr ⟨fun buffer used => ?_, invariant.apart⟩
      obtain ⟨other, placed⟩ := invariant.placed buffer used
      exact apart_of_slots address placed.addr (free_apart run placed)
    · simp only [table]
      exact fun index cached => mem_cons_of_mem _ (invariant.cached index cached)
    · simp only [table]
      exact invariant.owner

/-- A file is put into the table with the buffer that was just handed out. -/
theorem Invariant.store {inUse : List Buffer}
    (invariant : Invariant { cache := cache, inUse := ⟨addr, size⟩ :: inUse })
    (index reference : Nat)
    (fresh : ∀ probe, (cache.table probe).size ≠ 0 → (cache.table probe).data ≠ addr) :
    Invariant
      { cache := { cache with table := update cache.table index ⟨addr, size, reference⟩ }
        inUse := ⟨addr, size⟩ :: inUse } := by
  refine ⟨invariant.placed, invariant.apart, ?_, ?_⟩
  · intro probe cached
    by_cases same : probe = index
    · subst same
      simp only [update_self, mem_cons_self]
    · simp only [update_of_ne same] at cached ⊢
      exact invariant.cached probe cached
  · intro first second cached otherCached shared
    by_cases isFirst : first = index <;> by_cases isSecond : second = index
    · rw [isFirst, isSecond]
    · simp only [isFirst, update_self, update_of_ne isSecond] at otherCached shared
      exact absurd shared.symm (fresh second otherCached)
    · simp only [isSecond, update_self, update_of_ne isFirst] at cached shared
      exact absurd shared (fresh first cached)
    · simp only [update_of_ne isFirst, update_of_ne isSecond] at cached otherCached shared
      exact invariant.owner first second cached otherCached shared

theorem Apart.addr_ne (apart : Apart first second) :
    first.addr ≠ second.addr := by
  have positive := toMap_positive first.size
  have otherPositive := toMap_positive second.size
  unfold Apart at apart
  omega

/-- Opening a file keeps the invariant. -/
theorem Invariant.opened (invariant : Invariant system) {readable : Bool}
    (good : Good system (.openFile size grants readable)) :
    Invariant
      { cache := (openFile system.cache size grants readable).2
        inUse := addBuffer system.inUse (getNewBuffer system.cache size grants).1 size } := by
  obtain ⟨placeable, caching⟩ := good
  cases result : getNewBuffer system.cache size grants with
  | mk addr after =>
    have requested := invariant.request placeable result
    cases readable with
    | false => simpa [openFile, result] using requested
    | true =>
      obtain ⟨roomy, slot⟩ := caching rfl
      have served : addr ≠ 0 := by
        have positive := getNewBuffer_roomy roomy
        rwa [result] at positive
      have table := (getNewBuffer_cases placeable result).1
      have slotAfter : ∃ index < fsMaxFile, (after.table index).size = 0 := by rwa [table]
      obtain ⟨index, _, _, added⟩ := addFile_spec addr size slotAfter
      rw [addBuffer, if_neg served] at requested
      have fresh : ∀ probe, (after.table probe).size ≠ 0 → (after.table probe).data ≠ addr := by
        intro probe cached shared
        rw [table] at cached shared
        have used := invariant.cached probe cached
        have apart := (pairwise_cons.mp requested.apart).1 _ used
        exact apart.addr_ne shared.symm
      have stored := requested.store index (after.table index).reference fresh
      have fields := reference_fields
        (update after.table index ⟨addr, size, (after.table index).reference⟩) index
      refine stored.congr ?_ ?_ ?_
      · simp [openFile, result, added, increaseRef]
      · simp [addBuffer, served]
      · intro probe
        simp only [openFile, result, added, increaseRef, Bool.true_eq_false, if_false]
        exact fields _ probe

/-- A release frees exactly the slots of a buffer, as far as they are whole, so the other
buffers keep theirs. -/
theorem Placed.release (released : Placed taken file start) (placed : Placed taken buffer other)
    (apart : Apart file buffer) :
    Placed (fill taken ((file.addr &&& offsetMask) / fsBufferSize)
      ((file.addr &&& offsetMask) / fsBufferSize + file.size / fsBufferSize) false)
      buffer other := by
  have positive : 0 < slotsFor file.size := Nat.succ_pos _
  have inside := released.inside
  have order := slots_of_apart released placed apart
  have whole : file.size / fsBufferSize ≤ slotsFor file.size := by
    unfold slotsFor fsBufferSize
    omega
  rw [released.addr, address_slot (show start < bufferSlots by omega)]
  refine ⟨placed.addr, placed.inside, fun probe low high => ?_⟩
  rw [fill, if_neg (by omega)]
  exact placed.taken probe low high

/-- A buffer in use stands once in the list. -/
theorem Invariant.nodup (invariant : Invariant system) : system.inUse.Nodup :=
  invariant.apart.imp fun apart same => apart.addr_ne (congrArg Buffer.addr same)

/-- The buffers that stay in use after a release keep their slots. -/
theorem Invariant.released (invariant : Invariant system) (index : Nat)
    (left : buffer ∈ system.inUse.erase
      ⟨(system.cache.table index).data, (system.cache.table index).size⟩) :
    ∃ start, Placed (freeBuffer system.cache index).taken buffer start := by
  obtain ⟨different, used⟩ := invariant.nodup.mem_erase_iff.mp left
  obtain ⟨other, placed⟩ := invariant.placed buffer used
  by_cases empty : (system.cache.table index).size = 0
  · have same : (freeBuffer system.cache index).taken = system.cache.taken := by
      simp only [freeBuffer, empty, Nat.zero_div, Nat.add_zero]
      exact funext fun probe => if_neg (by omega)
    exact ⟨other, same ▸ placed⟩
  · have cached := invariant.cached index empty
    obtain ⟨start, released⟩ := invariant.placed _ cached
    exact ⟨other, released.release placed
      (invariant.apart.forall cached used (Ne.symm different))⟩

/-- Closing a file keeps the invariant. -/
theorem Invariant.closed (invariant : Invariant system) (index : Nat) :
    Invariant
      { cache := closeFile system.cache index
        inUse := dropBuffer system.inUse (system.cache.table index) } := by
  rw [closeFile, dropBuffer]
  split
  · refine ⟨fun buffer left => invariant.released index left,
      invariant.apart.sublist erase_sublist, ?_, ?_⟩
    · intro probe cached
      by_cases same : probe = index
      · simp [same, freeBuffer] at cached
      · simp only [freeBuffer, update_of_ne same] at cached ⊢
        refine (mem_erase_of_ne fun isSame => ?_).mpr (invariant.cached probe cached)
        obtain ⟨sameData, sameSize⟩ := Buffer.mk.inj isSame
        exact same (invariant.owner probe index cached (sameSize ▸ cached) sameData)
    · intro first second cached otherCached shared
      by_cases isFirst : first = index
      · simp [isFirst, freeBuffer] at cached
      by_cases isSecond : second = index
      · simp [isSecond, freeBuffer] at otherCached
      simp only [freeBuffer, update_of_ne isFirst, update_of_ne isSecond]
        at cached otherCached shared
      exact invariant.owner first second cached otherCached shared
  · exact invariant.congr rfl rfl fun probe => reference_fields _ index _ probe

/-- The invariant holds throughout a run. -/
theorem invariant_inductive : Inductive (machine Good) Invariant where
  starts := by
    rintro _ rfl
    exact ⟨fun buffer used => absurd used not_mem_nil, List.Pairwise.nil,
      fun index cached => absurd rfl cached, fun first second cached => absurd rfl cached⟩
  preserved := by
    rintro system (⟨size, grants, readable⟩ | index | index) invariant ⟨good, _⟩
    · exact ⟨_, rfl, invariant.opened good⟩
    · exact ⟨_, rfl, invariant.congr rfl rfl fun probe => reference_fields _ index _ probe⟩
    · exact ⟨_, rfl, invariant.closed index⟩

/-- In every run of good calls a request is served apart from all buffers in use. -/
theorem buffers_apart {system : System} (reached : Reachable (machine Good) system) {size : Nat}
    (grants : Nat → Grant) (placeable : Placeable system.cache size) :
    ServedApart system size grants :=
  (invariant_inductive.holds reached).servedApart grants placeable

/-- Every request for a page is met, each with a page of its own. -/
def allGranted (index : Nat) : Grant := .page (4096 * (index + 1))

/-- The system at startup. -/
def startup : System := { cache := emptyCache, inUse := [] }

/-- The system after a file of one byte has been opened. -/
def oneFile : System :=
  { cache := (openFile emptyCache 1 allGranted true).2, inUse := [⟨fsCacheOffset, 1⟩] }

/-- A second file, of 32 MiB and without blocks, has been opened while no page was left, which
caches it at address 0. -/
def nullFile : System :=
  { cache := (openFile oneFile.cache fsBufferSize (fun _ => .noPage) true).2
    inUse := oneFile.inUse }

/-- The file without a buffer is closed again. -/
def nullClosed : System := { cache := closeFile nullFile.cache 1, inUse := oneFile.inUse }

theorem oneFile_step : step startup (.openFile 1 allGranted true) = some oneFile := by
  have addr : (getNewBuffer emptyCache 1 allGranted).1 = fsCacheOffset := by decide +kernel
  simp only [step, startup, oneFile, addr, addBuffer]
  rfl

theorem nullFile_step :
    step oneFile (.openFile fsBufferSize (fun _ => .noPage) true) = some nullFile := by
  have addr : (getNewBuffer oneFile.cache fsBufferSize fun _ => .noPage).1 = 0 := by
    decide +kernel
  simp only [step, nullFile, addr, addBuffer, if_true]

theorem nullClosed_step : step nullFile (.close 1) = some nullClosed := by
  have file : nullFile.cache.table 1 = ⟨0, fsBufferSize, 1⟩ := by decide +kernel
  have erased : dropBuffer oneFile.inUse ⟨0, fsBufferSize, 1⟩ = oneFile.inUse := by decide +kernel
  simp only [step, file]
  rw [show nullFile.inUse = oneFile.inUse from rfl, erased]
  rfl

/-- Without the condition buffers meet. Closing a file that was cached at address 0 frees the
slots of another file, and the next request is given them. And an empty file is given the
first slot although it is taken, and the page of the other file is replaced. -/
theorem buffers_meet :
    (∃ system, Reachable (machine fun _ _ => True) system ∧ ¬ ServedApart system 1 allGranted) ∧
      ∃ system, Reachable (machine fun _ _ => True) system ∧ ¬ ServedApart system 0 allGranted := by
  have started : Reachable (machine fun _ _ => True) startup := .initial rfl
  have opened := started.call (.openFile 1 allGranted true) ⟨trivial, trivial⟩ oneFile_step
  have cached := opened.call (.openFile fsBufferSize (fun _ => .noPage) true) ⟨trivial, trivial⟩
    nullFile_step
  have closed := cached.call (.close 1) ⟨trivial, by decide +kernel, by decide +kernel⟩
    nullClosed_step
  have again : (getNewBuffer nullClosed.cache 1 allGranted).1 = fsCacheOffset := by
    decide +kernel
  have zero : (getNewBuffer oneFile.cache 0 allGranted).1 = fsCacheOffset := by decide +kernel
  have meets (size : Nat) : ¬ Apart ⟨fsCacheOffset, size⟩ ⟨fsCacheOffset, 1⟩ :=
    fun apart => apart.addr_ne rfl
  refine ⟨⟨nullClosed, closed, fun served => ?_⟩, ⟨oneFile, opened, fun served => ?_⟩⟩
  · exact meets 1 ((served _ _ (Prod.ext again rfl) (by decide)).2.2.2 _ mem_cons_self)
  · exact meets 0 ((served _ _ (Prod.ext zero rfl) (by decide)).2.2.2 _ mem_cons_self)

/-- A good run in which a second request is served. -/
theorem buffers_apart_second : Placeable oneFile.cache fsBufferSize ∧
    ServedApart oneFile fsBufferSize allGranted := by
  have free : Free emptyCache.taken 0 1 := ⟨by decide, fun _ _ _ => rfl⟩
  have good : Good startup (.openFile 1 allGranted true) :=
    ⟨fun zero => absurd zero (by decide), fun _ =>
      ⟨⟨⟨0, free⟩, fun index _ => ⟨_, rfl⟩⟩, 0, by decide, rfl⟩⟩
  have admitted : allowed Good startup (.openFile 1 allGranted true) := ⟨good, trivial⟩
  have opened : Reachable (machine Good) oneFile := .step (.initial rfl) admitted oneFile_step
  have placeable : Placeable oneFile.cache fsBufferSize := fun zero => absurd zero (by decide)
  exact ⟨placeable, buffers_apart opened allGranted placeable⟩

/-- The map of slots is as before, every page that was obtained has been given back, and no
page is mapped that was not mapped before. -/
def Restored (before after : Cache) : Prop :=
  after.taken = before.taken ∧
    (∃ pages, after.space.granted = before.space.granted ++ pages ∧
      after.space.returned = before.space.returned ++ pages) ∧
    ∀ page, after.space.pages page = before.space.pages page ∨ after.space.pages page = none

/-- A search that succeeds marks slots that were free: releasing them restores the map. An empty
file that finds the first slot taken marks none. -/
theorem search_release (isScan : search taken size bufferSlots 0 ⟨0, 0, false⟩ = scan)
    (found : size ≤ scan.bufferSize) :
    fill (fill taken scan.start (scan.start + scan.bufferSize / fsBufferSize) true) scan.start
      (scan.start + scan.bufferSize / fsBufferSize) false = taken := by
  subst isScan
  by_cases placeable : size = 0 → taken 0 = false
  · obtain ⟨start, run, isStart, length⟩ :=
      @search_run size ⟨taken, fun _ => ⟨0, 0, 0⟩, ⟨fun _ => none, [], []⟩⟩ placeable found
    simp only [isStart, length]
    exact fill_release run
  · obtain ⟨rfl, first⟩ : size = 0 ∧ taken 0 = true := by simpa using placeable
    have stops : search taken 0 bufferSlots 0 ⟨0, 0, false⟩ = ⟨0, 0, false⟩ := by
      rw [bufferSlots, search]
      simp [Scan.next, first]
    rw [stops]
    funext probe
    simp [fill]

/-- Slots are found for a request: a run of free ones that is long enough, and for an empty file
always. -/
def SlotsFound (cache : Cache) (size : Nat) : Prop :=
  size = 0 ∨ ∃ start, Free cache.taken start size

/-- All pages before one are mapped. -/
def MappedBefore (grants : Nat → Grant) (index : Nat) : Prop :=
  ∀ earlier < index, ∃ phys, grants earlier = .page phys

/-- If slots are found, the first page that is refused is not refused for want of a page table. -/
def TablesFirst (cache : Cache) (size : Nat) (grants : Nat → Grant) : Prop :=
  SlotsFound cache size → ∀ index < pageRounds (toMap size), MappedBefore grants index →
    ∀ phys, grants index ≠ .noTable phys

/-- The search succeeds exactly where enough free slots stand next to each other. -/
theorem search_slotsFound (cache : Cache) (size : Nat) :
    size ≤ (search cache.taken size bufferSlots 0 ⟨0, 0, false⟩).bufferSize ↔
      SlotsFound cache size := by
  constructor
  · intro found
    by_cases empty : size = 0
    · exact .inl empty
    · obtain ⟨start, run, _⟩ := search_run (fun zero => absurd zero empty) found
      exact .inr ⟨start, run⟩
  · rintro (rfl | ⟨start, run⟩)
    · exact Nat.zero_le _
    · have positive : 0 < slotsFor size := Nat.succ_pos _
      exact search_complete (slotsFor_spec size).1 run.free bufferSlots 0 0 _
        (tracks_start cache.taken) (by omega) (by have := run.inside; omega)

/-- The rounds of a loop that comes to its end were all served. -/
theorem mapPages_pages {done : Space} (remaining index : Nat) (space : Space)
    (completed : mapPages grants addr remaining index space = (none, done)) (round : Nat)
    (low : index ≤ round) (high : round < index + remaining) : ∃ phys, grants round = .page phys := by
  induction remaining generalizing index space with
  | zero => omega
  | succ remaining ih =>
    rw [mapPages] at completed
    split at completed
    · next phys isPage =>
      rcases Nat.eq_or_lt_of_le low with rfl | later
      · exact ⟨phys, isPage⟩
      · exact ih (index + 1) _ completed later (by omega)
    · cases (Prod.mk.inj completed).1
    · cases (Prod.mk.inj completed).1

/-- A loop fails at the first page that is refused. -/
theorem mapPages_stops (remaining index : Nat) (space : Space) {failed : Nat}
    (low : index ≤ failed) (high : failed < index + remaining)
    (mapped : ∀ round, index ≤ round → round < failed → ∃ phys, grants round = .page phys)
    (refused : ∀ phys, grants failed ≠ .page phys) :
    ∃ after, mapPages grants addr remaining index space = (some failed, after) := by
  induction remaining generalizing index space with
  | zero => omega
  | succ remaining ih =>
    rcases Nat.eq_or_lt_of_le low with rfl | later
    · rw [mapPages]
      split
      · next phys isPage => exact absurd isPage (refused phys)
      · exact ⟨_, rfl⟩
      · exact ⟨_, rfl⟩
    · obtain ⟨phys, isPage⟩ := mapped index (Nat.le_refl _) later
      rw [mapPages, isPage]
      exact ih _ _ later (by omega) fun round above => mapped round (by omega)

/-- A request that is refused because a page is missing or no slots are found gives back what it took. -/
theorem TablesFirst.restored (tables : TablesFirst cache size grants)
    (refused : (getNewBuffer cache size grants).1 = 0) :
    Restored cache (getNewBuffer cache size grants).2 := by
  have isFound := search_slotsFound cache size
  cases isScan : search cache.taken size bufferSlots 0 ⟨0, 0, false⟩ with
  | mk start bufferSize contiguous =>
  rw [isScan] at isFound
  by_cases found : size ≤ bufferSize
  · have release := search_release isScan found
    simp only [getNewBuffer, isScan, if_pos found] at refused release ⊢
    split at refused
    · have offset : fsCacheOffset = 0 := (Nat.or_eq_zero_iff.mp refused).1
      exact absurd offset (by decide)
    · next failed space mapping =>
      obtain ⟨_, inside, done, completed, ending⟩ := mapPages_failed _ 0 mapping
      have before : MappedBefore grants failed := fun earlier below =>
        mapPages_pages _ 0 _ completed earlier (Nat.zero_le _) (by omega)
      obtain ⟨_, rfl⟩ : grants failed = .noPage ∧ space = done :=
        ending.resolve_right fun ⟨phys, noTable, _⟩ =>
          tables (isFound.mp found) failed (by omega) before phys noTable
      obtain ⟨pages, mapped⟩ := freePages_mapped completed
      exact ⟨release, pages, mapped⟩
  · simp only [getNewBuffer, isScan, if_neg found]
    exact ⟨rfl, ⟨[], (append_nil _).symm, (append_nil _).symm⟩, fun _ => .inl rfl⟩

/-- The loop that frees pages does not look at what was obtained. -/
theorem freePages_granted (granted : List Nat) (remaining index : Nat) (space : Space) :
    freePages addr remaining index { space with granted := granted } =
      { freePages addr remaining index space with granted := granted } := by
  induction remaining generalizing index space with
  | zero => rfl
  | succ remaining ih =>
    rw [freePages, freePages, ← ih]
    congr 1
    simp only [vmmFreePage]
    split <;> rfl

/-- A request that is refused leaves the map of slots as it was, maps no page, and has given back
every page that it took, exactly if the first page that was refused was not refused for want of a
page table. -/
theorem refused_buffer_restores_iff (cache : Cache) (size : Nat) (grants : Nat → Grant) :
    ((getNewBuffer cache size grants).1 = 0 → Restored cache (getNewBuffer cache size grants).2) ↔
      TablesFirst cache size grants := by
  refine ⟨fun restores slots failed inside before phys noTable => ?_, TablesFirst.restored⟩
  have found := (search_slotsFound cache size).mpr slots
  generalize isScan : search cache.taken size bufferSlots 0 ⟨0, 0, false⟩ = scan at found
  obtain ⟨after, mapping⟩ := @mapPages_stops grants (fsCacheOffset ||| scan.start * fsBufferSize)
    (pageRounds (toMap size)) 0 cache.space failed (Nat.zero_le _) (by omega)
    (fun round _ => before round) (fun page isPage => by rw [noTable] at isPage; cases isPage)
  simp only [getNewBuffer, isScan, if_pos found, mapping, forall_const] at restores
  obtain ⟨_, ⟨pages, granted, returned⟩, _⟩ := restores
  obtain ⟨_, _, done, completed, isNoPage | ⟨taken, _, rfl⟩⟩ := mapPages_failed _ 0 mapping
  · rw [noTable] at isNoPage
    cases isNoPage.1
  · rw [Nat.sub_zero] at completed
    obtain ⟨given, isGranted, isReturned⟩ := (freePages_mapped completed).1
    have obtained : (freePages (fsCacheOffset ||| scan.start * fsBufferSize) failed 0
        done).granted = done.granted := by
      have same := congrArg Space.granted (@freePages_granted
        (fsCacheOffset ||| scan.start * fsBufferSize) done.granted failed 0 done)
      exact same
    have all : done.granted = cache.space.granted ++ given := obtained.symm.trans isGranted
    rw [freePages_granted] at granted returned
    -- one page more was obtained than was given back
    have extra : cache.space.granted ++ given ++ [taken] = cache.space.granted ++ pages :=
      all ▸ granted
    have back : cache.space.returned ++ given = cache.space.returned ++ pages :=
      isReturned.symm.trans returned
    have lengths := congrArg length extra
    have same := congrArg length back
    simp only [length_append, length_singleton] at lengths same
    omega

/-- The second page of a buffer is missing: the first one is given back. -/
theorem refused_buffer_restores_second :
    let grants : Nat → Grant := fun index => if index = 0 then .page 4096 else .noPage
    (getNewBuffer emptyCache 8192 grants).1 = 0 ∧
      Restored emptyCache (getNewBuffer emptyCache 8192 grants).2 := by
  intro grants
  have refused : (getNewBuffer emptyCache 8192 grants).1 = 0 := by decide +kernel
  refine ⟨refused, (refused_buffer_restores_iff emptyCache 8192 grants).mpr ?_ refused⟩
  intro _ index _ _ phys
  by_cases first : index = 0
  · simp [grants, first]
  · simp [grants, first]

/-- A page that no page table could be found for is not given back. -/
theorem refused_buffer_keeps_page :
    let answer := getNewBuffer emptyCache 1 fun _ => .noTable 4096
    answer.1 = 0 ∧ answer.2.space.granted = [4096] ∧ answer.2.space.returned = [] ∧
      ¬ Restored emptyCache answer.2 := by
  intro answer
  have granted : answer.2.space.granted = [4096] := by decide +kernel
  have returned : answer.2.space.returned = [] := by decide +kernel
  refine ⟨by decide +kernel, granted, returned, ?_⟩
  rintro ⟨_, ⟨pages, taken, given⟩, _⟩
  rw [granted] at taken
  rw [returned] at given
  simp only [emptyCache, nil_append] at taken given
  rw [← given] at taken
  exact absurd taken (by simp)

/-- Opening a file, opening it a number of times more, and closing it as often. -/
structure Round where
  size : Nat
  grants : Nat → Grant
  more : Nat

/-- The cache after the opens and closes of a round; a failed open ends it. -/
def Round.run (cache : Cache) (round : Round) : Cache :=
  match openFile cache round.size round.grants true with
  | (none, cache) => cache
  | (some index, cache) =>
    (fun cache => closeFile cache index)^[round.more + 1]
      ((fun cache => increaseRef cache index)^[round.more] cache)

/-- The file table has a slot that nothing refers to, and it is the first free one. -/
def SlotFree (cache : Cache) : Prop :=
  freeSlot cache.table fsMaxFile 0 < fsMaxFile ∧
    (cache.table (freeSlot cache.table fsMaxFile 0)).reference = 0

/-- The file fills whole slots and its buffer can be had. -/
def Round.Whole (cache : Cache) (round : Round) : Prop :=
  round.size ≠ 0 ∧ fsBufferSize ∣ round.size ∧ Roomy cache round.size round.grants

/-- No buffer is to be had, for want of slots or of a page. The file is then cached at address 0: the
slots and pages that its last close frees, from there on, are free already. -/
structure Round.Unserved (cache : Cache) (round : Round) : Prop where
  tables : TablesFirst cache round.size round.grants
  refused : ¬ SlotsFound cache round.size ∨ ∃ index < pageRounds (toMap round.size),
    round.grants index = .noPage ∧ MappedBefore round.grants index
  slots : ∀ slot < round.size / fsBufferSize, cache.taken slot = false
  pages : ∀ page < pageRounds round.size, cache.space.pages page = none

/-- Opening a file a number of times adds to its references. -/
theorem increaseRef_iterate {index : Nat} (count : Nat) (cache : Cache)
    (small : (cache.table index).reference + count < 2 ^ 32) :
    (fun cache => increaseRef cache index)^[count] cache =
      { cache with
        table := update cache.table index
          { cache.table index with reference := (cache.table index).reference + count } } := by
  induction count generalizing cache with
  | zero => simp
  | succ count ih =>
    have here : (cache.table index).reference + 1 < 2 ^ 32 := by omega
    rw [iterate_succ, comp_apply, ih]
    · simp only [increaseRef, update_self, update_idem, Nat.mod_eq_of_lt here]
      congr 3
      omega
    · simp only [increaseRef, update_self, Nat.mod_eq_of_lt here]
      omega

/-- The last close gives the buffer back. -/
theorem closeFile_last {index : Nat} (reference : (cache.table index).reference = 1) :
    closeFile cache index =
      { freeBuffer cache index with
        table := update cache.table index
          { cache.table index with reference := 0, size := 0 } } := by
  rw [closeFile, reference]
  rfl

/-- Any other close only lowers the references. -/
theorem closeFile_more {index : Nat} (reference : (cache.table index).reference = count + 1 + 1)
    (small : count + 1 + 1 < 2 ^ 32) :
    closeFile cache index =
      { cache with
        table := update cache.table index { cache.table index with reference := count + 1 } } := by
  have left : (count + 1 + 1 + (2 ^ 32 - 1)) % 2 ^ 32 = count + 1 := by omega
  simp only [closeFile, reference, left, Nat.succ_ne_zero, if_false]

/-- References are counted down, and the last close frees the buffer. -/
theorem closeFile_iterate {index : Nat} (count : Nat) (cache : Cache)
    (references : (cache.table index).reference = count + 1) (small : count + 1 < 2 ^ 32) :
    (fun cache => closeFile cache index)^[count + 1] cache =
      { freeBuffer cache index with
        table := update cache.table index
          { cache.table index with reference := 0, size := 0 } } := by
  induction count generalizing cache with
  | zero =>
    rw [Nat.zero_add] at references ⊢
    rw [iterate_one, closeFile_last references]
  | succ count ih =>
    rw [iterate_succ, comp_apply, closeFile_more references small, ih]
    · simp only [freeBuffer, update_self, update_idem]
    · simp only [update_self]
    · omega

/-- A buffer of whole slots is released by the slots that were taken for it. -/
theorem whole_slots (nonempty : size ≠ 0) (whole : fsBufferSize ∣ size) :
    size / fsBufferSize = slotsFor size := by
  obtain ⟨count, rfl⟩ := whole
  unfold slotsFor
  unfold fsBufferSize at *
  omega

/-- The file is opened more often and closed as often: in the end its buffer is freed. -/
theorem uses_eq {index : Nat} (reference : (cache.table index).reference = 1)
    (small : more + 1 < 2 ^ 32) :
    (fun cache => closeFile cache index)^[more + 1]
        ((fun cache => increaseRef cache index)^[more] cache) =
      { freeBuffer cache index with
        table := update cache.table index
          { cache.table index with reference := 0, size := 0 } } := by
  rw [increaseRef_iterate more cache (by omega), closeFile_iterate]
  · simp only [freeBuffer, update_self, update_idem]
  · simp only [update_self, reference]
    omega
  · exact small

/-- An open puts the buffer that it got into the first free slot. -/
theorem openFile_eq (slot : SlotFree cache)
    (result : getNewBuffer cache size grants = (addr, after)) (table : after.table = cache.table) :
    openFile cache size grants true = (some (freeSlot cache.table fsMaxFile 0),
      { after with
        table := update cache.table (freeSlot cache.table fsMaxFile 0) ⟨addr, size, 1⟩ }) := by
  obtain ⟨inTable, unused⟩ := slot
  simp only [openFile, result, addFile, table, inTable, increaseRef, Bool.true_eq_false, if_true,
    if_false, update_self, update_idem, unused]
  rfl

/-- What a round does when its request is answered with some address. -/
theorem Round.run_eq {round : Round} (slot : SlotFree cache) (small : round.more + 1 < 2 ^ 32)
    (result : getNewBuffer cache round.size round.grants = (addr, after))
    (table : after.table = cache.table) : round.run cache =
      { taken := fill after.taken ((addr &&& offsetMask) / fsBufferSize)
          ((addr &&& offsetMask) / fsBufferSize + round.size / fsBufferSize) false
        table := update cache.table (freeSlot cache.table fsMaxFile 0) ⟨addr, 0, 0⟩
        space := freePages addr (pageRounds round.size) 0 after.space } := by
  simp only [Round.run, openFile_eq slot result table]
  rw [uses_eq (by simp only [update_self]) small]
  simp only [freeBuffer, update_self, update_idem]

/-- The table is not touched by a request. -/
theorem getNewBuffer_table (cache : Cache) (size : Nat) (grants : Nat → Grant) :
    (getNewBuffer cache size grants).2.table = cache.table := by
  dsimp only [getNewBuffer]
  split
  · split <;> rfl
  · rfl

/-- A round leaves the first free slot of the table free. -/
theorem Round.run_table {round : Round} (slot : SlotFree cache) (small : round.more + 1 < 2 ^ 32) :
    ∃ addr, (round.run cache).table =
      update cache.table (freeSlot cache.table fsMaxFile 0) ⟨addr, 0, 0⟩ := by
  rw [Round.run_eq slot small rfl (getNewBuffer_table ..)]
  exact ⟨_, rfl⟩

/-- A request that is served takes a run of free slots for a nonempty file and maps its pages, and the
last close frees the whole slots of it. -/
theorem Round.run_served {round : Round} (slot : SlotFree cache) (small : round.more + 1 < 2 ^ 32)
    (nonempty : round.size ≠ 0) (roomy : Roomy cache round.size round.grants) :
    ∃ start, Free cache.taken start round.size ∧
      (round.run cache).taken = fill (fill cache.taken start (start + slotsFor round.size) true)
        start (start + round.size / fsBufferSize) false ∧
      (∃ pages, (round.run cache).space.granted = cache.space.granted ++ pages ∧
        (round.run cache).space.returned = cache.space.returned ++ pages) ∧
      ∀ page, (round.run cache).space.pages page = cache.space.pages page ∨
        (round.run cache).space.pages page = none := by
  have served := getNewBuffer_roomy roomy
  cases result : getNewBuffer cache round.size round.grants with
  | mk addr after =>
  rw [result] at served
  obtain ⟨table, refused | ⟨_, start, run, address, taken, mapping⟩⟩ :=
    getNewBuffer_cases (fun zero => absurd zero nonempty) result
  · exact absurd refused.1 served
  rw [toMap, if_pos nonempty] at mapping
  obtain ⟨pages, mapped⟩ := freePages_mapped mapping
  have inside := run.inside
  have positive : 0 < slotsFor round.size := Nat.succ_pos _
  rw [Round.run_eq slot small result table]
  refine ⟨start, run, ?_, pages, mapped⟩
  simp only [taken, address, address_slot (by omega : start < bufferSlots)]

/-- A round whose buffer is whole restores the cache. -/
theorem Round.Whole.restored {round : Round} (whole : round.Whole cache) (slot : SlotFree cache)
    (small : round.more + 1 < 2 ^ 32) : Restored cache (round.run cache) := by
  obtain ⟨nonempty, divides, roomy⟩ := whole
  obtain ⟨start, run, taken, pages, mapped⟩ := Round.run_served slot small nonempty roomy
  refine ⟨?_, pages, mapped⟩
  rw [taken, whole_slots nonempty divides, fill_release run]

/-- The pages of a range that is not mapped are freed without effect. -/
theorem freePages_unmapped (remaining index : Nat) (space : Space)
    (unmapped : ∀ offset < remaining, space.pages (addr / pageSize + index + offset) = none) :
    freePages addr remaining index space = space := by
  induction remaining generalizing index with
  | zero => rfl
  | succ remaining ih =>
    have first : vmmFreePage space (addr / pageSize + index) = space := by
      rw [vmmFreePage, show space.pages (addr / pageSize + index) = none from unmapped 0 (by omega)]
    rw [freePages, first]
    refine ih (index + 1) fun offset below => ?_
    rw [show addr / pageSize + (index + 1) + offset = addr / pageSize + index + (offset + 1) by omega]
    exact unmapped (offset + 1) (by omega)

/-- A request without slots or without a page is refused. -/
theorem Round.Unserved.isRefused {round : Round} (unserved : round.Unserved cache) :
    (getNewBuffer cache round.size round.grants).1 = 0 := by
  rcases unserved.refused with noSlots | ⟨failed, inside, noPage, before⟩
  · have notFound := mt (search_slotsFound cache round.size).mp noSlots
    simp only [getNewBuffer, if_neg notFound]
  · dsimp only [getNewBuffer]
    split
    · obtain ⟨after, mapping⟩ := @mapPages_stops round.grants _ (pageRounds (toMap round.size)) 0
        cache.space failed (Nat.zero_le _) (by omega) (fun index _ => before index)
        (fun phys isPage => by rw [noPage] at isPage; cases isPage)
      rw [mapping]
    · rfl

/-- So does a round whose open gets no buffer. -/
theorem Round.Unserved.restored {round : Round} (unserved : round.Unserved cache)
    (slot : SlotFree cache) (small : round.more + 1 < 2 ^ 32) :
    Restored cache (round.run cache) := by
  have isRefused := unserved.isRefused
  obtain ⟨taken, pages, mapped⟩ := unserved.tables.restored isRefused
  cases result : getNewBuffer cache round.size round.grants with
  | mk addr after =>
  have table := getNewBuffer_table cache round.size round.grants
  rw [result] at isRefused taken pages mapped table
  obtain rfl : addr = 0 := isRefused
  rw [Round.run_eq slot small result table]
  have same : freePages 0 (pageRounds round.size) 0 after.space = after.space := by
    refine freePages_unmapped _ 0 _ fun page below => ?_
    rw [Nat.zero_div, Nat.add_zero, Nat.zero_add]
    rcases mapped page with unchanged | none
    · exact unchanged.trans (unserved.pages page below)
    · exact none
  rw [same]
  refine ⟨?_, pages, mapped⟩
  funext probe
  have kept : after.taken probe = cache.taken probe := congrFun taken probe
  simp only [Nat.zero_and, Nat.zero_div, Nat.zero_add, fill, kept]
  split
  · next below => exact (unserved.slots probe below.2).symm
  · rfl

/-- An empty file leaves the page that was mapped for it. -/
theorem Round.run_empty (slot : SlotFree cache) (small : more + 1 < 2 ^ 32) {phys : Nat}
    (first : grants 0 = .page phys) :
    (Round.run cache ⟨0, grants, more⟩).space.granted = cache.space.granted ++ [phys] ∧
      (Round.run cache ⟨0, grants, more⟩).space.returned = cache.space.returned := by
  have one : pageRounds (toMap 0) = 1 := by decide
  have none : pageRounds 0 = 0 := by decide
  have table := getNewBuffer_table cache 0 grants
  have mapped : (getNewBuffer cache 0 grants).2.space.granted = cache.space.granted ++ [phys] ∧
      (getNewBuffer cache 0 grants).2.space.returned = cache.space.returned := by
    simp only [getNewBuffer, Nat.zero_le, if_true, one, mapPages, first, and_self]
  generalize result : getNewBuffer cache 0 grants = answer at table mapped
  rw [@Round.run_eq _ _ cache ⟨0, grants, more⟩ slot small result table, none]
  exact mapped

/-- A round whose request is served restores the cache only if the file fills whole slots. -/
theorem Round.whole_of_restored {round : Round} (slot : SlotFree cache)
    (small : round.more + 1 < 2 ^ 32) (roomy : Roomy cache round.size round.grants)
    (restored : Restored cache (round.run cache)) : round.Whole cache := by
  have nonempty : round.size ≠ 0 := by
    obtain ⟨size, grants, more⟩ := round
    rintro rfl
    obtain ⟨phys, first⟩ := roomy.2 0 (show 0 < pageRounds (toMap 0) by decide)
    obtain ⟨granted, returned⟩ := Round.run_empty slot small first
    obtain ⟨_, ⟨pages, isGranted, isReturned⟩, _⟩ := restored
    rw [granted, append_right_inj] at isGranted
    rw [returned, ← isGranted] at isReturned
    have lengths := congrArg length isReturned
    simp only [length_append, length_singleton] at lengths
    omega
  refine ⟨nonempty, ?_, roomy⟩
  obtain ⟨start, run, taken, _⟩ := Round.run_served slot small nonempty roomy
  by_contra part
  -- the last slot stays taken
  have short : round.size / fsBufferSize < slotsFor round.size := by
    unfold slotsFor
    unfold fsBufferSize at part ⊢
    omega
  generalize round.size / fsBufferSize = whole at short taken
  have last := congrFun (taken.symm.trans restored.1) (start + slotsFor round.size - 1)
  rw [run.free _ (by omega) (by omega), fill, if_neg (by omega), fill, if_pos (by omega)] at last
  cases last

/-- Two rounds after each other restore the cache. -/
theorem Restored.trans {first second : Cache} (restored : Restored first second)
    (again : Restored second third) : Restored first third := by
  obtain ⟨taken, ⟨pages, granted, returned⟩, mapped⟩ := restored
  obtain ⟨takenAgain, ⟨more, grantedAgain, returnedAgain⟩, mappedAgain⟩ := again
  refine ⟨takenAgain.trans taken, ⟨pages ++ more, ?_, ?_⟩, fun page => ?_⟩
  · rw [grantedAgain, granted, append_assoc]
  · rw [returnedAgain, returned, append_assoc]
  · rcases mappedAgain page with same | none
    · rw [same]
      exact mapped page
    · exact .inr none

/-- Clearing the first free slot of the table keeps it the first free one. -/
theorem freeSlot_update (addr remaining index target : Nat)
    (isTarget : freeSlot table remaining index = target) :
    freeSlot (update table target ⟨addr, 0, 0⟩) remaining index = target := by
  induction remaining generalizing index with
  | zero => exact isTarget
  | succ remaining ih =>
    rw [freeSlot] at isTarget ⊢
    by_cases here : index = target
    · rw [here, update_self, if_pos rfl]
    · rw [update_of_ne here]
      split at isTarget
      · exact absurd isTarget here
      · next taken =>
        rw [if_neg taken]
        exact ih (index + 1) isTarget

/-- What a round needs stays when the cache is restored. -/
theorem Restored.unserved {round : Round} (restored : Restored cache after)
    (unserved : round.Unserved cache) : round.Unserved after := by
  obtain ⟨taken, _, mapped⟩ := restored
  obtain ⟨tables, refused, slots, pages⟩ := unserved
  simp only [TablesFirst, SlotsFound, ← taken] at tables refused slots
  refine ⟨tables, refused, slots, fun page below => ?_⟩
  rcases mapped page with same | none
  · exact same.trans (pages page below)
  · exact none

/-- Any number of rounds, each with a file of whole slots or without a buffer for it, leaves the map of slots as it was, gives
back every page, and leaves no page mapped. A round that is served restores the cache exactly if its
file is not empty and fills whole slots. -/
theorem rounds_restore (cache : Cache) (slot : SlotFree cache) :
    (∀ round : Round, round.more + 1 < 2 ^ 32 → Roomy cache round.size round.grants →
      (Restored cache (round.run cache) ↔ round.size ≠ 0 ∧ fsBufferSize ∣ round.size)) ∧
    ∀ rounds : List Round, (∀ round ∈ rounds, round.more + 1 < 2 ^ 32 ∧
        (round.Whole cache ∨ round.Unserved cache)) →
      Restored cache (rounds.foldl Round.run cache) := by
  refine ⟨fun round small roomy => ⟨fun restored => ?_, fun whole => ?_⟩, fun rounds each => ?_⟩
  · obtain ⟨nonempty, divides, _⟩ := Round.whole_of_restored slot small roomy restored
    exact ⟨nonempty, divides⟩
  · exact Round.Whole.restored ⟨whole.1, whole.2, roomy⟩ slot small
  induction rounds generalizing cache with
  | nil =>
    exact ⟨rfl, ⟨[], (append_nil _).symm, (append_nil _).symm⟩, fun _ => .inl rfl⟩
  | cons round rounds ih =>
    obtain ⟨small, kind⟩ := each round mem_cons_self
    have restored : Restored cache (round.run cache) :=
      kind.elim (·.restored slot small) (·.restored slot small)
    obtain ⟨addr, table⟩ := Round.run_table slot small
    have same : freeSlot (round.run cache).table fsMaxFile 0 =
        freeSlot cache.table fsMaxFile 0 := by
      rw [table]
      exact freeSlot_update cache.table addr fsMaxFile 0 _ rfl
    have slotAgain : SlotFree (round.run cache) := by
      rw [SlotFree, same, table, update_self]
      exact ⟨slot.1, rfl⟩
    refine restored.trans (ih _ slotAgain fun other member => ?_)
    obtain ⟨small, kind⟩ := each other (mem_cons_of_mem _ member)
    refine ⟨small, kind.imp (fun whole => ?_) restored.unserved⟩
    obtain ⟨nonempty, divides, free, pages⟩ := whole
    exact ⟨nonempty, divides, restored.1 ▸ free, pages⟩

/-- Two rounds with files of 32 MiB, and one for whose file no page is left. -/
theorem rounds_restore_two :
    Restored emptyCache ([⟨fsBufferSize, allGranted, 0⟩, ⟨fsBufferSize, allGranted, 3⟩,
      ⟨1, fun _ => .noPage, 0⟩].foldl Round.run emptyCache) := by
  have free : Free emptyCache.taken 0 fsBufferSize := ⟨by decide, fun _ _ _ => rfl⟩
  have roomy : Roomy emptyCache fsBufferSize allGranted := ⟨⟨0, free⟩, fun index _ => ⟨_, rfl⟩⟩
  have whole : ∀ more, Round.Whole emptyCache ⟨fsBufferSize, allGranted, more⟩ :=
    fun _ => ⟨show fsBufferSize ≠ 0 by decide, Nat.dvd_refl _, roomy⟩
  have unserved : Round.Unserved emptyCache ⟨1, fun _ => .noPage, 0⟩ :=
    ⟨fun _ _ _ _ _ isTable => (by cases isTable),
      .inr ⟨0, by decide, rfl, fun _ below => absurd below (Nat.not_lt_zero _)⟩,
      fun _ _ => rfl, fun _ _ => rfl⟩
  refine (rounds_restore emptyCache ⟨by decide, rfl⟩).2 _ fun round member => ?_
  simp only [mem_cons, not_mem_nil, or_false] at member
  rcases member with rfl | rfl | rfl
  · exact ⟨by decide, .inl (whole 0)⟩
  · exact ⟨by decide, .inl (whole 3)⟩
  · exact ⟨by decide, .inr unserved⟩

/-- A file that does not fill its last slot leaves that slot taken, and an empty file its page
as well. -/
theorem round_leaks :
    (Round.run emptyCache ⟨1, allGranted, 0⟩).taken 0 = true ∧ emptyCache.taken 0 = false ∧
      (Round.run emptyCache ⟨0, allGranted, 0⟩).taken 0 = true ∧
      ((Round.run emptyCache ⟨0, allGranted, 0⟩).space.pages
        (fsCacheOffset / pageSize)).isSome := by
  decide +kernel

end Balrog.FileBuffers
