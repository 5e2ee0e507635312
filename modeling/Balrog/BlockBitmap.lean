import Mathlib.Algebra.Group.Nat.Defs
import Mathlib.Data.Nat.Find
import Mathlib.Tactic.Common

/-!
# The block bitmap of an ext2 image

`__ext2_find_free_bitmap` looks for the first clear bit of a bitmap, sets it and returns
its position plus one; `__ext2_free_alloc_block` clears the bit at the position of the
block number minus one. In an image with blocks of 4096 bytes the first data block is block 0,
and bit `b` stands for block `b`. So the block that is handed out is the one after the
free block, and the bit that is cleared is the one before the block that is given back.

A device is its sectors of 512 bytes, with reads and writes that may fail. Left out: the
copies of the superblock and of the group descriptor on the device, which
`__ext2_update_sb_and_blk_desc` writes, and the debug output.
-/

namespace Balrog.BlockBitmap

open List

/-- The sectors of a device, and which of them can be read and written. -/
structure Device where
  sector : Nat → Nat → BitVec 8
  reads : Nat → Bool
  writes : Nat → Bool

/-- The fields of `ext2_fs_data` that the allocation of blocks uses: `blocks`,
`superblock_id` and `unalloc_blocks` of the superblock, `num_of_unalloc_block` and
`block_addr_of_block_usage_bitmap` of the group descriptor, and `sec_per_block`. -/
structure Image where
  device : Device
  blocks : Nat
  firstDataBlock : Nat
  unallocBlocks : Nat
  groupUnallocBlocks : Nat
  bitmapBlock : Nat
  secPerBlock : Nat

/-- The device after one byte of one sector has been written. -/
def Device.set (device : Device) (lba index : Nat) (byte : BitVec 8) : Device :=
  { device with sector := fun place => if place = lba then
      fun position => if position = index then byte else device.sector lba position
    else device.sector place }

/-- The lowest clear bit of a byte, which the search tries with a shifted mask. -/
def freeBit (byte : BitVec 8) : Option Nat :=
  if byte = 0xff#8 then none
  else (List.range 8).find? (fun bit => ~~~byte &&& (1#8 <<< bit) ≠ 0#8)

/-- The loop over the bytes of a sector. -/
def freeInSector (sector : Nat → BitVec 8) : Option (Nat × Nat) :=
  (List.range 512).findSome? (fun index => (freeBit (sector index)).map (fun bit => (index, bit)))

/-- The body of the loop over the sectors: the number of a block, 0 if the device fails, or
nothing if the sector is full. -/
def searchSector (device : Device) (start mapIdx : Nat) : Option (Nat × Device) :=
  let lba := start + mapIdx / 512
  if device.reads lba then
    match freeInSector (device.sector lba) with
    | some (index, bit) =>
      if device.writes lba then
        some ((bit + index * 8 + 4096 * (mapIdx / 512) + 1) % 2 ^ 32,
          device.set lba index (device.sector lba index ||| (1#8 <<< bit)))
      else some (0, device)
    | none => none
  else some (0, device)

/-- The loop over the sectors of the bitmap. -/
def findFrom (device : Device) (start : Nat) : List Nat → Nat × Device
  | [] => (0, device)
  | mapIdx :: rest =>
    match searchSector device start mapIdx with
    | some result => result
    | none => findFrom device start rest

/-- The values of `map_idx`. -/
def offsets (bitmapSize mapIdxStart : Nat) : List Nat :=
  (List.range ((bitmapSize - mapIdxStart + 511) / 512)).map (fun round => mapIdxStart + 512 * round)

/-- `__ext2_find_free_bitmap` -/
def findFreeBitmap (device : Device) (bitmapSize startIdx secPerBlock mapIdxStart : Nat) :
    Nat × Device :=
  findFrom device (startIdx * secPerBlock) (offsets bitmapSize mapIdxStart)

/-- `__ext2_find_free_blocks` -/
def findFreeBlocks (image : Image) : Nat × Image :=
  let (blockId, device) :=
    findFreeBitmap image.device (image.blocks / 8) image.bitmapBlock image.secPerBlock 0
  if blockId ≠ 0 then
    (blockId, { image with
      device := device
      unallocBlocks := (image.unallocBlocks + (2 ^ 32 - 1)) % 2 ^ 32
      groupUnallocBlocks := (image.groupUnallocBlocks + (2 ^ 16 - 1)) % 2 ^ 16 })
  else (blockId, { image with device := device })

/-- `__ext2_free_alloc_block`; nothing stands for the result -1. -/
def freeAllocBlock (image : Image) (blockId : Nat) : Option Image :=
  let position := (blockId + (2 ^ 32 - 1)) % 2 ^ 32
  let lba := (image.bitmapBlock * image.secPerBlock + position / 8 / 512) % 2 ^ 32
  let index := position / 8 % 512
  if image.device.reads lba ∧ image.device.writes lba then
    some { image with
      device := image.device.set lba index
        (image.device.sector lba index &&& (0xff#8 ^^^ (1#8 <<< (position % 8))))
      unallocBlocks := (image.unallocBlocks + 1) % 2 ^ 32
      groupUnallocBlocks := (image.groupUnallocBlocks + 1) % 2 ^ 16 }
  else none

/-- The bit at a position of the bitmap that begins at the given sector. -/
def Device.bit (device : Device) (start position : Nat) : Bool :=
  (device.sector (start + position / 4096) (position / 8 % 512)).getLsbD (position % 8)

/-- Whether the bitmap marks a block as used, counted from the first data block. -/
def marked (image : Image) (block : Nat) : Bool :=
  image.device.bit (image.bitmapBlock * image.secPerBlock) (block - image.firstDataBlock)

/-- The image on a device that refuses some of the reads and writes. -/
def Image.withFaults (image : Image) (reads writes : Nat → Bool) : Image :=
  { image with device := { image.device with reads := reads, writes := writes } }

/-- The first free block that the search can come to, if there is one, is followed by a free block.
The search reads whole sectors, so it looks at the bits behind the last block as well; the position
plus one has to fit 32 bits, else the search returns 0. -/
def FreePair (image : Image) : Prop :=
  ∀ block, block < 4096 * ((image.blocks / 8 + 511) / 512) → block + 1 < 2 ^ 32 →
    marked image block = false → (∀ lower < block, marked image lower = true) →
    marked image (block + 1) = false

/-- A block and the one before it, whose bit is cleared in its place, are both free already. -/
def FreeBefore (image : Image) (block : Nat) : Prop :=
  marked image ((block + (2 ^ 32 - 1)) % 2 ^ 32) = false ∧ marked image block = false

/-- Whatever the device refuses, a block that is handed out was marked free. -/
def HandsOutFree (image : Image) : Prop :=
  ∀ reads writes, (findFreeBlocks (image.withFaults reads writes)).1 ≠ 0 →
    marked image (findFreeBlocks (image.withFaults reads writes)).1 = false

/-- Whatever the device refuses, giving back a block clears its bit and no other. -/
def ClearsItsBit (image : Image) (blockId : Nat) : Prop :=
  ∀ reads writes after, freeAllocBlock (image.withFaults reads writes) blockId = some after →
    marked after blockId = false ∧
      ∀ other, other ≠ blockId → marked after other = marked image other

variable {bit place first : Nat}

variable {byte : BitVec 8} {bound blockId index rounds cleared : Nat} {sector : Nat → BitVec 8}
  {image after : Image}

/-- The loop over a byte finds the first clear bit. -/
theorem freeBit_some (found : freeBit byte = some bit) :
    bit < 8 ∧ byte.getLsbD bit = false ∧ ∀ lower < bit, byte.getLsbD lower = true := by
  have all : ∀ byte : BitVec 8, ∀ bit ∈ freeBit byte,
      bit < 8 ∧ byte.getLsbD bit = false ∧ ∀ lower < bit, byte.getLsbD lower = true := by
    decide +kernel
  exact all byte bit found

theorem freeBit_none (full : freeBit byte = none) (inside : bit < 8) : byte.getLsbD bit = true := by
  have all : ∀ byte : BitVec 8, freeBit byte = none → ∀ bit < 8, byte.getLsbD bit = true := by
    decide +kernel
  exact all byte full bit inside

/-- A search through the numbers below a bound finds the first answer. -/
theorem findSome_range {Answer : Type} {test : Nat → Option Answer} {answer : Answer}
    (found : (List.range bound).findSome? test = some answer) :
    ∃ index < bound, test index = some answer ∧ ∀ lower < index, test lower = none := by
  obtain ⟨earlier, index, later, isRange, isAnswer, none⟩ := findSome?_eq_some_iff.mp found
  rw [range_eq_range', range'_eq_append_iff] at isRange
  obtain ⟨count, _, rfl, isRest⟩ := isRange
  obtain ⟨isIndex, positive, _⟩ := range'_eq_cons_iff.mp isRest.symm
  refine ⟨index, by omega, isAnswer, fun lower below => none lower (mem_range'_1.mpr ?_)⟩
  omega

variable {device : Device} {start : Nat}

/-- The loop over a sector finds its first clear bit. -/
theorem freeInSector_some (found : freeInSector sector = some (index, bit)) :
    index < 512 ∧ bit < 8 ∧ (sector index).getLsbD bit = false ∧
      ∀ place < index * 8 + bit, (sector (place / 8)).getLsbD (place % 8) = true := by
  obtain ⟨place, inside, isPlace, first⟩ := findSome_range found
  obtain ⟨low, isBit, isPair⟩ := Option.map_eq_some_iff.mp isPlace
  cases isPair
  obtain ⟨small, clear, lower⟩ := freeBit_some isBit
  refine ⟨inside, small, clear, fun other before => ?_⟩
  by_cases same : other / 8 = index
  · rw [same]
    exact lower _ (by omega)
  · have none := first (other / 8) (by omega)
    exact freeBit_none (Option.map_eq_none_iff.mp none) (Nat.mod_lt _ (by decide))

theorem freeInSector_none (full : freeInSector sector = none) (inside : place < 4096) :
    (sector (place / 8)).getLsbD (place % 8) = true := by
  have none := findSome?_eq_none_iff.mp full (place / 8) (mem_range.mpr (by omega))
  exact freeBit_none (Option.map_eq_none_iff.mp none) (Nat.mod_lt _ (by decide))

theorem bit_sector (device : Device) (start round : Nat) (inside : place < 4096) :
    device.bit start (4096 * round + place) =
      (device.sector (start + round) (place / 8)).getLsbD (place % 8) := by
  have isSector : (4096 * round + place) / 4096 = round := by omega
  have isByte : (4096 * round + place) / 8 % 512 = place / 8 := by omega
  have isBit : (4096 * round + place) % 8 = place % 8 := by omega
  rw [Device.bit, isSector, isByte, isBit]

/-- The device after the bit at a position of a bitmap has been set. -/
def Device.setBit (device : Device) (start position : Nat) : Device :=
  device.set (start + position / 4096) (position / 8 % 512)
    (device.sector (start + position / 4096) (position / 8 % 512) ||| (1#8 <<< (position % 8)))

/-- How a search through some sectors ends: with 0, which on a device that does not fail means that
all bits are set, or with the position of the first clear bit plus one, in 32 bits. That bit is then
set on the device, and no other one. -/
def Searched (device : Device) (start first past : Nat) (result : Nat × Device) : Prop :=
  (result = (0, device) ∧ ((∀ lba, device.reads lba = true ∧ device.writes lba = true) →
    ∀ position, 4096 * first ≤ position → position < 4096 * past →
      device.bit start position = true)) ∨
  ∃ position, 4096 * first ≤ position ∧ position < 4096 * past ∧
    device.bit start position = false ∧
    (∀ lower, 4096 * first ≤ lower → lower < position → device.bit start lower = true) ∧
    device.reads (start + position / 4096) = true ∧ device.writes (start + position / 4096) = true ∧
    result = ((position + 1) % 2 ^ 32, device.setBit start position)

/-- A search depends on the sectors only. -/
theorem findFrom_sectors (places : List Nat) :
    findFrom device start places = findFrom device start ((places.map (· / 512)).map (512 * ·)) := by
  induction places with
  | nil => rfl
  | cons mapIdx rest ih =>
    have same : 512 * (mapIdx / 512) / 512 = mapIdx / 512 := by omega
    have round : searchSector device start (512 * (mapIdx / 512)) =
        searchSector device start mapIdx := by
      simp only [searchSector, same]
    rw [map_cons, map_cons, findFrom, findFrom, round, ih]

/-- The induction is on the number of sectors. -/
theorem findFrom_searched (first rounds : Nat) : Searched device start first (first + rounds)
    (findFrom device start ((List.range' first rounds).map (512 * ·))) := by
  induction rounds generalizing first with
  | zero => exact .inl ⟨rfl, fun _ position above below => by omega⟩
  | succ rounds ih =>
    have isRound : 512 * first / 512 = first := by omega
    rw [List.range'_succ, map_cons, findFrom, searchSector]
    simp only [isRound]
    by_cases readable : device.reads (start + first) = true
    · rw [if_pos readable]
      cases isFree : freeInSector (device.sector (start + first)) with
      | none =>
        have full (position : Nat) (above : 4096 * first ≤ position)
            (below : position < 4096 * (first + 1)) : device.bit start position = true := by
          obtain ⟨place, rfl⟩ := Nat.exists_eq_add_of_le above
          rw [bit_sector device start first (by omega)]
          exact freeInSector_none isFree (by omega)
        rcases ih (first + 1) with ⟨nothing, all⟩ | ⟨position, above, below, clear, lower, found⟩
        · refine .inl ⟨nothing, fun reliable position above below => ?_⟩
          by_cases here : position < 4096 * (first + 1)
          · exact full position above here
          · exact all reliable position (by omega) (by omega)
        · refine .inr ⟨position, by omega, by omega, clear, fun other before after => ?_, found⟩
          by_cases here : other < 4096 * (first + 1)
          · exact full other before here
          · exact lower other (by omega) after
      | some found =>
        obtain ⟨index, bit⟩ := found
        obtain ⟨inside, low, clear, lower⟩ := freeInSector_some isFree
        by_cases writable : device.writes (start + first) = true
        · have isSector : (4096 * first + (index * 8 + bit)) / 4096 = first := by omega
          have isByte : (4096 * first + (index * 8 + bit)) / 8 % 512 = index := by omega
          have isBit : (4096 * first + (index * 8 + bit)) % 8 = bit := by omega
          have sum : bit + index * 8 + 4096 * first = 4096 * first + (index * 8 + bit) := by omega
          refine .inr ⟨4096 * first + (index * 8 + bit), by omega, by omega, ?_,
            fun other before after => ?_, ?_⟩
          · rw [Device.bit, isSector, isByte, isBit]
            exact clear
          · obtain ⟨place, rfl⟩ := Nat.exists_eq_add_of_le before
            rw [bit_sector device start first (by omega)]
            exact lower place (by omega)
          · simp only [isSector, if_pos writable, Device.setBit, isByte, isBit, sum]
            exact ⟨readable, writable, trivial⟩
        · simp only [if_neg writable]
          exact .inl ⟨rfl, fun reliable => absurd (reliable _).2 writable⟩
    · rw [if_neg readable]
      exact .inl ⟨rfl, fun reliable => absurd (reliable _).1 readable⟩

/-- The sectors a search looks at, from that of the start on. -/
theorem offsets_sectors (bitmapSize mapIdxStart : Nat) :
    (offsets bitmapSize mapIdxStart).map (· / 512) =
      List.range' (mapIdxStart / 512) ((bitmapSize - mapIdxStart + 511) / 512) := by
  rw [offsets, map_map, List.range'_eq_map_range]
  refine map_congr_left fun round _ => ?_
  simp only [Function.comp]
  omega

theorem findFreeBitmap_searched (bitmapSize startIdx secPerBlock mapIdxStart : Nat) :
    Searched device (startIdx * secPerBlock) (mapIdxStart / 512)
      (mapIdxStart / 512 + (bitmapSize - mapIdxStart + 511) / 512)
      (findFreeBitmap device bitmapSize startIdx secPerBlock mapIdxStart) := by
  rw [findFreeBitmap, findFrom_sectors, offsets_sectors]
  exact findFrom_searched _ _

/-- The first clear bit of some sectors of a bitmap. -/
structure FirstClear (device : Device) (start first past position : Nat) : Prop where
  above : 4096 * first ≤ position
  below : position < 4096 * past
  clear : device.bit start position = false
  lower : ∀ lower, 4096 * first ≤ lower → lower < position → device.bit start lower = true

/-- What is asked of the search: 0 only if no bit is clear from the sector of the start to the
sector of the last byte, and else the number of the first clear bit there, which alone is set. -/
def FindsFirst (device : Device) (bitmapSize startIdx secPerBlock mapIdxStart : Nat) : Prop :=
  let start := startIdx * secPerBlock
  let result := findFreeBitmap device bitmapSize startIdx secPerBlock mapIdxStart
  (result.1 = 0 → ∀ position, 4096 * (mapIdxStart / 512) ≤ position →
    position < 4096 * ((bitmapSize + 511) / 512) → device.bit start position = true) ∧
  ∀ position, FirstClear device start (mapIdxStart / 512) ((bitmapSize + 511) / 512) position →
    result = (position + 1, device.setBit start position)

variable {past position : Nat}

/-- A search that ends with the position of a clear bit ends with the first one, also if fewer or
more sectors are looked at. -/
theorem FirstClear.unique (isFirst : FirstClear device start first past position) {found other : Nat}
    (isFound : FirstClear device start first other found) : found = position := by
  rcases Nat.lt_trichotomy found position with before | same | after
  · have set := isFirst.lower found isFound.above before
    rw [isFound.clear] at set
    cases set
  · exact same
  · have set := isFound.lower position isFirst.above after
    rw [isFirst.clear] at set
    cases set

/-- Where a bit of some sectors is clear, one of them is the first. -/
theorem FirstClear.exists_of_clear (above : 4096 * first ≤ place) (below : place < 4096 * past)
    (clear : device.bit start place = false) :
    ∃ position, FirstClear device start first past position := by
  have some : ∃ place, 4096 * first ≤ place ∧ device.bit start place = false := ⟨place, above, clear⟩
  obtain ⟨isAbove, isClear⟩ := Nat.find_spec some
  refine ⟨Nat.find some, isAbove, ?_, isClear, fun lower inside before => ?_⟩
  · exact Nat.lt_of_le_of_lt (Nat.find_min' some ⟨above, clear⟩) below
  · have notClear := Nat.find_min some before
    cases isBit : device.bit start lower with
    | true => rfl
    | false => exact absurd ⟨inside, isBit⟩ notClear

/-- On a device that does not fail `__ext2_find_free_bitmap` finds the first clear bit of the
sectors it is asked about exactly if its loop, which goes on by 512 bytes from the start, comes to
the sector of that bit, and the position plus one fits the 32 bits of the result. -/
theorem find_free_bitmap_first_iff (device : Device)
    (reliable : ∀ lba, device.reads lba = true ∧ device.writes lba = true)
    (bitmapSize startIdx secPerBlock mapIdxStart : Nat) :
    FindsFirst device bitmapSize startIdx secPerBlock mapIdxStart ↔
      ∀ position, FirstClear device (startIdx * secPerBlock) (mapIdxStart / 512)
          ((bitmapSize + 511) / 512) position →
        position < 4096 * (mapIdxStart / 512 + (bitmapSize - mapIdxStart + 511) / 512) ∧
          position + 1 < 2 ^ 32 := by
  have searched : Searched device (startIdx * secPerBlock) (mapIdxStart / 512)
      (mapIdxStart / 512 + (bitmapSize - mapIdxStart + 511) / 512)
      (findFreeBitmap device bitmapSize startIdx secPerBlock mapIdxStart) :=
    findFreeBitmap_searched bitmapSize startIdx secPerBlock mapIdxStart
  constructor
  · intro finds position isFirst
    have result := finds.2 position isFirst
    rcases searched with ⟨nothing, _⟩ | ⟨found, above, below, clear, lower, _, _, isResult⟩
    · rw [result] at nothing
      exact absurd (congrArg Prod.fst nothing) (Nat.succ_ne_zero position)
    · have same : found = position := isFirst.unique ⟨above, below, clear, lower⟩
      rw [result, same] at isResult
      have fits : position + 1 = (position + 1) % 2 ^ 32 := congrArg Prod.fst isResult
      refine ⟨same ▸ below, ?_⟩
      rw [fits]
      exact Nat.mod_lt _ (by decide)
  · intro reached
    have finds : ∀ position, FirstClear device (startIdx * secPerBlock) (mapIdxStart / 512)
        ((bitmapSize + 511) / 512) position →
        findFreeBitmap device bitmapSize startIdx secPerBlock mapIdxStart =
          (position + 1, device.setBit (startIdx * secPerBlock) position) := by
      intro position isFirst
      obtain ⟨inside, fits⟩ := reached position isFirst
      rcases searched with ⟨_, full⟩ | ⟨found, above, below, clear, lower, _, _, isResult⟩
      · have set := full reliable position isFirst.above inside
        rw [isFirst.clear] at set
        cases set
      · have same : found = position := isFirst.unique ⟨above, below, clear, lower⟩
        rw [isResult, same, Nat.mod_eq_of_lt fits]
    refine ⟨fun isZero position above below => ?_, finds⟩
    cases isBit : device.bit (startIdx * secPerBlock) position with
    | true => rfl
    | false =>
      -- a clear bit has a first one before it, whose number is not 0
      obtain ⟨position, isFirst⟩ := FirstClear.exists_of_clear above below isBit
      rw [finds position isFirst] at isZero
      exact absurd isZero (Nat.succ_ne_zero position)

/-- A device whose first sector is full, and the others empty. -/
def halfDevice : Device where
  sector lba _ := if lba = 0 then 0xff#8 else 0#8
  reads _ := true
  writes _ := true

/-- A bitmap of 600 bytes is searched from its start on. -/
theorem find_free_bitmap_first_start : FindsFirst halfDevice 600 0 8 0 := by
  refine (find_free_bitmap_first_iff halfDevice (fun _ => ⟨rfl, rfl⟩) 600 0 8 0).mpr ?_
  intro position isFirst
  have below := isFirst.below
  omega

/-- From its half on, the sector of its last byte is not searched. -/
theorem last_sector_missed : (findFreeBitmap halfDevice 600 0 8 (600 / 2)).1 = 0 ∧
    halfDevice.bit 0 4096 = false ∧ ¬ FindsFirst halfDevice 600 0 8 (600 / 2) := by
  have missed : (findFreeBitmap halfDevice 600 0 8 (600 / 2)).1 = 0 := by decide +kernel
  have clear : halfDevice.bit 0 4096 = false := by decide
  refine ⟨missed, clear, fun finds => ?_⟩
  have set := finds.1 missed 4096 (by decide) (by decide)
  cases clear.symm.trans set

/-- `__ext2_find_free_blocks` returns what the search through the bitmap returns. -/
theorem findFreeBlocks_result (image : Image) : (findFreeBlocks image).1 =
    (findFreeBitmap image.device (image.blocks / 8) image.bitmapBlock image.secPerBlock 0).1 := by
  simp only [findFreeBlocks]
  split <;> rfl

/-- `__ext2_find_free_blocks` returns the position of the first clear bit plus one. -/
theorem findFreeBlocks_spec (image : Image) (small : image.blocks < 2 ^ 32)
    (nonzero : (findFreeBlocks image).1 ≠ 0) :
    ∃ position, (findFreeBlocks image).1 = position + 1 ∧ position + 1 < 2 ^ 32 ∧
      FirstClear image.device (image.bitmapBlock * image.secPerBlock) 0
        ((image.blocks / 8 + 511) / 512) position := by
  rw [findFreeBlocks_result] at nonzero ⊢
  rcases @findFreeBitmap_searched image.device (image.blocks / 8) image.bitmapBlock image.secPerBlock
    0 with ⟨nothing, _⟩ | ⟨position, above, below, clear, lower, _, _, found⟩
  · rw [nothing] at nonzero
    exact absurd rfl nonzero
  · rw [found] at nonzero ⊢
    have isBelow : position < 4096 * ((image.blocks / 8 + 511) / 512) := by omega
    -- the bitmap has at most 2 ^ 32 bits
    have bound : position + 1 ≤ 2 ^ 32 := by omega
    rcases Nat.lt_or_eq_of_le bound with inside | isLast
    · exact ⟨position, Nat.mod_eq_of_lt inside, inside, above, isBelow, clear, lower⟩
    · rw [isLast, Nat.mod_self] at nonzero
      exact absurd rfl nonzero

/-- On a device that does not fail, the block after the first clear bit is handed out. -/
theorem findFreeBlocks_first {image : Image}
    (reliable : ∀ lba, image.device.reads lba = true ∧ image.device.writes lba = true)
    (isFirst : FirstClear image.device (image.bitmapBlock * image.secPerBlock) 0
      ((image.blocks / 8 + 511) / 512) position)
    (fits : position + 1 < 2 ^ 32) : (findFreeBlocks image).1 = position + 1 := by
  rw [findFreeBlocks_result]
  rcases @findFreeBitmap_searched image.device (image.blocks / 8) image.bitmapBlock image.secPerBlock
    0 with ⟨_, full⟩ | ⟨found, above, below, clear, lower, _, _, isResult⟩
  · have set := full reliable position isFirst.above (by have := isFirst.below; omega)
    rw [isFirst.clear] at set
    cases set
  · have same : found = position := isFirst.unique ⟨above, below, clear, lower⟩
    rw [isResult, same, Nat.mod_eq_of_lt fits]

theorem one_bit (places : place < 8) (inside : bit < 8) :
    (1#8 <<< place).getLsbD bit = decide (bit = place) := by
  have all : ∀ place < 8, ∀ bit < 8, (1#8 <<< place).getLsbD bit = decide (bit = place) := by
    decide +kernel
  exact all place places bit inside

/-- The mask of `__ext2_free_alloc_block` clears one bit of a byte. -/
theorem mask_bit (byte : BitVec 8) (clears : cleared < 8) (inside : bit < 8) :
    (byte &&& (0xff#8 ^^^ (1#8 <<< cleared))).getLsbD bit =
      (byte.getLsbD bit && decide (bit ≠ cleared)) := by
  have full : ∀ bit < 8, (0xff#8).getLsbD bit = true := by decide +kernel
  rw [BitVec.getLsbD_and, BitVec.getLsbD_xor, full bit inside, one_bit clears inside,
    Bool.true_xor, decide_not]

/-- `__ext2_free_alloc_block` clears the bit at the block number minus one. The sectors of the bitmap
have numbers of 32 bits, as they have where the bitmap lies in the first group. -/
theorem freeAllocBlock_bit (located : image.bitmapBlock * image.secPerBlock < 2 ^ 31)
    (freed : freeAllocBlock image blockId = some after) (position : Nat) :
    after.device.bit (image.bitmapBlock * image.secPerBlock) position =
      (image.device.bit (image.bitmapBlock * image.secPerBlock) position &&
        decide (position ≠ (blockId + (2 ^ 32 - 1)) % 2 ^ 32)) := by
  unfold freeAllocBlock at freed
  have small : (blockId + (2 ^ 32 - 1)) % 2 ^ 32 < 2 ^ 32 := Nat.mod_lt _ (by decide)
  generalize (blockId + (2 ^ 32 - 1)) % 2 ^ 32 = cleared at freed small ⊢
  have fits : image.bitmapBlock * image.secPerBlock + cleared / 8 / 512 < 2 ^ 32 := by omega
  simp only [Nat.mod_eq_of_lt fits] at freed
  split at freed
  · rw [← Option.some.inj freed]
    simp only [Device.bit, Device.set]
    by_cases isSector : position / 4096 = cleared / 8 / 512
    · rw [if_pos (by omega)]
      by_cases isByte : position / 8 % 512 = cleared / 8 % 512
      · rw [if_pos isByte, mask_bit _ (Nat.mod_lt _ (by decide)) (Nat.mod_lt _ (by decide)),
          isSector, isByte]
        have sameBit : position % 8 ≠ cleared % 8 ↔ position ≠ cleared := by omega
        simp only [sameBit]
      · have apart : position ≠ cleared := fun same => isByte (same ▸ rfl)
        rw [if_neg isByte, isSector]
        simp [apart]
    · have apart : position ≠ cleared := by omega
      rw [if_neg (by omega)]
      simp [apart]
  · cases freed

/-- Giving back a block leaves the layout of the image alone. -/
theorem freeAllocBlock_layout (freed : freeAllocBlock image blockId = some after) :
    after.bitmapBlock = image.bitmapBlock ∧ after.secPerBlock = image.secPerBlock ∧
      after.firstDataBlock = image.firstDataBlock := by
  unfold freeAllocBlock at freed
  simp only at freed
  split at freed
  · rw [← Option.some.inj freed]
    exact ⟨rfl, rfl, rfl⟩
  · cases freed

/-- Which blocks are marked does not depend on what the device refuses. -/
theorem marked_bit (first : image.firstDataBlock = 0) (block : Nat) : marked image block =
    image.device.bit (image.bitmapBlock * image.secPerBlock) block := by
  rw [marked, first, Nat.sub_zero]

/-- What is marked after a block was given back: all that was, but for the block before it. -/
theorem freeAllocBlock_marked (image : Image) (first : image.firstDataBlock = 0)
    (located : image.bitmapBlock * image.secPerBlock < 2 ^ 31)
    (freed : freeAllocBlock image blockId = some after) (block : Nat) :
    marked after block =
      (marked image block && decide (block ≠ (blockId + (2 ^ 32 - 1)) % 2 ^ 32)) := by
  obtain ⟨isBitmap, isSectors, isFirst⟩ := freeAllocBlock_layout freed
  rw [marked_bit (isFirst.trans first), isBitmap, isSectors, freeAllocBlock_bit located freed,
    ← marked_bit first]

theorem handsOutFree_iff (small : image.blocks < 2 ^ 32) (first : image.firstDataBlock = 0) :
    HandsOutFree image ↔ FreePair image := by
  constructor
  · intro hands block inside fits clear lower
    -- on a device that refuses nothing the search returns the block after this one
    have isFirst : FirstClear (image.withFaults (fun _ => true) (fun _ => true)).device
        (image.bitmapBlock * image.secPerBlock) 0 ((image.blocks / 8 + 511) / 512) block :=
      ⟨Nat.zero_le _, inside, (marked_bit first block).symm.trans clear,
        fun other _ before => (marked_bit first other).symm.trans (lower other before)⟩
    have result : (findFreeBlocks (image.withFaults (fun _ => true) (fun _ => true))).1 = block + 1 :=
      findFreeBlocks_first (fun _ => ⟨rfl, rfl⟩) isFirst fits
    have free := hands (fun _ => true) (fun _ => true)
    rw [result] at free
    exact free (Nat.succ_ne_zero block)
  · intro pair reads writes nonzero
    obtain ⟨position, isResult, fits, isFirst⟩ :=
      findFreeBlocks_spec (image.withFaults reads writes) small nonzero
    rw [isResult]
    exact pair position isFirst.below fits ((marked_bit first position).trans isFirst.clear)
      fun block below => (marked_bit first block).trans (isFirst.lower block (Nat.zero_le _) below)

theorem clearsItsBit_iff (first : image.firstDataBlock = 0)
    (located : image.bitmapBlock * image.secPerBlock < 2 ^ 31) :
    ClearsItsBit image blockId ↔ FreeBefore image blockId := by
  have apart : blockId ≠ (blockId + (2 ^ 32 - 1)) % 2 ^ 32 := by omega
  constructor
  · intro clears
    cases isAfter : freeAllocBlock (image.withFaults (fun _ => true) (fun _ => true)) blockId with
    | none => simp [freeAllocBlock, Image.withFaults] at isAfter
    | some after =>
      obtain ⟨isClear, others⟩ := clears _ _ after isAfter
      have marks := freeAllocBlock_marked (image.withFaults (fun _ => true) (fun _ => true))
        first located isAfter
      refine ⟨?_, ?_⟩
      · rw [← others _ apart.symm, marks]
        simp
      · rw [marks, decide_eq_true apart, Bool.and_true] at isClear
        exact isClear
  · intro free reads writes after freed
    have same : ∀ block, marked after block = marked image block := by
      intro block
      rw [freeAllocBlock_marked (image.withFaults reads writes) first located freed]
      by_cases isCleared : block = (blockId + (2 ^ 32 - 1)) % 2 ^ 32
      · rw [isCleared, free.1]
        exact Bool.and_eq_false_imp.mpr fun set => absurd (set.symm.trans free.1) (by decide)
      · rw [decide_eq_true isCleared, Bool.and_true]
        rfl
    exact ⟨(same blockId).trans free.2, fun other _ => same other⟩

/-- In an image with blocks of 4096 bytes the block that is handed out is free exactly if the first
free block is followed by a free block, and giving back a block clears its bit and no other exactly
if it and the one before it are free already. -/
theorem block_numbers_agree_iff (image : Image) (small : image.blocks < 2 ^ 32)
    (first : image.firstDataBlock = 0) (located : image.bitmapBlock * image.secPerBlock < 2 ^ 31) :
    (HandsOutFree image ↔ FreePair image) ∧
      ∀ blockId, ClearsItsBit image blockId ↔ FreeBefore image blockId :=
  ⟨handsOutFree_iff small first, fun _ => clearsItsBit_iff first located⟩

/-- An image of 64 blocks whose bitmap, in block 3, starts with the given byte. The other blocks are
free, and the bits behind the last block are set. -/
def small (byte : BitVec 8) (free : Nat) : Image where
  device :=
    { sector := fun lba index => if lba = 24 ∧ index = 0 then byte
        else if lba = 24 ∧ index < 8 then 0#8 else 0xff#8
      reads := fun _ => true
      writes := fun _ => true }
  blocks := 64
  firstDataBlock := 0
  unallocBlocks := free
  groupUnallocBlocks := free
  bitmapBlock := 3
  secPerBlock := 8

/-- The blocks 0 to 5 are used and all others are free: block 7 is handed out, which is free. -/
theorem block_numbers_agree_small :
    (findFreeBlocks (small 0x3f#8 58)).1 = 7 ∧ HandsOutFree (small 0x3f#8 58) := by
  refine ⟨by decide +kernel,
    (block_numbers_agree_iff (small 0x3f#8 58) (by decide) rfl (by decide)).1.mpr ?_⟩
  intro block _ _ clear lower
  rcases Nat.lt_trichotomy block 6 with before | isBlock | after
  · have used : ∀ block < 6, marked (small 0x3f#8 58) block = true := by decide +kernel
    exact absurd ((used block before).symm.trans clear) (by decide)
  · rw [isBlock]
    decide +kernel
  · exact absurd (lower 6 after) (by decide +kernel)

/-- Block 6 is free among used ones: block 7 is handed out, which is used, and giving back block 7
leaves it marked. -/
theorem used_block_handed_out :
    (findFreeBlocks (small 0xbf#8 57)).1 = 7 ∧ marked (small 0xbf#8 57) 7 = true ∧
      (freeAllocBlock (small 0xbf#8 57) 7).map (fun after => marked after 7) = some true := by
  decide +kernel

end Balrog.BlockBitmap
