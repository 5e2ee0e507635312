import Balrog.Ext2Bitmaps

/-!
# Runs of allocations and releases on the bytes of a volume

`BitmapCounters` knows a volume by the sectors of its bitmaps and by four counters. On the device and
in memory all of this is bytes: the counters are fields of `ext2_fs_data`, and each call also writes
the superblock and the group descriptor back. Every call on the bytes is a call there, with the same
result, as long as these writes do not meet a bitmap. What holds in all runs of `BitmapCounters` so
holds for the bytes.

The device may answer or fail in every call, and no write of the counters has to succeed. Left out:
other calls between allocations and releases, which write into no bitmap.
-/

namespace Balrog.Ext2Accounts

open ByteMemory Ext2Volume Ext2Bitmaps Runs Function
open List hiding count
open BitmapCounters (Kind)

/-- The free counters of the superblock. -/
def unallocOf (fs : FsData) : Kind → Nat
  | .block => fs.unallocBlocks
  | .inode => fs.unallocInodes

/-- The group's counter of free blocks or inodes. -/
def groupUnallocOf (fs : FsData) : Kind → Nat
  | .block => fs.groupUnallocBlocks
  | .inode => fs.groupUnallocInodes

/-- How many bits of a bitmap are clear, over the sectors of one block. -/
def clear (volume : Volume) (kind : Kind) : Nat :=
  (List.range (4096 * volume.fs.secPerBlock)).countP fun position => !bit volume kind position

/-- The sectors of the two bitmaps. -/
def InBitmap (fs : FsData) (lba : Nat) : Prop :=
  ∃ kind, ∃ sector < fs.secPerBlock, lba = bitmapOf fs kind * fs.secPerBlock + sector

/-- The volume has one group, and the sectors to which the counters are written are not in a
bitmap. -/
structure Placed (fs : FsData) : Prop where
  fits : fs.blocks ≤ 4096 * fs.secPerBlock
  sectors : fs.secPerBlock ≤ 128
  apart : fs.blockBitmap ≠ fs.inodeBitmap
  inside : ∀ kind, bitmapOf fs kind < fs.blocks
  counters : ∀ lba, InBitmap fs lba →
    lba ≠ 2 ∧ lba ≠ 3 ∧ lba ≠ blockGrpLoc fs.blockSize * fs.secPerBlock % 2 ^ 32

section Sectors

/-- Some sectors of a device, as `BlockBitmap` has them. -/
structure Shows (Inside : Nat → Prop) (device : Device) (shown : BlockBitmap.Device) : Prop where
  reads : ∀ lba, shown.reads lba = device.reads lba 1
  writes : ∀ lba, shown.writes lba = device.writes lba 1
  bytes : ∀ lba, Inside lba → ∀ index < 512,
    shown.sector lba index = (device.disk (512 * lba + index)).toBitVec

variable {Inside : Nat → Prop} {device : Device} {shown : BlockBitmap.Device} {lba : Nat}

section

variable (shows : Shows Inside device shown)
include shows

/-- The log of accesses does not matter for what a device shows. -/
theorem Shows.logged (log : List Access) :
    Shows Inside { device with log := log } shown :=
  ⟨shows.reads, shows.writes, shows.bytes⟩

theorem Shows.read (lba count : Nat) :
    Shows Inside (device.read lba count).2 shown := shows.logged _

/-- A write outside the watched sectors does not change what they show. -/
theorem Shows.elsewhere (data : Bytes) {count : Nat}
    (outside : ∀ probe, Inside probe → probe < lba ∨ lba + count ≤ probe) :
    Shows Inside (device.write data lba count).2 shown := by
  refine ⟨?_, ?_, fun probe inside index below => ?_⟩
  · rw [Device.write_reads]
    exact shows.reads
  · rw [Device.write_writes]
    exact shows.writes
  · have apart := outside probe inside
    rw [device.write_outside data lba count (by omega)]
    exact shows.bytes probe inside index below

/-- A write that fails changes nothing. -/
theorem Shows.failed (data : Bytes) {count : Nat} (fails : device.writes lba count = false) :
    Shows Inside (device.write data lba count).2 shown := by
  rw [Device.write, fails]
  exact shows.logged _

/-- A sector that was read is written with one byte replaced. -/
theorem Shows.put (byte : BitVec 8) (index : Nat) (accepts : device.writes lba 1 = true) :
    Shows Inside (device.write (put (fun offset => device.disk (512 * lba + offset)) index
      (UInt8.ofBitVec byte)) lba 1).2 (shown.set lba index byte) := by
  rw [Device.write, accepts]
  refine ⟨shows.reads, shows.writes, fun probe inside place below => ?_⟩
  have old := shows.bytes probe inside place below
  simp only [BlockBitmap.Device.set, if_true]
  by_cases here : probe = lba
  · subst here
    rw [if_pos rfl, splice_inside _ _ _ (by omega), ByteMemory.put]
    split
    · rfl
    · exact old
  · rw [if_neg here, splice_outside (by omega)]
    exact old

end

/-- The loop over a sector looks at 512 bytes. -/
theorem freeInSector_congr {left right : Nat → BitVec 8}
    (same : ∀ index < 512, left index = right index) :
    BlockBitmap.freeInSector left = BlockBitmap.freeInSector right := by
  rw [BlockBitmap.freeInSector, BlockBitmap.freeInSector, ← head?_filterMap, ← head?_filterMap]
  refine congrArg _ (filterMap_congr fun index member => ?_)
  rw [same index (mem_range.mp member)]

/-- The search of a sector of bytes is that of the sector which they show. -/
theorem searchSector_shows (shows : Shows Inside device shown) {start mapIdx : Nat}
    (inside : Inside (start + mapIdx / 512)) :
    (searchSector device (start + mapIdx / 512) mapIdx).1 =
        (BlockBitmap.searchSector shown start mapIdx).map Prod.fst ∧
      Shows Inside (searchSector device (start + mapIdx / 512) mapIdx).2
        (((BlockBitmap.searchSector shown start mapIdx).map Prod.snd).getD shown) := by
  have search := freeInSector_congr (shows.bytes _ inside)
  simp only [searchSector, BlockBitmap.searchSector, Device.read, shows.reads, shows.writes, search]
  cases device.reads (start + mapIdx / 512) 1 with
  | false => exact ⟨rfl, shows.read _ _⟩
  | true =>
    simp only [if_true]
    cases isFree : BlockBitmap.freeInSector fun index =>
        (device.disk (512 * (start + mapIdx / 512) + index)).toBitVec with
    | none => exact ⟨rfl, shows.read _ _⟩
    | some found =>
      obtain ⟨index, place⟩ := found
      obtain ⟨below, _⟩ := BlockBitmap.freeInSector_some isFree
      have after := shows.read (start + mapIdx / 512) 1
      cases accepts : device.writes (start + mapIdx / 512) 1 with
      | false =>
        refine ⟨by simp [Device.write, accepts], ?_⟩
        exact after.failed _ accepts
      | true =>
        refine ⟨by simp [Device.write, accepts], ?_⟩
        simp only [if_true, Option.map_some, Option.getD_some, shows.bytes _ inside index below]
        exact after.put _ index accepts

/-- The search of a bitmap. The induction is on the places that are left. -/
theorem findFrom_shows (start : Nat) (places : List Nat)
    (inside : ∀ mapIdx ∈ places, Inside (start + mapIdx / 512)) {device : Device}
    (shows : Shows Inside device shown) :
    (findFrom device start places).1 = (BlockBitmap.findFrom shown start places).1 ∧
      Shows Inside (findFrom device start places).2 (BlockBitmap.findFrom shown start places).2 := by
  induction places generalizing device with
  | nil => exact ⟨rfl, shows⟩
  | cons mapIdx rest ih =>
    obtain ⟨sameId, after⟩ := searchSector_shows shows (inside mapIdx mem_cons_self)
    rw [findFrom, BlockBitmap.findFrom]
    generalize searchSector device (start + mapIdx / 512) mapIdx = result at *
    obtain ⟨found, next⟩ := result
    cases isShown : BlockBitmap.searchSector shown start mapIdx with
    | none =>
      rw [isShown] at sameId after
      obtain rfl : found = none := sameId
      exact ih
        (forall_mem_cons.mp inside).2 after
    | some pair =>
      rw [isShown] at sameId after
      obtain rfl : found = some pair.1 := sameId
      exact ⟨rfl, after⟩

end Sectors

section Counters

variable (kind : Kind) (change : Nat) (fs : FsData)

theorem unallocOf_eq : unallocOf fs kind = load 4 fs.bytes (countersOf kind).1 := by
  cases kind <;> rfl

theorem groupUnallocOf_eq : groupUnallocOf fs kind = load 2 fs.bytes (countersOf kind).2 := by
  cases kind <;> rfl

/-- The four counters are in different places. -/
theorem counters_apart (other : Kind) :
    Apart (countersOf kind).2 2 (countersOf other).1 4 ∧
      Apart (countersOf kind).1 4 (countersOf other).2 2 ∧
      (other ≠ kind → Apart (countersOf kind).1 4 (countersOf other).1 4 ∧
        Apart (countersOf kind).2 2 (countersOf other).2 2) := by
  cases kind <;> cases other <;> simp [Apart, countersOf]

/-- Counting adds to one counter of the superblock, of 32 bits. -/
theorem count_unalloc : unallocOf (count kind change fs) =
    update (unallocOf fs) kind ((unallocOf fs kind + change) % 2 ^ 32) := by
  funext other
  obtain ⟨upper, _, different⟩ := counters_apart kind other
  rw [unallocOf_eq, count]
  dsimp only
  rw [load_store_apart upper]
  by_cases same : other = kind
  · rw [same, update_self, load_store_same, unallocOf_eq, show 256 ^ 4 = 2 ^ 32 by decide]
  · rw [update_of_ne same, load_store_apart (different same).1, unallocOf_eq]

/-- Counting changes the group's counter of its kind, in 16 bits. -/
theorem count_groupUnalloc : groupUnallocOf (count kind change fs) =
    update (groupUnallocOf fs) kind ((groupUnallocOf fs kind + change) % 2 ^ 16) := by
  funext other
  obtain ⟨_, lower, different⟩ := counters_apart kind other
  rw [groupUnallocOf_eq, count]
  dsimp only
  by_cases same : other = kind
  · rw [same] at lower ⊢
    rw [update_self, load_store_same, load_store_apart lower, groupUnallocOf_eq,
      show 256 ^ 2 = 2 ^ 16 by decide]
  · rw [update_of_ne same, load_store_apart (different same).2,
      load_store_apart lower, groupUnallocOf_eq]

theorem count_blocks : (count kind change fs).blocks = fs.blocks :=
  count_load kind change fs 4 (by decide)

theorem count_secPerBlock : (count kind change fs).secPerBlock = fs.secPerBlock :=
  count_load kind change fs 4 (by decide)

/-- Counting leaves the places of the bitmaps alone. -/
theorem count_bitmapOf : bitmapOf (count kind change fs) = bitmapOf fs := by
  funext other
  cases other <;> exact count_load kind change fs 4 (by decide)

variable {fs}

theorem count_inBitmap : InBitmap (count kind change fs) = InBitmap fs := by
  funext lba
  rw [InBitmap, InBitmap, count_secPerBlock, count_bitmapOf]

/-- Counting keeps the bitmaps where they are. -/
theorem Placed.count (placed : Placed fs) : Placed (count kind change fs) := by
  have isBitmap := congrFun (count_bitmapOf kind change fs)
  refine ⟨?_, ?_, ?_, fun other => ?_, fun lba inBitmap => ?_⟩
  · rw [count_blocks, count_secPerBlock]
    exact placed.fits
  · rw [count_secPerBlock]
    exact placed.sectors
  · exact fun same => placed.apart ((isBitmap .block).symm.trans (same.trans (isBitmap .inode)))
  · rw [isBitmap, count_blocks]
    exact placed.inside other
  · rw [FsData.blockSize, count_load kind change fs 4 (by decide), count_secPerBlock]
    exact placed.counters lba (count_inBitmap kind change ▸ inBitmap)

end Counters

variable {device : Device} {shown : BlockBitmap.Device} {volume : Volume}

section Calls

/-- A volume of `BitmapCounters` for the bytes. -/
structure Refines (volume : Volume) (image : BitmapCounters.Volume) : Prop where
  blocks : image.blocks = volume.fs.blocks
  sectors : image.secPerBlock = volume.fs.secPerBlock
  bitmap : image.bitmap = bitmapOf volume.fs
  unalloc : image.unalloc = unallocOf volume.fs
  groupUnalloc : image.groupUnalloc = groupUnallocOf volume.fs
  device : Shows (InBitmap volume.fs) volume.device image.device

variable {image : BitmapCounters.Volume}

/-- Writing the superblock back does not change its copy in memory. -/
theorem updateSbAndBlkDesc_fs (volume : Volume) :
    (updateSbAndBlkDesc volume).2.fs = volume.fs := by
  rw [updateSbAndBlkDesc]
  dsimp only
  split <;> rfl

/-- Writing the counters back does not meet a bitmap. -/
theorem updateSbAndBlkDesc_shows (placed : Placed volume.fs)
    (shows : Shows (InBitmap volume.fs) volume.device shown) :
    Shows (InBitmap volume.fs) (updateSbAndBlkDesc volume).2.device shown := by
  have first : Shows (InBitmap volume.fs) (volume.device.write volume.fs.bytes 2 2).2 shown := by
    refine shows.elsewhere _ fun probe inBitmap => ?_
    obtain ⟨notTwo, notThree, _⟩ := placed.counters probe inBitmap
    omega
  rw [updateSbAndBlkDesc]
  dsimp only
  split
  · refine first.elsewhere _ fun probe inBitmap => ?_
    have other := (placed.counters probe inBitmap).2.2
    omega
  · exact first

section

variable (refines : Refines volume image)
include refines

/-- A call that has changed a bitmap counts and writes the counters back. -/
theorem Refines.counted (placed : Placed volume.fs)
    (shows : Shows (InBitmap volume.fs) device shown) (kind : Kind) (change : Nat) :
    Placed (updateSbAndBlkDesc ⟨device, count kind change volume.fs⟩).2.fs ∧
      Refines (updateSbAndBlkDesc ⟨device, count kind change volume.fs⟩).2 { image with
        device := shown
        unalloc := update image.unalloc kind ((image.unalloc kind + change) % 2 ^ 32)
        groupUnalloc := update image.groupUnalloc kind
          ((image.groupUnalloc kind + change) % 2 ^ 16) } := by
  rw [← count_inBitmap kind change] at shows
  have after : Placed (Volume.fs ⟨device, count kind change volume.fs⟩) := placed.count kind change
  have sameFs := updateSbAndBlkDesc_fs ⟨device, count kind change volume.fs⟩
  refine ⟨sameFs ▸ after, ?_⟩
  constructor <;> simp only [sameFs]
  · rw [count_blocks, refines.blocks]
  · rw [count_secPerBlock, refines.sectors]
  · rw [count_bitmapOf, refines.bitmap]
  · rw [count_unalloc, refines.unalloc]
  · rw [count_groupUnalloc, refines.groupUnalloc]
  · exact updateSbAndBlkDesc_shows after shows

/-- A change of the device alone keeps the refinement. -/
theorem Refines.uncounted (shows : Shows (InBitmap volume.fs) device shown) :
    Refines { volume with device := device } { image with device := shown } :=
  { refines with device := shows }

/-- The allocation on the bytes of the disk refines that on the bitmaps. -/
theorem findFree_refines (placed : Placed volume.fs) (kind : Kind) (mapIdxStart : Nat) :
    (findFree kind mapIdxStart volume).1 = (BitmapCounters.findFree kind mapIdxStart image).1 ∧
      Placed (findFree kind mapIdxStart volume).2.fs ∧
      Refines (findFree kind mapIdxStart volume).2
        (BitmapCounters.findFree kind mapIdxStart image).2 := by
  have fits := placed.fits
  have inside : ∀ mapIdx ∈ BlockBitmap.offsets (volume.fs.blocks / 8) mapIdxStart,
      InBitmap volume.fs (bitmapOf volume.fs kind * volume.fs.secPerBlock + mapIdx / 512) :=
    fun mapIdx member => ⟨kind, _, offsets_inside mapIdxStart
      (show volume.fs.blocks / 8 ≤ 512 * volume.fs.secPerBlock by omega) mapIdx member, rfl⟩
  obtain ⟨sameId, after⟩ := findFrom_shows _ _ inside refines.device
  have wraps : (image.groupUnalloc kind + minusOne) % 2 ^ 16 =
      (image.groupUnalloc kind + (2 ^ 16 - 1)) % 2 ^ 16 := by
    rw [minusOne]
    omega
  simp only [findFree, BitmapCounters.findFree, findFreeBitmap, BlockBitmap.findFreeBitmap,
    refines.blocks, refines.sectors, refines.bitmap, sameId]
  split
  · have counted := refines.counted placed after kind minusOne
    simp only [wraps, refines.blocks, refines.sectors, refines.bitmap] at counted
    exact ⟨rfl, counted⟩
  · have uncounted := refines.uncounted after
    simp only [refines.blocks, refines.sectors, refines.bitmap] at uncounted
    exact ⟨rfl, placed, uncounted⟩

/-- A release of a number that has a bit is one of `BitmapCounters`. -/
theorem freeAlloc_refines (placed : Placed volume.fs) (kind : Kind) {position : Nat}
    (below : position < 4096 * volume.fs.secPerBlock) :
    (freeAlloc kind volume (position + 1)).1 =
        (BitmapCounters.freeAlloc kind image (position + 1)).isSome ∧
      Placed (freeAlloc kind volume (position + 1)).2.fs ∧
      Refines (freeAlloc kind volume (position + 1)).2
        ((BitmapCounters.freeAlloc kind image (position + 1)).getD image) := by
  have sectors := placed.sectors
  have isPosition : (position + 1 + (2 ^ 32 - 1)) % 2 ^ 32 = position := by omega
  have inSector : position / 8 / 512 < volume.fs.secPerBlock := by omega
  have inBitmap : InBitmap volume.fs (bitmapOf volume.fs kind * volume.fs.secPerBlock +
      position / 8 / 512) := ⟨kind, _, inSector, rfl⟩
  have small : (bitmapOf volume.fs kind * volume.fs.secPerBlock + position / 8 / 512) % 2 ^ 32 =
      bitmapOf volume.fs kind * volume.fs.secPerBlock + position / 8 / 512 := by
    have bound : bitmapOf volume.fs kind * volume.fs.secPerBlock ≤ 4096 * 128 * 128 :=
      Nat.mul_le_mul (by have := placed.inside kind; have := placed.fits; omega) sectors
    exact Nat.mod_eq_of_lt (by omega)
  simp only [freeAlloc, BitmapCounters.freeAlloc, isPosition, small, refines.sectors, refines.bitmap,
    refines.device.reads, refines.device.writes, Device.read]
  generalize bitmapOf volume.fs kind * volume.fs.secPerBlock + position / 8 / 512 = lba at *
  have same := refines.device.bytes lba inBitmap (position / 8 % 512) (by omega)
  cases readable : volume.device.reads lba 1 with
  | false => exact ⟨rfl, placed, refines.uncounted (refines.device.read lba 1)⟩
  | true =>
    cases accepts : volume.device.writes lba 1 with
    | false =>
      simp only [if_true, Device.write, accepts, Bool.false_eq_true, if_false]
      exact ⟨rfl, placed, refines.uncounted (refines.device.logged _)⟩
    | true =>
      have cleared := (refines.device.read lba 1).put
        ((volume.device.disk (512 * lba + position / 8 % 512)).toBitVec &&&
          (0xff#8 ^^^ (1#8 <<< (position % 8)))) (position / 8 % 512) accepts
      have counted := refines.counted placed cleared kind 1
      simp only [if_true, Device.write, Device.read, accepts, same, refines.sectors,
        refines.bitmap] at counted ⊢
      exact ⟨rfl, counted⟩

/-- The bits of the abstract volume are those on the disk. -/
theorem Refines.bit_eq (kind : Kind) {position : Nat}
    (below : position < 4096 * volume.fs.secPerBlock) :
    image.bit kind position = bit volume kind position := by
  have isByte : 512 * (bitmapOf volume.fs kind * volume.fs.secPerBlock) + position / 8 =
      512 * (bitmapOf volume.fs kind * volume.fs.secPerBlock + position / 4096) +
        position / 8 % 512 := by omega
  have same := refines.device.bytes _ ⟨kind, position / 4096, by omega, rfl⟩ (position / 8 % 512)
    (by omega)
  rw [BitmapCounters.Volume.bit, BlockBitmap.Device.bit, refines.sectors, refines.bitmap, same, bit,
    bitAt, isByte]

/-- Both count the same number of clear bits. -/
theorem Refines.clear_eq (kind : Kind) : image.clear kind = clear volume kind := by
  rw [BitmapCounters.Volume.clear, clear, refines.sectors]
  refine countP_congr fun position member => ?_
  rw [refines.bit_eq kind (mem_range.mp member)]

end

end Calls

/-- A volume with the numbers that its allocations have handed out and not got back. -/
structure System where
  volume : Volume
  held : Kind → List Nat

/-- The calls of a run, with what the device answers during the call. -/
inductive Call where
  | findFreeBlocks (reads writes : Nat → Nat → Bool)
  | findHigherHalfFreeBlocks (reads writes : Nat → Nat → Bool)
  | findFreeInode (reads writes : Nat → Nat → Bool)
  | freeAllocBlock (id : Nat) (reads writes : Nat → Nat → Bool)
  | freeAllocInode (id : Nat) (reads writes : Nat → Nat → Bool)

/-- A number that was returned is held. -/
def System.allocated (system : System) (kind : Kind) (result : Nat × Volume) : System :=
  { volume := result.2
    held := if result.1 = 0 then system.held
      else update system.held kind (result.1 :: system.held kind) }

/-- A number that was released is not held any more. -/
def System.released (system : System) (kind : Kind) (id : Nat) (result : Bool × Volume) : System :=
  { volume := result.2
    held := if result.1 then update system.held kind ((system.held kind).erase id)
      else system.held }

/-- One call on the system, with the faults of the device that it meets. -/
def step (system : System) : Call → Option System
  | .findFreeBlocks reads writes =>
    some (system.allocated .block (findFreeBlocks (withFaults system.volume reads writes)))
  | .findHigherHalfFreeBlocks reads writes =>
    some (system.allocated .block (findHigherHalfFreeBlocks (withFaults system.volume reads writes)))
  | .findFreeInode reads writes =>
    some (system.allocated .inode (findFreeInode (withFaults system.volume reads writes)))
  | .freeAllocBlock id reads writes =>
    some (system.released .block id (freeAllocBlock (withFaults system.volume reads writes) id))
  | .freeAllocInode id reads writes =>
    some (system.released .inode id (freeAllocInode (withFaults system.volume reads writes) id))

/-- A caller releases only numbers that it holds. -/
def allowed (system : System) : Call → Prop
  | .freeAllocBlock id _ _ => id ∈ system.held .block
  | .freeAllocInode id _ _ => id ∈ system.held .inode
  | _ => True

/-- The runs from a volume on which nothing is held yet. -/
def machine (start : Volume) : Machine System Call where
  initial system := system = { volume := start, held := fun _ => [] }
  allowed := allowed
  step := step

/-- The volume of `BitmapCounters` that stands for the bytes. -/
def imageOf (volume : Volume) : BitmapCounters.Volume where
  device :=
    { sector := fun lba index => (volume.device.disk (512 * lba + index)).toBitVec
      reads := fun lba => volume.device.reads lba 1
      writes := fun lba => volume.device.writes lba 1 }
  blocks := volume.fs.blocks
  secPerBlock := volume.fs.secPerBlock
  bitmap := bitmapOf volume.fs
  unalloc := unallocOf volume.fs
  groupUnalloc := groupUnallocOf volume.fs

/-- Every volume refines its own image. -/
theorem imageOf_refines (volume : Volume) : Refines volume (imageOf volume) :=
  ⟨rfl, rfl, rfl, rfl, rfl, fun _ => rfl, fun _ => rfl, fun _ _ _ _ => rfl⟩

/-- A volume whose bitmaps are placed has a single group. -/
theorem Placed.singleGroup (placed : Placed volume.fs) :
    BitmapCounters.SingleGroup (imageOf volume) :=
  ⟨placed.fits, placed.sectors, placed.apart, placed.inside⟩

/-- The same run on both levels. What the device answers is chosen anew in every call. -/
structure Related (system : System) (image : BitmapCounters.System) : Prop where
  placed : Placed system.volume.fs
  refines : ∀ reads writes, Refines (withFaults system.volume reads writes)
    (image.volume.withFaults (fun lba => reads lba 1) fun lba => writes lba 1)
  held : image.held = system.held

/-- The same faults on both sides keep the refinement. -/
theorem Refines.withFaults {image : BitmapCounters.Volume} (refines : Refines volume image)
    (reads writes : Nat → Nat → Bool) :
    Refines (withFaults volume reads writes)
      (image.withFaults (reads · 1) (writes · 1)) :=
  ⟨refines.blocks, refines.sectors, refines.bitmap, refines.unalloc, refines.groupUnalloc,
    fun _ => rfl, fun _ => rfl, refines.device.bytes⟩

section Simulations

variable {system : System} {image : BitmapCounters.System} (reads writes : Nat → Nat → Bool)

/-- An allocation keeps both systems related. -/
theorem Related.allocated (related : Related system image) (kind : Kind) (mapIdxStart : Nat) :
    Related (system.allocated kind (findFree kind mapIdxStart
        (withFaults system.volume reads writes)))
      (image.allocated kind (BitmapCounters.findFree kind mapIdxStart
        (image.volume.withFaults (reads · 1) (writes · 1)))) := by
  obtain ⟨sameId, placed, refines⟩ :=
    findFree_refines (related.refines reads writes) related.placed kind mapIdxStart
  refine ⟨placed, refines.withFaults, ?_⟩
  simp only [System.allocated, BitmapCounters.System.allocated, sameId, related.held]

/-- A release of a held number keeps both systems related. -/
theorem Related.released {start : Volume} (placed : Placed start.fs) (related : Related system image)
    (reached : Reachable (BitmapCounters.machine (imageOf start)) image) {kind : Kind} {id : Nat}
    (isHeld : id ∈ system.held kind) :
    id ∈ image.held kind ∧ Related (system.released kind id (freeAlloc kind
        (withFaults system.volume reads writes) id))
      (image.released kind id (BitmapCounters.freeAlloc kind
        (image.volume.withFaults (reads · 1) (writes · 1)) id)) := by
  have inImage : id ∈ image.held kind := related.held ▸ isHeld
  have invariant := (BitmapCounters.invariant_inductive placed.singleGroup).holds reached
  obtain ⟨position, below, rfl, _⟩ := (invariant.account kind).fresh id inImage
  have sectors := (related.refines reads writes).sectors.symm.trans invariant.layout.sectors
  obtain ⟨sameResult, placed, refines⟩ :=
    freeAlloc_refines (related.refines reads writes) related.placed kind (sectors ▸ below)
  generalize BitmapCounters.freeAlloc _ _ _ = result at *
  have held : (image.released kind (position + 1) result).held =
      (system.released kind (position + 1) (freeAlloc kind
        (withFaults system.volume reads writes) (position + 1))).held := by
    simp only [System.released, sameResult, ← related.held]
    cases result <;> rfl
  cases result <;> exact ⟨inImage, placed, refines.withFaults, held⟩

end Simulations

/-- Every call on the bytes is the same call of `BitmapCounters`. -/
theorem machine_simulation {start : Volume} (placed : Placed start.fs) :
    Simulation (machine start) (BitmapCounters.machine (imageOf start)) Related where
  starts := by
    rintro system rfl
    exact ⟨_, rfl, placed, (imageOf_refines start).withFaults, rfl⟩
  matched := by
    intro system image call after reached related permitted returned
    cases call with
    | findFreeBlocks reads writes =>
      cases returned
      exact ⟨.findFreeBlocks (reads · 1) (writes · 1), _, trivial, rfl,
        related.allocated reads writes .block 0⟩
    | findHigherHalfFreeBlocks reads writes =>
      cases returned
      refine ⟨.findHigherHalfFreeBlocks (reads · 1) (writes · 1), _, trivial, rfl, ?_⟩
      rw [BitmapCounters.findHigherHalfFreeBlocks, (related.refines reads writes).blocks]
      exact related.allocated reads writes .block _
    | findFreeInode reads writes =>
      cases returned
      exact ⟨.findFreeInode (reads · 1) (writes · 1), _, trivial, rfl,
        related.allocated reads writes .inode 0⟩
    | freeAllocBlock id reads writes =>
      cases returned
      obtain ⟨inImage, released⟩ := related.released reads writes placed reached permitted
      exact ⟨.freeAllocBlock id (reads · 1) (writes · 1), _, inImage, rfl, released⟩
    | freeAllocInode id reads writes =>
      cases returned
      obtain ⟨inImage, released⟩ := related.released reads writes placed reached permitted
      exact ⟨.freeAllocInode id (reads · 1) (writes · 1), _, inImage, rfl, released⟩

/-- How the bytes have come out of those at the start of a run: the numbers that are held have been
taken, each once, and nothing else; the counters have followed the number of clear bits. -/
structure Accounted (start : Volume) (system : System) (kind : Kind) : Prop where
  nodup : (system.held kind).Nodup
  fresh : ∀ id ∈ system.held kind, id ≠ 0 ∧ bit start kind (id - 1) = false
  bits : ∀ position < 4096 * start.fs.secPerBlock, bit system.volume kind position =
    (bit start kind position || decide (position + 1 ∈ system.held kind))
  unalloc : (unallocOf system.volume.fs kind + clear start kind) % 2 ^ 32 =
    (unallocOf start.fs kind + clear system.volume kind) % 2 ^ 32
  group : (groupUnallocOf system.volume.fs kind + clear start kind) % 2 ^ 16 =
    (groupUnallocOf start.fs kind + clear system.volume kind) % 2 ^ 16

/-- In every run of allocations and releases on the bytes of a volume with one group. -/
theorem run_accounted {start : Volume} (placed : Placed start.fs) {system : System}
    (reached : Reachable (machine start) system) (kind : Kind) : Accounted start system kind := by
  obtain ⟨image, imageReached, related⟩ := (machine_simulation placed).reachable reached
  have invariant := (BitmapCounters.invariant_inductive placed.singleGroup).holds imageReached
  obtain ⟨bits, nodup, fresh, cleared, unalloc, group⟩ := invariant.account kind
  have begins := imageOf_refines start
  have refines := related.refines system.volume.device.reads system.volume.device.writes
  have sectors : system.volume.fs.secPerBlock = start.fs.secPerBlock :=
    refines.sectors.symm.trans invariant.layout.sectors
  have sameUnalloc : image.volume.unalloc kind = unallocOf system.volume.fs kind :=
    congrFun refines.unalloc kind
  have sameGroup : image.volume.groupUnalloc kind = groupUnallocOf system.volume.fs kind :=
    congrFun refines.groupUnalloc kind
  have sameClear : image.volume.clear kind = clear system.volume kind := refines.clear_eq kind
  rw [related.held] at nodup fresh cleared unalloc group
  rw [begins.clear_eq, sameClear] at cleared
  rw [sameUnalloc, begins.unalloc] at unalloc
  rw [sameGroup, begins.groupUnalloc] at group
  refine ⟨nodup, fun id member => ?_, fun position below => ?_, by omega, by omega⟩
  · obtain ⟨position, below, rfl, free⟩ := fresh id member
    exact ⟨position.succ_ne_zero, (begins.bit_eq kind below).symm.trans free⟩
  · have here := bits position below
    rw [begins.bit_eq kind below, related.held] at here
    exact (refines.bit_eq kind (sectors ▸ below)).symm.trans here

/-- Sectors 6 to 9 hold the bitmaps, and sectors 2 to 4 the counters. -/
theorem run_accounted_small :
    let start : Volume := ⟨smallDevice 8 firstBytes, smallFs 8 firstBytes⟩
    ∃ system, Reachable (machine start) system ∧ Accounted start system .block := by
  intro start
  obtain ⟨blocks, two, size⟩ : start.fs.blocks = 8 ∧ start.fs.secPerBlock = 2 ∧
      start.fs.blockSize = 1024 := by decide +kernel
  have places : ∀ kind, bitmapOf start.fs kind = 3 ∨ bitmapOf start.fs kind = 4 := by
    rintro (_ | _) <;> decide +kernel
  have placed : Placed start.fs := by
    refine ⟨by omega, by omega, by decide +kernel, fun kind => ?_, ?_⟩
    · have place := places kind
      omega
    · rintro lba ⟨kind, sector, below, rfl⟩
      have place := places kind
      rw [size, two, blockGrpLoc, if_pos rfl]
      omega
  have reached := (Reachable.initial rfl : Reachable (machine start) _).call
    (.findFreeBlocks (fun _ _ => true) fun _ _ => true) trivial rfl
  exact ⟨_, reached, run_accounted placed reached .block⟩

end Balrog.Ext2Accounts
