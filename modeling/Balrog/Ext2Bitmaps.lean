import Balrog.BitmapCounters
import Balrog.Ext2Volume

/-!
# The bitmaps of an ext2 volume

Allocation looks for a clear bit in the block that holds the bitmap of the first group. How many
sectors it looks at depends on the number of blocks of the whole volume, also for inodes: if the
volume has more blocks than a bitmap has bits, the search goes on in whatever follows the bitmap on
the device. Bits that stand for no block or inode are only passed over if they are set.

The functions for blocks and those for inodes are the same up to the bitmap and the counters. Each
of them counts in memory and then writes the superblock and the descriptor back.
-/

namespace Balrog.Ext2Bitmaps

open ByteMemory Ext2Volume List
open BlockBitmap (freeInSector offsets freeInSector_some)
open BitmapCounters (Kind)

/-- The block that holds a bitmap. -/
def bitmapOf (fs : FsData) : Kind → Nat
  | .block => fs.blockBitmap
  | .inode => fs.inodeBitmap

/-- The places of the free counters, of the superblock and of the group. -/
def countersOf : Kind → Nat × Nat
  | .block => (12, 1036)
  | .inode => (16, 1038)

/-- A number is added to both free counters. -/
def count (kind : Kind) (change : Nat) (fs : FsData) : FsData :=
  let (total, group) := countersOf kind
  let bytes := store 4 fs.bytes total (load 4 fs.bytes total + change)
  ⟨store 2 bytes group (load 2 bytes group + change)⟩

/-- `-1` as a number that is added to counters of 16 and 32 bits. -/
def minusOne : Nat := 2 ^ 32 - 1

/-- The body of the loop over the sectors: the number to return, which is 0 if the device fails, or
nothing if the sector is full. -/
def searchSector (device : Device) (lba mapIdx : Nat) : Option Nat × Device :=
  let (sector, device) := device.read lba 1
  match sector with
  | none => (some 0, device)
  | some bytes =>
    match freeInSector fun index => (bytes index).toBitVec with
    | none => (none, device)
    | some (index, bit) =>
      let byte := UInt8.ofBitVec ((bytes index).toBitVec ||| (1#8 <<< bit))
      let (written, device) := device.write (put bytes index byte) lba 1
      (some (if written then (bit + index * 8 + 4096 * (mapIdx / 512) + 1) % 2 ^ 32 else 0), device)

/-- The loop of `__ext2_find_free_bitmap` over the sectors. -/
def findFrom (device : Device) (start : Nat) : List Nat → Nat × Device
  | [] => (0, device)
  | mapIdx :: rest =>
    match searchSector device (start + mapIdx / 512) mapIdx with
    | (some id, device) => (id, device)
    | (none, device) => findFrom device start rest

/-- `__ext2_find_free_bitmap` -/
def findFreeBitmap (device : Device) (bitmapSize startIdx secPerBlock mapIdxStart : Nat) :
    Nat × Device :=
  findFrom device (startIdx * secPerBlock) (offsets bitmapSize mapIdxStart)

/-- How an allocation searches and counts. The size of the bitmap is the same for both kinds. -/
def findFree (kind : Kind) (mapIdxStart : Nat) (volume : Volume) : Nat × Volume :=
  let (id, device) := findFreeBitmap volume.device (volume.fs.blocks / 8)
    (bitmapOf volume.fs kind) volume.fs.secPerBlock mapIdxStart
  if id ≠ 0 then (id, (updateSbAndBlkDesc ⟨device, count kind minusOne volume.fs⟩).2)
  else (id, { volume with device := device })

/-- `__ext2_find_free_blocks` -/
def findFreeBlocks (volume : Volume) : Nat × Volume := findFree .block 0 volume

/-- `__ext2_find_higher_half_free_blocks` -/
def findHigherHalfFreeBlocks (volume : Volume) : Nat × Volume :=
  findFree .block (volume.fs.blocks / 8 / 2) volume

/-- `__ext2_find_free_inode` -/
def findFreeInode (volume : Volume) : Nat × Volume := findFree .inode 0 volume

/-- How a release clears a bit and counts: whether it returns 0, and the volume. -/
def freeAlloc (kind : Kind) (volume : Volume) (id : Nat) : Bool × Volume :=
  let position := (id + (2 ^ 32 - 1)) % 2 ^ 32
  let mapByte := position / 8 % 512
  let mapLba :=
    (bitmapOf volume.fs kind * volume.fs.secPerBlock + position / 8 / 512) % 2 ^ 32
  let (sector, device) := volume.device.read mapLba 1
  match sector with
  | none => (false, { volume with device := device })
  | some bytes =>
    let byte :=
      UInt8.ofBitVec ((bytes mapByte).toBitVec &&& (0xff#8 ^^^ (1#8 <<< (position % 8))))
    let (written, device) := device.write (put bytes mapByte byte) mapLba 1
    if written then (true, (updateSbAndBlkDesc ⟨device, count kind 1 volume.fs⟩).2)
    else (false, { volume with device := device })

/-- `__ext2_free_alloc_block` -/
def freeAllocBlock (volume : Volume) (id : Nat) : Bool × Volume := freeAlloc .block volume id

/-- `__ext2_free_alloc_inode` -/
def freeAllocInode (volume : Volume) (id : Nat) : Bool × Volume := freeAlloc .inode volume id

/-- The bit at a position of the bitmap that begins at the given sector of the disk. -/
def bitAt (disk : Bytes) (start position : Nat) : Bool :=
  (disk (512 * start + position / 8)).toBitVec.getLsbD (position % 8)

/-- The bit at a position of one of the two bitmaps of a volume. -/
def bit (volume : Volume) (kind : Kind) (position : Nat) : Bool :=
  bitAt volume.device.disk (bitmapOf volume.fs kind * volume.fs.secPerBlock) position

/-- How many blocks or inodes the volume has. -/
def limit (fs : FsData) : Kind → Nat
  | .block => fs.blocks
  | .inode => fs.inodes

/-- An access to one sector of some that follow each other. -/
def Within (start sectors : Nat) (access : Access) : Prop :=
  ∃ sector < sectors, access = .read (start + sector) 1 ∨ access = .write (start + sector) 1

/-- A write of the superblock or of the first group descriptor. -/
def Counts (fs : FsData) (access : Access) : Prop :=
  access = .write 2 2 ∨
    access = .write (blockGrpLoc fs.blockSize * fs.secPerBlock % 2 ^ 32) 1

/-- The sectors of a device as the search alone sees them. -/
def view (device : Device) : BlockBitmap.Device where
  sector lba index := (device.disk (512 * lba + index)).toBitVec
  reads lba := device.reads lba 1
  writes lba := device.writes lba 1

/-- The search comes to a sector if all sectors before it are full. -/
structure Reached (disk : Bytes) (start first past sector : Nat) : Prop where
  above : first ≤ sector
  below : sector < past
  full : ∀ position, 4096 * first ≤ position → position < 4096 * sector →
    bitAt disk start position = true

/-- The first sector of the bitmap that an allocation looks at. -/
def firstSector (mapIdxStart : Nat) : Nat := mapIdxStart / 512

/-- The sector behind the last one that an allocation looks at. -/
def pastSector (fs : FsData) (mapIdxStart : Nat) : Nat :=
  firstSector mapIdxStart + (fs.blocks / 8 - mapIdxStart + 511) / 512

/-- Whatever the device refuses, an allocation accesses the bitmap block and the counters only, and
its result is at most the number of blocks or inodes. -/
def Inside (volume : Volume) (kind : Kind) (mapIdxStart : Nat) : Prop :=
  ∀ reads writes, (∃ searched counted,
      (findFree kind mapIdxStart (withFaults volume reads writes)).2.device.log =
        volume.device.log ++ searched ++ counted ∧
      (∀ access ∈ searched,
        Within (bitmapOf volume.fs kind * volume.fs.secPerBlock) volume.fs.secPerBlock access) ∧
      ∀ access ∈ counted, Counts volume.fs access) ∧
    (findFree kind mapIdxStart (withFaults volume reads writes)).1 ≤ limit volume.fs kind

/-- The sectors up to the first one with a clear bit lie in the bitmap block, and that bit stands for
a block or inode of the volume. -/
structure Confined (volume : Volume) (kind : Kind) (mapIdxStart : Nat) : Prop where
  sectors : ∀ sector, Reached volume.device.disk
      (bitmapOf volume.fs kind * volume.fs.secPerBlock) (firstSector mapIdxStart)
      (pastSector volume.fs mapIdxStart) sector →
    sector < volume.fs.secPerBlock
  counted : ∀ position, BlockBitmap.FirstClear (view volume.device)
      (bitmapOf volume.fs kind * volume.fs.secPerBlock) (firstSector mapIdxStart)
      (pastSector volume.fs mapIdxStart) position →
    (position + 1) % 2 ^ 32 ≤ limit volume.fs kind

section Searches

variable {sectors : Nat}

theorem searchSector_log (device : Device) (start mapIdx : Nat) (here : mapIdx / 512 < sectors) :
    (∃ searched disk, (searchSector device (start + mapIdx / 512) mapIdx).2 =
        { device with disk := disk, log := device.log ++ searched } ∧
      ∀ access ∈ searched, Within start sectors access) ∧
    ((searchSector device (start + mapIdx / 512) mapIdx).1 = some 0 ∨
      (searchSector device (start + mapIdx / 512) mapIdx).1 = none ∧
        (searchSector device (start + mapIdx / 512) mapIdx).2.disk = device.disk ∨
      ∃ position < 4096 * sectors, bitAt device.disk start position = false ∧
        (searchSector device (start + mapIdx / 512) mapIdx).1 =
          some ((position + 1) % 2 ^ 32)) := by
  have isRead : Within start sectors (.read (start + mapIdx / 512) 1) := ⟨_, here, .inl rfl⟩
  have isWrite : Within start sectors (.write (start + mapIdx / 512) 1) := ⟨_, here, .inr rfl⟩
  have both : ∀ access ∈ [Access.read (start + mapIdx / 512) 1,
      .write (start + mapIdx / 512) 1], Within start sectors access := by
    simp [isRead, isWrite]
  simp only [searchSector, Device.read]
  by_cases readable : device.reads (start + mapIdx / 512) 1 = true
  · simp only [readable, if_true]
    split
    · exact ⟨⟨_, _, rfl, by simp [isRead]⟩, .inr (.inl ⟨rfl, rfl⟩)⟩
    · next index place isFree =>
      obtain ⟨below, small, clear, _⟩ := freeInSector_some isFree
      simp only [Device.write]
      split
      · refine ⟨⟨_, _, congrArg (Device.mk _ _ _) (append_assoc _ _ _), both⟩,
          .inr (.inr ⟨4096 * (mapIdx / 512) + (index * 8 + place), by omega, ?_, ?_⟩)⟩
        · have isByte : 512 * start + (4096 * (mapIdx / 512) + (index * 8 + place)) / 8 =
              512 * (start + mapIdx / 512) + index := by omega
          have isBit : (4096 * (mapIdx / 512) + (index * 8 + place)) % 8 = place := by omega
          rw [bitAt, isByte, isBit]
          exact clear
        · have sum : place + index * 8 + 4096 * (mapIdx / 512) + 1 =
              4096 * (mapIdx / 512) + (index * 8 + place) + 1 := by omega
          simp only [if_true, sum]
      · exact ⟨⟨_, _, congrArg (Device.mk _ _ _) (append_assoc _ _ _), both⟩, .inl (by simp)⟩
  · rw [if_neg readable]
    exact ⟨⟨_, _, rfl, by simp [isRead]⟩, .inl rfl⟩

/-- What a search changes and accesses, and the bit it finds. The induction is on the places that are left. -/
theorem findFrom_log (start : Nat) (places : List Nat)
    (inside : ∀ mapIdx ∈ places, mapIdx / 512 < sectors) (device : Device) :
    (∃ searched disk, (findFrom device start places).2 =
        { device with disk := disk, log := device.log ++ searched } ∧
      ∀ access ∈ searched, Within start sectors access) ∧
    ((findFrom device start places).1 = 0 ∨
      ∃ position < 4096 * sectors, bitAt device.disk start position = false ∧
        (findFrom device start places).1 = (position + 1) % 2 ^ 32) := by
  induction places generalizing device with
  | nil => exact ⟨⟨[], device.disk, by simp [findFrom], by simp⟩, .inl rfl⟩
  | cons mapIdx rest ih =>
    obtain ⟨⟨first, disk, isFirst, firstAll⟩, outcome⟩ :=
      searchSector_log device start mapIdx (inside mapIdx mem_cons_self)
    rw [findFrom]
    generalize searchSector device (start + mapIdx / 512) mapIdx = result at *
    obtain ⟨found, after⟩ := result
    cases found with
    | some id =>
      refine ⟨⟨first, disk, isFirst, firstAll⟩, ?_⟩
      rcases outcome with zero | ⟨nothing, _⟩ | ⟨position, below, clear, isId⟩
      · exact .inl (Option.some.inj zero)
      · cases nothing
      · exact .inr ⟨position, below, clear, Option.some.inj isId⟩
    | none =>
      obtain ⟨⟨second, last, isSecond, secondAll⟩, later⟩ := ih
        (forall_mem_cons.mp inside).2 after
      have same : after.disk = device.disk := by
        rcases outcome with zero | ⟨_, same⟩ | ⟨_, _, _, isId⟩
        · cases zero
        · exact same
        · cases isId
      refine ⟨⟨first ++ second, last, isSecond.trans ?_, fun access member => ?_⟩, same ▸ later⟩
      · obtain rfl : after = _ := isFirst
        exact congrArg (Device.mk _ _ _) (append_assoc _ _ _)
      · exact (mem_append.mp member).elim (firstAll access) (secondAll access)

/-- The places of a search lie in the bitmap. -/
theorem offsets_inside {bitmapSize : Nat} (mapIdxStart : Nat) (fits : bitmapSize ≤ 512 * sectors) :
    ∀ mapIdx ∈ offsets bitmapSize mapIdxStart, mapIdx / 512 < sectors := by
  intro mapIdx member
  obtain ⟨round, below, rfl⟩ := mem_map.mp member
  have inRounds := mem_range.mp below
  omega

/-- Writing the counters back accesses the superblock and the descriptor. -/
theorem update_log (volume : Volume) :
    ∃ counted, (updateSbAndBlkDesc volume).2.device.log = volume.device.log ++ counted ∧
      ∀ access ∈ counted, Counts volume.fs access := by
  simp only [updateSbAndBlkDesc, Device.write]
  split
  · simp only [if_true]
    split <;> exact ⟨[.write 2 2, .write (blockGrpLoc volume.fs.blockSize *
      volume.fs.secPerBlock % 2 ^ 32) 1], by simp, by simp [Counts]⟩
  · exact ⟨[.write 2 2], by simp, by simp [Counts]⟩

end Searches

theorem count_load (kind : Kind) (change : Nat) (fs : FsData) (width : Nat) {address : Nat}
    (outside : address + width ≤ 12 ∨ 20 ≤ address ∧ address + width ≤ 1036 ∨ 1040 ≤ address) :
    load width (count kind change fs).bytes address = load width fs.bytes address := by
  have apart : Apart (countersOf kind).1 4 address width ∧
      Apart (countersOf kind).2 2 address width := by
    cases kind <;> simp only [countersOf, Apart] <;> omega
  simp only [count]
  rw [load_store_apart apart.2, load_store_apart apart.1]

/-- What an allocation returns is what the search has found. -/
theorem findFree_id (kind : Kind) (mapIdxStart : Nat) (volume : Volume) :
    (findFree kind mapIdxStart volume).1 = (findFreeBitmap volume.device (volume.fs.blocks / 8)
      (bitmapOf volume.fs kind) volume.fs.secPerBlock mapIdxStart).1 := by
  simp only [findFree]
  split <;> rfl

section Confinement

variable {disk : Bytes} {start first past sector : Nat} {device : Device}

/-- A bit of the disk is a bit of its sectors. -/
theorem bit_view (device : Device) (start position : Nat) :
    (view device).bit start position = bitAt device.disk start position := by
  have place : 512 * (start + position / 4096) + position / 8 % 512 = 512 * start + position / 8 := by
    omega
  simp only [BlockBitmap.Device.bit, bitAt, view, place]

/-- The search finds what the search over sectors finds. -/
theorem findFrom_view (places : List Nat) (device : Device) :
    (findFrom device start places).1 =
      (BlockBitmap.findFrom (view device) start places).1 := by
  induction places generalizing device with
  | nil => rfl
  | cons mapIdx rest ih =>
    rw [findFrom, BlockBitmap.findFrom, searchSector, BlockBitmap.searchSector]
    by_cases readable : device.reads (start + mapIdx / 512) 1 = true
    · cases isFree : freeInSector fun index =>
          (device.disk (512 * (start + mapIdx / 512) + index)).toBitVec with
      | none =>
        have next := ih { device with log := device.log ++ [.read (start + mapIdx / 512) 1] }
        simp only [Device.read, view, readable, isFree, if_true] at next ⊢
        exact next
      | some found =>
        obtain ⟨index, place⟩ := found
        simp only [Device.read, Device.write, view, readable, isFree, if_true]
        by_cases writable : device.writes (start + mapIdx / 512) 1 = true
        · simp only [writable, if_true]
        · simp only [writable, if_false, Bool.false_eq_true]
    · simp only [Device.read, view, readable, if_false, Bool.false_eq_true]

/-- A search depends on the sectors only. -/
theorem findFrom_sectors (places : List Nat) (device : Device) :
    findFrom device start places =
      findFrom device start ((places.map (· / 512)).map (512 * ·)) := by
  induction places generalizing device with
  | nil => rfl
  | cons mapIdx rest ih =>
    have same : 512 * (mapIdx / 512) / 512 = mapIdx / 512 := by omega
    have round : searchSector device (start + mapIdx / 512) (512 * (mapIdx / 512)) =
        searchSector device (start + mapIdx / 512) mapIdx := by
      simp only [searchSector, same]
    rw [map_cons, map_cons, findFrom, findFrom, same, round]
    split
    · rfl
    · exact ih _

/-- The bits of a sector, where none of them is free. -/
theorem full_sector (device : Device) (start round : Nat)
    (full : freeInSector (fun index => (device.disk (512 * (start + round) + index)).toBitVec) = none)
    (position : Nat) (above : 4096 * round ≤ position) (below : position < 4096 * (round + 1)) :
    bitAt device.disk start position = true := by
  obtain ⟨place, rfl⟩ := Nat.exists_eq_add_of_le above
  rw [← bit_view, BlockBitmap.bit_sector (view device) start round (by omega)]
  exact BlockBitmap.freeInSector_none full (by omega)

/-- Where the first sector is full, the search comes to those it comes to from the second on. -/
theorem Reached.of_next (full : ∀ position, 4096 * first ≤ position →
      position < 4096 * (first + 1) → bitAt disk start position = true)
    (reached : Reached disk start (first + 1) past sector) :
    Reached disk start first past sector := by
  refine ⟨Nat.le_of_succ_le reached.above, reached.below, fun position above below => ?_⟩
  by_cases here : position < 4096 * (first + 1)
  · exact full position above here
  · exact reached.full position (Nat.le_of_not_lt here) below

/-- A search accesses only sectors it comes to. The induction is on the number of sectors. -/
theorem findFrom_reached (first rounds : Nat) (device : Device) :
    ∃ searched disk, (findFrom device start ((range' first rounds).map (512 * ·))).2 =
        { device with disk := disk, log := device.log ++ searched } ∧
      ∀ access ∈ searched, ∃ sector, Reached device.disk start first (first + rounds) sector ∧
        (access = .read (start + sector) 1 ∨ access = .write (start + sector) 1) := by
  induction rounds generalizing first device with
  | zero => exact ⟨[], device.disk, by simp [findFrom], by simp⟩
  | succ rounds ih =>
    have isRound : 512 * first / 512 = first := by omega
    have here : Reached device.disk start first (first + (rounds + 1)) first :=
      ⟨Nat.le_refl _, by omega, fun position above below => by omega⟩
    have isRead : ∃ sector, Reached device.disk start first (first + (rounds + 1)) sector ∧
        (Access.read (start + first) 1 = .read (start + sector) 1 ∨
          Access.read (start + first) 1 = .write (start + sector) 1) := ⟨first, here, .inl rfl⟩
    have isWrite : ∃ sector, Reached device.disk start first (first + (rounds + 1)) sector ∧
        (Access.write (start + first) 1 = .read (start + sector) 1 ∨
          Access.write (start + first) 1 = .write (start + sector) 1) := ⟨first, here, .inr rfl⟩
    rw [range'_succ, map_cons, findFrom, searchSector]
    simp only [isRound, Device.read]
    by_cases readable : device.reads (start + first) 1 = true
    · simp only [readable, if_true]
      cases isFree : freeInSector fun index =>
          (device.disk (512 * (start + first) + index)).toBitVec with
      | none =>
        obtain ⟨searched, disk, isAfter, all⟩ := ih (first + 1)
          { device with log := device.log ++ [.read (start + first) 1] }
        refine ⟨.read (start + first) 1 :: searched, disk, isAfter.trans ?_, fun access member => ?_⟩
        · exact congrArg (Device.mk _ _ _) (append_assoc _ _ _)
        · rcases mem_cons.mp member with rfl | later
          · exact isRead
          · obtain ⟨sector, reached, isAccess⟩ := all access later
            have further := reached.of_next (full_sector device start first isFree)
            exact ⟨sector, ⟨further.above, by have := further.below; omega, further.full⟩, isAccess⟩
      | some found =>
        obtain ⟨index, place⟩ := found
        simp only [Device.write]
        split <;>
        · refine ⟨[.read (start + first) 1, .write (start + first) 1], _,
            congrArg (Device.mk _ _ _) (append_assoc _ _ _), ?_⟩
          simp only [mem_cons, not_mem_nil, or_false, forall_eq_or_imp, forall_eq]
          exact ⟨isRead, isWrite⟩
    · rw [if_neg readable]
      refine ⟨[.read (start + first) 1], _, rfl, ?_⟩
      simp only [mem_cons, not_mem_nil, or_false, forall_eq]
      exact isRead

/-- On a device that answers every read, a search reads each sector it comes to. The induction is on the
number of sectors. -/
theorem findFrom_reads (first rounds : Nat) (device : Device)
    (answers : ∀ lba, device.reads lba 1 = true) {sector : Nat}
    (reached : Reached device.disk start first (first + rounds) sector) :
    ∃ searched, (findFrom device start ((range' first rounds).map (512 * ·))).2.log =
        device.log ++ searched ∧ Access.read (start + sector) 1 ∈ searched := by
  induction rounds generalizing first device with
  | zero => exact absurd reached.below (Nat.not_lt_of_le reached.above)
  | succ rounds ih =>
    have isRound : 512 * first / 512 = first := by omega
    rw [range'_succ, map_cons, findFrom, searchSector]
    simp only [isRound, Device.read, answers, if_true]
    cases isFree : freeInSector fun index =>
        (device.disk (512 * (start + first) + index)).toBitVec with
    | none =>
      rcases Nat.eq_or_lt_of_le reached.above with rfl | further
      · obtain ⟨searched, disk, isAfter, _⟩ := @findFrom_reached start (first + 1) rounds
          { device with log := device.log ++ [.read (start + first) 1] }
        refine ⟨.read (start + first) 1 :: searched, ?_, mem_cons_self⟩
        exact (congrArg Device.log isAfter).trans (append_assoc _ _ _)
      · have next : Reached device.disk start (first + 1) (first + 1 + rounds) sector :=
          ⟨further, by have := reached.below; omega,
            fun position above => reached.full position (by omega)⟩
        obtain ⟨searched, isLog, member⟩ := ih (first + 1)
          { device with log := device.log ++ [.read (start + first) 1] } answers next
        exact ⟨.read (start + first) 1 :: searched, isLog.trans (append_assoc _ _ _),
          mem_cons_of_mem _ member⟩
    | some found =>
      obtain ⟨index, place⟩ := found
      obtain ⟨small, low, clear, _⟩ := freeInSector_some isFree
      have isFirst : sector = first := by
        refine Nat.le_antisymm (Nat.le_of_not_lt fun further => ?_) reached.above
        have set := reached.full (4096 * first + (index * 8 + place)) (by omega) (by omega)
        have isByte : 512 * start + (4096 * first + (index * 8 + place)) / 8 =
            512 * (start + first) + index := by omega
        have isBit : (4096 * first + (index * 8 + place)) % 8 = place := by omega
        rw [bitAt, isByte, isBit] at set
        exact Bool.false_ne_true (clear.symm.trans set)
      subst isFirst
      simp only [Device.write]
      split <;> exact ⟨[.read (start + sector) 1, .write (start + sector) 1],
        append_assoc _ _ _, mem_cons_self⟩

end Confinement

/-- An allocation logs the search, and then writes of the counters. -/
theorem findFree_log (kind : Kind) (mapIdxStart : Nat) (volume : Volume) :
    ∃ counted, (findFree kind mapIdxStart volume).2.device.log =
        (findFreeBitmap volume.device (volume.fs.blocks / 8) (bitmapOf volume.fs kind)
          volume.fs.secPerBlock mapIdxStart).2.log ++ counted ∧
      ∀ access ∈ counted, Counts volume.fs access := by
  simp only [findFree]
  split
  · obtain ⟨counted, isCounted, each⟩ := update_log ⟨(findFreeBitmap volume.device
      (volume.fs.blocks / 8) (bitmapOf volume.fs kind) volume.fs.secPerBlock mapIdxStart).2,
      count kind minusOne volume.fs⟩
    refine ⟨counted, isCounted, fun access member => ?_⟩
    have size := count_load kind minusOne volume.fs 4 (.inr (.inr (show 1040 ≤ 1056 by decide)))
    have sectors := count_load kind minusOne volume.fs 4
      (.inr (.inr (show 1040 ≤ 1060 by decide)))
    have counts := each access member
    simp only [Counts, FsData.blockSize, FsData.secPerBlock, size, sectors] at counts
    exact counts
  · exact ⟨[], (append_nil _).symm, by simp⟩

/-- The search of an allocation, by sectors. -/
theorem findFreeBitmap_sectors (kind : Kind) (mapIdxStart : Nat) (volume : Volume) :
    findFreeBitmap volume.device (volume.fs.blocks / 8) (bitmapOf volume.fs kind)
        volume.fs.secPerBlock mapIdxStart =
      findFrom volume.device (bitmapOf volume.fs kind * volume.fs.secPerBlock)
        ((range' (firstSector mapIdxStart) ((volume.fs.blocks / 8 - mapIdxStart + 511) / 512)).map
          (512 * ·)) := by
  rw [findFreeBitmap, findFrom_sectors, BlockBitmap.offsets_sectors]
  rfl

/-- What an allocation returns: 0, which on a device that answers means that no bit is clear, or the
number of the first clear bit. -/
theorem findFree_searched (kind : Kind) (mapIdxStart : Nat) (volume : Volume) :
    BlockBitmap.Searched (view volume.device)
      (bitmapOf volume.fs kind * volume.fs.secPerBlock) (firstSector mapIdxStart)
      (pastSector volume.fs mapIdxStart)
      ((findFree kind mapIdxStart volume).1, (BlockBitmap.findFreeBitmap (view volume.device)
        (volume.fs.blocks / 8) (bitmapOf volume.fs kind) volume.fs.secPerBlock mapIdxStart).2) := by
  rw [findFree_id, findFreeBitmap, findFrom_view]
  exact BlockBitmap.findFreeBitmap_searched _ _ _ _

theorem Confined.inside {volume : Volume} {kind : Kind} {mapIdxStart : Nat}
    (confined : Confined volume kind mapIdxStart) : Inside volume kind mapIdxStart := by
  intro reads writes
  constructor
  · obtain ⟨counted, isLog, counts⟩ := findFree_log kind mapIdxStart (withFaults volume reads writes)
    obtain ⟨searched, disk, isAfter, all⟩ := @findFrom_reached
      (bitmapOf volume.fs kind * volume.fs.secPerBlock) (firstSector mapIdxStart)
      ((volume.fs.blocks / 8 - mapIdxStart + 511) / 512) (withFaults volume reads writes).device
    refine ⟨searched, counted, ?_, fun access member => ?_, counts⟩
    · rw [isLog, findFreeBitmap_sectors]
      exact congrArg (·.log ++ counted) isAfter
    · obtain ⟨sector, reached, isAccess⟩ := all access member
      exact ⟨sector, confined.sectors sector reached, isAccess⟩
  · rcases findFree_searched kind mapIdxStart (withFaults volume reads writes) with
      ⟨nothing, _⟩ | ⟨position, above, below, clear, lower, _, _, isResult⟩
    · have isZero := (Prod.mk.inj nothing).1
      exact Nat.le_trans (Nat.le_of_eq isZero) (Nat.zero_le _)
    · have isId := (Prod.mk.inj isResult).1
      exact Nat.le_trans (Nat.le_of_eq isId)
        (confined.counted position ⟨above, below, clear, lower⟩)

/-- Whatever the device refuses, allocation of blocks and inodes stays in the bitmap block and
returns the number of a block or inode exactly if the search, which goes over as many bytes as the
volume has blocks for, ends in the bitmap block at a bit that stands for one. Beside the bitmap an
allocation writes the counters. -/
theorem allocation_inside_iff (volume : Volume) (kind : Kind) (mapIdxStart : Nat) :
    Inside volume kind mapIdxStart ↔ Confined volume kind mapIdxStart := by
  refine ⟨fun inside => ?_, Confined.inside⟩
  obtain ⟨⟨searched, counted, isLog, within, counts⟩, bounded⟩ :=
    inside (fun _ _ => true) fun _ _ => true
  constructor
  · intro sector reached
    obtain ⟨later, isLater, _⟩ :=
      findFree_log kind mapIdxStart (withFaults volume (fun _ _ => true) fun _ _ => true)
    obtain ⟨looked, isLooked, member⟩ := findFrom_reads (firstSector mapIdxStart)
      ((volume.fs.blocks / 8 - mapIdxStart + 511) / 512)
      (withFaults volume (fun _ _ => true) fun _ _ => true).device (fun _ => rfl) reached
    have same : looked ++ later = searched ++ counted := by
      rw [findFreeBitmap_sectors] at isLater
      refine (append_right_inj volume.device.log).mp ?_
      rw [← append_assoc, ← append_assoc, ← isLog, isLater]
      exact congrArg (· ++ later) isLooked.symm
    -- the read is none of the writes of the counters
    rcases mem_append.mp (same ▸ mem_append_left later member) with inSearched | inCounted
    · obtain ⟨place, small, isRead | isWrite⟩ := within _ inSearched
      · have isPlace := (Access.read.inj isRead).1
        omega
      · cases isWrite
    · rcases counts _ inCounted with isWrite | isWrite <;> cases isWrite
  · intro position isFirst
    rcases findFree_searched kind mapIdxStart
        (withFaults volume (fun _ _ => true) fun _ _ => true) with
      ⟨_, full⟩ | ⟨found, above, below, clear, lower, _, _, isResult⟩
    · have set := full (fun _ => ⟨rfl, rfl⟩) position isFirst.above isFirst.below
      exact absurd (isFirst.clear.symm.trans set) Bool.false_ne_true
    · have same : found = position := isFirst.unique ⟨above, below, clear, lower⟩
      have isId := congrArg Prod.fst isResult
      exact same ▸ Nat.le_trans (Nat.le_of_eq isId.symm) bounded

/-- A volume of blocks of 1024 bytes with 8 inodes, the block bitmap in block 3 and the inode bitmap
in block 4. All bits of the two blocks are set but those of some bytes. -/
def smallDisk (blocks : Nat) (clear : Nat → Bool) : Bytes := fun probe =>
  if 3072 ≤ probe ∧ probe < 5120 then if clear probe then 0 else 0xff
  else store 4 (store 4 (store 2 (store 4 (store 4 (fun _ => 0) 1024 8) 1028 blocks)
    1080 ext2Signature) 2048 3) 2052 4 probe

/-- A device without faults that holds the small disk. -/
def smallDevice (blocks : Nat) (clear : Nat → Bool) : Device where
  disk := smallDisk blocks clear
  reads _ _ := true
  writes _ _ := true
  log := []

/-- What `ext2_probe` makes of it. -/
def smallFs (blocks : Nat) (clear : Nat → Bool) : FsData :=
  fsDataOf (fun _ => 0) (fun offset => smallDisk blocks clear (512 * 2 + offset))
    fun offset => smallDisk blocks clear (512 * 4 + offset)

/-- The first byte of each bitmap. -/
def firstBytes (probe : Nat) : Bool := probe = 3072 ∨ probe = 4096

/-- Eight blocks and eight inodes, all of them free. -/
theorem allocation_inside_small :
    Inside ⟨smallDevice 8 firstBytes, smallFs 8 firstBytes⟩ .inode 0 := by
  have past : pastSector (smallFs 8 firstBytes) 0 = 1 := by decide +kernel
  have clear : (view (smallDevice 8 firstBytes)).bit
      (bitmapOf (smallFs 8 firstBytes) .inode * (smallFs 8 firstBytes).secPerBlock) 0 = false := by
    decide +kernel
  refine (allocation_inside_iff ⟨smallDevice 8 firstBytes, smallFs 8 firstBytes⟩ .inode 0).mpr
    ⟨fun sector reached => ?_, fun position isFirst => ?_⟩
  · have below := reached.below
    have sectors : (smallFs 8 firstBytes).secPerBlock = 2 := by decide +kernel
    simp only [past, sectors] at below ⊢
    omega
  · have isZero : position = 0 := by
      refine Nat.eq_zero_of_not_pos fun later => ?_
      have set := isFirst.lower 0 (Nat.le_refl _) later
      exact Bool.false_ne_true (clear.symm.trans set)
    subst isZero
    decide +kernel

/-- A volume with more blocks than its bitmap block has bits: when the bitmap is full, the search
takes a bit of the inode bitmap in the next block for a block. -/
theorem next_bitmap_taken :
    (ext2Probe (smallDevice 16384 fun probe => 4096 ≤ probe) fun _ => 0).1 =
      some (smallFs 16384 fun probe => 4096 ≤ probe) ∧
    (smallFs 16384 fun probe => 4096 ≤ probe).blockBitmap *
      (smallFs 16384 fun probe => 4096 ≤ probe).secPerBlock = 6 ∧
    (smallFs 16384 fun probe => 4096 ≤ probe).secPerBlock = 2 ∧
    (findFreeBlocks ⟨smallDevice 16384 fun probe => 4096 ≤ probe,
      smallFs 16384 fun probe => 4096 ≤ probe⟩).1 = 8193 ∧
    Access.write 8 1 ∈ (findFreeBlocks ⟨smallDevice 16384 fun probe => 4096 ≤ probe,
      smallFs 16384 fun probe => 4096 ≤ probe⟩).2.device.log :=
  ⟨rfl, by decide +kernel, by decide +kernel, by decide +kernel, by decide +kernel⟩

end Balrog.Ext2Bitmaps
