import Balrog.DirChanges
import Balrog.Ext2Addresses

/-!
# Removing a name

`__ext2_remove` takes a name out of its directory and gives back what the inode held: its blocks,
and the inode itself. The blocks are those of the direct pointers, those in the single indirect
block, and that block; the blocks behind a double or triple indirect pointer stay allocated. A block
is given back by clearing the bit at its number minus one, which is the bit of the block only if the
first block of the bitmap is block 1, as on volumes with blocks of 1024 bytes.

The path has been resolved to the inode of the directory and a name, and `cached` is what the inode
cache has for an inode. Arrays on the stack hold something before they are read into; every call has
its own.
-/

namespace Balrog.Ext2Unlink

open ByteMemory Ext2Volume Ext2Bitmaps Ext2Inodes Ext2Files Ext2Writes Ext2Addresses List
open BitmapCounters (Kind)
open DirEntries (readDirEntry walkUntil walkBegin walkLimit typeAt inodeAt)
open DirChanges (removeDirEntry)

/-- What the arrays on the stack hold in the calls of one removal. -/
structure Arrays where
  read : Bytes
  empty : Bytes
  free : Bytes
  update : Bytes

/-- The loops over `__ext2_free_alloc_block`; what it returns is ignored. -/
def freeBlocks (volume : Volume) : List Nat → Volume
  | [] => volume
  | number :: rest =>
    if number = 0 then freeBlocks volume rest
    else freeBlocks (freeAllocBlock volume number).2 rest

/-- `__ext2_free_file_blocks`: the result, the inode, and the volume. -/
def freeFileBlocks (volume : Volume) (stack : Bytes) (inode : Inode) : Outcome × Inode × Volume :=
  let volume := freeBlocks volume (direct inode)
  let cleared : Inode := ⟨fill inode.bytes 40 48 0⟩
  if inode.sibp = 0 then (.done, cleared, volume)
  else
    match volume.device.read (sectorOf volume.fs inode.sibp) volume.fs.secPerBlock with
    | (none, device) => (.failed, cleared, { volume with device := device })
    | (some data, device) =>
      if 8 < volume.fs.secPerBlock then (.smashed, cleared, { volume with device := device })
      else
        let volume := freeBlocks { volume with device := device }
          (indirect volume.fs stack data)
        (.done, ⟨store 4 cleared.bytes 88 0⟩, (freeAllocBlock volume inode.sibp).2)

/-- The link count, the time of deletion, the size and the number of sectors are set. -/
def unlinked (inode : Inode) (time : Nat) : Inode :=
  ⟨store 4 (store 4 (store 4 (store 2 inode.bytes 26 0) 20 time) 4 0) 28 0⟩

/-- `__ext2_dir_is_empty` -/
def dirIsEmpty (buffer : Bytes) : Bool :=
  !(walkUntil buffer (fun entry => entry.type ≠ 0 ∧ entry.name.takeWhile (· ≠ 0) ≠ [46] ∧
    entry.name.takeWhile (· ≠ 0) ≠ [46, 46]) walkLimit (walkBegin 0)).1

/-- `EXT2_TYPE_REGULAR_FILE` -/
def regularFile : Nat := 1

/-- `EXT2_TYPE_DIRECTORY` -/
def directoryType : Nat := 2

/-- The part of unlinking that refuses a directory with entries in it. -/
def checkEmpty (volume : Volume) (stack heap : Bytes) (inode : Inode) (type : Nat) :
    Outcome × Volume :=
  if type = directoryType then
    let read := readFile volume stack heap inode
    let volume := { volume with device := read.2.device }
    match read.1 with
    | .done => (if dirIsEmpty read.2.buffer then .done else .failed, volume)
    | outcome => (outcome, volume)
  else (.done, volume)

/-- The parent of a directory loses a link, and the group a directory. -/
def leaveParent (volume : Volume) (dirInodeNbr : Nat) (dirInode : Inode) (type : Nat) :
    Inode × Volume :=
  if type = directoryType then
    let dirInode : Inode := ⟨store 2 dirInode.bytes 26 (dirInode.hardLinkCount + (2 ^ 16 - 1))⟩
    let volume := (updateInodeTable volume dirInodeNbr dirInode).2
    let fs : FsData := ⟨store 2 volume.fs.bytes 1040 (volume.fs.numOfDir + (2 ^ 16 - 1))⟩
    (dirInode, (updateSbAndBlkDesc { volume with fs := fs }).2)
  else (dirInode, volume)

/-- What is done once the entry is out of the directory. -/
def releaseAll (volume : Volume) (arrays : Arrays) (cached : Nat → Inode)
    (time dirInodeNbr inodeNbr type : Nat) (directory : Bytes) : Outcome × Volume :=
  match freeFileBlocks volume arrays.free (cached inodeNbr) with
  | (.smashed, _, volume) => (.smashed, volume)
  | (_, inode, volume) =>
    let volume := (updateInodeTable volume inodeNbr (unlinked inode time)).2
    let volume := (freeAllocInode volume inodeNbr).2
    let (dirInode, volume) := leaveParent volume dirInodeNbr (cached dirInodeNbr) type
    match updateDirEntry volume arrays.update dirInode directory with
    | (.smashed, volume) => (.smashed, volume)
    | (_, volume) => (.done, volume)

/-- `__ext2_remove` -/
def remove (volume : Volume) (arrays : Arrays) (heap : Bytes) (cached : Nat → Inode)
    (time dirInodeNbr : Nat) (filename : List UInt8) (type : Nat) : Outcome × Volume :=
  let read := readFile volume arrays.read heap (cached dirInodeNbr)
  let volume := { volume with device := read.2.device }
  if read.1 ≠ .done then (read.1, volume)
  else
    let entries := readDirEntry read.2.buffer filename
    if entries.found = false ∨ typeAt read.2.buffer entries.entry ≠ type then (.failed, volume)
    else
      let inodeNbr := inodeAt read.2.buffer entries.entry
      let checked := checkEmpty volume arrays.empty heap (cached inodeNbr) type
      if checked.1 ≠ .done then checked
      else
        let removed := removeDirEntry read.2.buffer filename
        if removed.1 = 0 then (.failed, checked.2)
        else releaseAll checked.2 arrays cached time dirInodeNbr inodeNbr type removed.2

/-- `ext2_unlink` -/
def ext2Unlink (volume : Volume) (arrays : Arrays) (heap : Bytes) (cached : Nat → Inode)
    (time dirInodeNbr : Nat) (filename : List UInt8) : Outcome × Volume :=
  remove volume arrays heap cached time dirInodeNbr filename regularFile

/-- The inode number that the directory on the volume gives for a name. -/
def named (volume : Volume) (arrays : Arrays) (heap : Bytes) (dirInode : Inode)
    (filename : List UInt8) : Nat :=
  let buffer := (readFile volume arrays.read heap dirInode).2.buffer
  inodeAt buffer (readDirEntry buffer filename).entry

section Format

variable (disk : Bytes) (fs : FsData)

/-- The blocks that can be reached from a pointer, through as many levels of pointer blocks. -/
def Reaches : Nat → Nat → Nat → Prop
  | 0, root, number => number = root
  | level + 1, root, number => number = root ∨
      root ≠ 0 ∧ ∃ index < fs.blockSize / 4, Reaches level (pointerIn disk fs root index) number

/-- The data blocks that direct pointers lead to, and the single indirect block and its blocks. -/
def Near (inode : Inode) (number : Nat) : Prop :=
  number ∈ direct inode ∨ Reaches disk fs 1 inode.sibp number

/-- The blocks of an inode: data blocks and pointer blocks of all levels. -/
def Referenced (inode : Inode) (number : Nat) : Prop :=
  number ≠ 0 ∧ (Near disk fs inode number ∨
    Reaches disk fs 2 inode.dibp number ∨ Reaches disk fs 3 inode.tibp number)

/-- The bytes of a block on the disk. -/
def InBlock (number probe : Nat) : Prop :=
  512 * (number * fs.secPerBlock) ≤ probe ∧
    probe < 512 * (number * fs.secPerBlock) + 512 * fs.secPerBlock

/-- A byte outside the superblock and the sector of the first group descriptor. -/
def Uncounted (probe : Nat) : Prop :=
  (probe < 1024 ∨ 2048 ≤ probe) ∧
    (probe < groupDescriptor fs ∨ groupDescriptor fs + 512 ≤ probe)

/-- A byte that the release of an inode leaves alone. -/
def Untouched (inodeNbr probe : Nat) : Prop :=
  Uncounted fs probe ∧ ¬ InBlock fs fs.inodeBitmap probe ∧
    (probe < takenPlace fs inodeNbr ∨ takenPlace fs inodeNbr + 128 ≤ probe)

end Format

/-- A block is allocated when its bit is set. The first bit belongs to the first block of the
bitmap. -/
def allocated (volume : Volume) (number : Nat) : Bool :=
  bit volume .block (number - volume.fs.superblockId)

/-- A device that fails no access. -/
def Reliable (device : Device) : Prop :=
  ∀ lba count, device.reads lba count = true ∧ device.writes lba count = true

/-- A valid volume of one group on a device that does not fail, and a file whose double and triple
indirect blocks are none of its other blocks. If there is an indirect block that does not fill the
array for it, the rest of the array is zero. -/
structure Releasable (volume : Volume) (arrays : Arrays) (dirInode inode : Inode)
    (inodeNbr : Nat) : Prop where
  accepted : Accepted volume.fs
  reliable : Reliable volume.device
  apart : (inode.dibp ≠ 0 → ¬ Near volume.device.disk volume.fs inode inode.dibp) ∧
    (inode.tibp ≠ 0 → ¬ Near volume.device.disk volume.fs inode inode.tibp)
  padding : inode.sibp ≠ 0 → ∀ index < 1024, volume.fs.blockSize ≤ 4 * index →
    load 4 arrays.free (4 * index) = 0
  blocks : ∀ number, Referenced volume.device.disk volume.fs inode number →
    number ≤ 8 * volume.fs.blockSize ∧ bit volume .block (number - 1) = true
  inGroup : 1 ≤ inodeNbr ∧ inodeNbr ≤ 8 * volume.fs.blockSize
  bitmaps : ∀ kind, (bitmapOf volume.fs kind + 1) * volume.fs.secPerBlock ≤ 2 ^ 32
  bitmap : ∀ probe, InBlock volume.fs volume.fs.blockBitmap probe →
    Untouched volume.fs inodeNbr probe ∧
      Beside volume.fs (pointers volume arrays.update dirInode) probe
  inodeBitmap : ∀ probe, InBlock volume.fs volume.fs.inodeBitmap probe → Uncounted volume.fs probe
  single : inode.sibp ≠ 0 → inode.sibp * volume.fs.secPerBlock < 2 ^ 32 ∧
    ∀ probe, InBlock volume.fs inode.sibp probe →
      Uncounted volume.fs probe ∧ ¬ InBlock volume.fs volume.fs.blockBitmap probe
  directory : ∀ number ∈ pointers volume arrays.update dirInode,
    number * volume.fs.secPerBlock < 2 ^ 32
  directorySingle : dirInode.sibp ≠ 0 → dirInode.sibp ∉ direct dirInode ∧
    ∀ probe, InBlock volume.fs dirInode.sibp probe →
      Untouched volume.fs inodeNbr probe ∧ ¬ InBlock volume.fs volume.fs.blockBitmap probe

variable {position number time start size id inodeNbr : Nat} {before other : FsData}
  {after between volume : Volume} {directory heap : Bytes}

section Releases

/-- Writing the counters back leaves other sectors alone. -/
theorem update_outside (accepted : Accepted volume.fs) {probe : Nat}
    (outside : Uncounted volume.fs probe) :
    (updateSbAndBlkDesc volume).2.device.disk probe = volume.device.disk probe := by
  have first := volume.device.write_outside volume.fs.bytes 2 2
    (show probe < 512 * 2 ∨ 512 * 2 + 512 * 2 ≤ probe by have := outside.1; omega)
  simp only [updateSbAndBlkDesc]
  split
  · refine (Device.write_outside _ _ _ _ ?_).trans first
    rw [accepted.descriptor_sector]
    exact outside.2
  · exact first

/-- Writing the superblock back leaves the faults of the device as they were. -/
theorem update_reads (volume : Volume) :
    (updateSbAndBlkDesc volume).2.device.reads = volume.device.reads ∧
      (updateSbAndBlkDesc volume).2.device.writes = volume.device.writes ∧
      (updateSbAndBlkDesc volume).2.fs = volume.fs := by
  have logged := update_logged volume
  refine ⟨logged.reads, logged.writes, ?_⟩
  simp only [updateSbAndBlkDesc]
  split <;> rfl

/-- Where the byte of a bit stands, without the wrap-around of the sector number. -/
theorem bit_place (inside : position < 8 * (512 * size)) (sectors : (start + 1) * size ≤ 2 ^ 32) :
    512 * ((start * size + position / 8 / 512) % 2 ^ 32) + position / 8 % 512 =
      512 * (start * size) + position / 8 := by
  rw [Nat.succ_mul] at sectors
  rw [Nat.mod_eq_of_lt (by omega)]
  omega

/-- The release of a block or an inode: other bytes than that of the bit and the counters stay, and
the bit is cleared. -/
structure Freed (kind : Kind) (position : Nat) (before after : Volume) : Prop where
  geometry : Geometry before.fs after.fs
  accepted : Accepted after.fs
  reliable : Reliable after.device
  frame : ∀ probe, Uncounted before.fs probe →
    probe ≠ 512 * (bitmapOf before.fs kind * before.fs.secPerBlock) + position / 8 →
      after.device.disk probe = before.device.disk probe
  byte : after.device.disk
      (512 * (bitmapOf before.fs kind * before.fs.secPerBlock) + position / 8) =
    UInt8.ofBitVec ((before.device.disk
      (512 * (bitmapOf before.fs kind * before.fs.secPerBlock) + position / 8)).toBitVec &&&
        (0xff#8 ^^^ (1#8 <<< (position % 8))))

/-- Counting keeps what `ext2_probe` has made sure of. -/
theorem count_accepted {fs : FsData} (accepted : Accepted fs) (kind : Kind) (change : Nat) :
    Accepted (count kind change fs) := by
  obtain ⟨signature, size, sectors⟩ := accepted
  have kept := fun width address => @count_load kind change fs width address
  refine ⟨?_, ?_, ?_⟩
  · exact (kept 2 56 (by decide)).trans signature
  · simp only [FsData.blockSize, FsData.blockSizeHint, kept 4 1056 (by decide),
      kept 4 24 (by decide)]
    exact size
  · simp only [FsData.blockSize, FsData.secPerBlock, kept 4 1056 (by decide),
      kept 4 1060 (by decide)]
    exact sectors

/-- Which bytes hold no counters depends on the geometry only. -/
theorem uncounted_congr {after : FsData} (geometry : Geometry before after) (probe : Nat) :
    Uncounted after probe ↔ Uncounted before probe := by
  simp only [Uncounted, groupDescriptor, geometry.size]

/-- A release clears its bit and changes the counters, and nothing else on the disk. -/
theorem freeAlloc_freed (kind : Kind) (accepted : Accepted volume.fs)
    (reliable : Reliable volume.device) (positive : 1 ≤ id) (small : id < 2 ^ 32)
    (inside : id ≤ 8 * volume.fs.blockSize)
    (sectors : (bitmapOf volume.fs kind + 1) * volume.fs.secPerBlock ≤ 2 ^ 32)
    (apart : ∀ probe, InBlock volume.fs (bitmapOf volume.fs kind) probe →
      Uncounted volume.fs probe) : Freed kind (id - 1) volume (freeAlloc kind volume id).2 := by
  have isPosition : (id + (2 ^ 32 - 1)) % 2 ^ 32 = id - 1 := by omega
  have whole := accepted.whole
  have place := bit_place (show id - 1 < 8 * (512 * volume.fs.secPerBlock) by omega) sectors
  have counted := count_accepted accepted kind 1
  have geometry := count_geometry kind 1 volume.fs
  simp only [freeAlloc, isPosition, Device.read, Device.write, (reliable _ _).1, (reliable _ _).2,
    if_true]
  generalize (bitmapOf volume.fs kind * volume.fs.secPerBlock + (id - 1) / 8 / 512) % 2 ^ 32 = lba
    at *
  generalize isByte : UInt8.ofBitVec _ = byte
  generalize isDevice : (Device.mk _ _ _ _) = device
  have update := update_reads ⟨device, count kind 1 volume.fs⟩
  have outside := fun probe beside =>
    @update_outside ⟨device, count kind 1 volume.fs⟩ counted probe ((uncounted_congr geometry probe).mpr beside)
  have disk : device.disk = splice volume.device.disk (512 * lba) (512 * 1)
      (put (fun offset => volume.device.disk (512 * lba + offset)) ((id - 1) / 8 % 512) byte) := by
    rw [← isDevice]
  refine ⟨?_, ?_, ?_, fun probe beside other => ?_, ?_⟩
  · rw [update.2.2]
    exact geometry
  · rw [update.2.2]
    exact counted
  · rw [Reliable, update.1, update.2.1, ← isDevice]
    exact reliable
  · rw [outside probe beside, disk, splice]
    split
    · next within =>
      rw [put, if_neg (by omega)]
      exact congrArg volume.device.disk (by omega)
    · rfl
  · rw [outside _ (apart _ ⟨by omega, by omega⟩), disk, ← place, splice_inside _ _ _ (by omega), put,
      if_pos rfl, ← isByte]

/-- What the release of blocks needs: a device that does not fail, and a bitmap that is apart from
the counters. -/
structure Usable (volume : Volume) : Prop where
  accepted : Accepted volume.fs
  reliable : Reliable volume.device
  sectors : (volume.fs.blockBitmap + 1) * volume.fs.secPerBlock ≤ 2 ^ 32
  apart : ∀ probe, InBlock volume.fs volume.fs.blockBitmap probe → Uncounted volume.fs probe

/-- The release of some blocks: other bytes than the bitmap and the counters stay, and the bits of
the blocks are cleared. -/
structure Released (numbers : List Nat) (before after : Volume) : Prop where
  geometry : Geometry before.fs after.fs
  usable : Usable after
  frame : ∀ probe, Uncounted before.fs probe →
    ¬ InBlock before.fs before.fs.blockBitmap probe →
      after.device.disk probe = before.device.disk probe
  bits : ∀ position < 8 * before.fs.blockSize, bit after .block position =
    (bit before .block position && decide (position + 1 ∉ numbers))

/-- Which bytes a block has depends on the geometry only. -/
theorem inBlock_congr {after : FsData} (geometry : Geometry before after) (number probe : Nat) :
    InBlock after number probe ↔ InBlock before number probe := by
  simp only [InBlock, geometry.sectors]

/-- A volume of the same geometry stays usable. -/
theorem Usable.keep (usable : Usable volume) (geometry : Geometry volume.fs after.fs)
    (accepted : Accepted after.fs) (reliable : Reliable after.device) : Usable after := by
  refine ⟨accepted, reliable, ?_, fun probe inBlock => ?_⟩
  · rw [geometry.bitmap, geometry.sectors]
    exact usable.sectors
  · rw [geometry.bitmap, inBlock_congr geometry] at inBlock
    exact (uncounted_congr geometry probe).mpr (usable.apart probe inBlock)

/-- The bits of a bitmap lie in its block. -/
theorem bit_inBlock {fs : FsData} (accepted : Accepted fs) (number : Nat)
    (inside : position < 8 * fs.blockSize) :
    InBlock fs number (512 * (number * fs.secPerBlock) + position / 8) := by
  have whole := accepted.whole
  exact ⟨by omega, by omega⟩

/-- Bits that are in the same place of the device and have the same byte. -/
theorem bit_congr {before : Volume} (geometry : Geometry before.fs after.fs)
    (same : after.device.disk (512 * (before.fs.blockBitmap * before.fs.secPerBlock) +
        position / 8) =
      before.device.disk (512 * (before.fs.blockBitmap * before.fs.secPerBlock) + position / 8)) :
    bit after .block position = bit before .block position := by
  simp only [bit, bitAt, bitmapOf, geometry.bitmap, geometry.sectors, same]

/-- Giving back a block releases it and no other. -/
theorem freeAllocBlock_released (usable : Usable volume) (nonzero : number ≠ 0)
    (small : number < 2 ^ 32) (inside : number ≤ 8 * volume.fs.blockSize) :
    Released [number] volume (freeAllocBlock volume number).2 := by
  have freed := freeAlloc_freed .block usable.accepted usable.reliable
    (Nat.one_le_iff_ne_zero.mpr nonzero) small inside usable.sectors usable.apart
  have whole := usable.accepted.whole
  rw [freeAllocBlock]
  generalize (freeAlloc .block volume number).2 = after at *
  obtain ⟨geometry, accepted, reliable, frame, byte⟩ := freed
  refine ⟨geometry, usable.keep geometry accepted reliable, fun probe beside outside => ?_,
    fun position below => ?_⟩
  · refine frame probe beside fun isByte => outside (isByte ▸ ?_)
    exact bit_inBlock usable.accepted _ (by omega)
  · by_cases sameByte : position / 8 = (number - 1) / 8
    · have bits := BlockBitmap.mask_bit (volume.device.disk
        (512 * (volume.fs.blockBitmap * volume.fs.secPerBlock) + position / 8)).toBitVec
        (Nat.mod_lt (number - 1) (by decide)) (Nat.mod_lt position (by decide))
      simp only [bit, bitAt, bitmapOf, geometry.bitmap, geometry.sectors] at byte ⊢
      rw [sameByte, byte, ← sameByte]
      refine bits.trans (congrArg _ (decide_eq_decide.mpr ?_))
      rw [mem_singleton]
      omega
    · have other : position + 1 ∉ [number] := by
        rw [mem_singleton]
        omega
      rw [decide_eq_true other, Bool.and_true]
      refine bit_congr geometry (frame _ (usable.apart _ ?_) fun same => ?_)
      · exact bit_inBlock usable.accepted _ below
      · simp only [bitmapOf] at same
        omega

theorem Released.refl (usable : Usable volume) : Released [] volume volume :=
  ⟨.refl _, usable, fun _ _ _ => rfl, fun _ _ => by simp⟩

/-- Two releases after each other release the blocks of both. -/
theorem Released.trans {before : Volume} {first second : List Nat}
    (one : Released first before between) (two : Released second between after) :
    Released (first ++ second) before after := by
  refine ⟨one.geometry.trans two.geometry, two.usable, fun probe beside outside => ?_,
    fun position below => ?_⟩
  · refine (two.frame probe ((uncounted_congr one.geometry probe).mpr beside) ?_).trans
      (one.frame probe beside outside)
    rwa [one.geometry.bitmap, inBlock_congr one.geometry]
  · rw [two.bits position (by rwa [one.geometry.size]), one.bits position below, Bool.and_assoc,
      ← Bool.decide_and]
    refine congrArg _ (decide_eq_decide.mpr ?_)
    rw [mem_append, not_or]

/-- Block numbers of 32 bits that the bitmap of one block covers. -/
def Fits (fs : FsData) (numbers : List Nat) : Prop :=
  ∀ number ∈ numbers, number < 2 ^ 32 ∧ number ≤ 8 * fs.blockSize

/-- The loop over some blocks; the induction is on those that are left. -/
theorem freeBlocks_released {numbers : List Nat} (usable : Usable volume)
    (fits : Fits volume.fs numbers) :
    Released (numbers.filter (· ≠ 0)) volume (freeBlocks volume numbers) := by
  induction numbers generalizing volume with
  | nil => exact .refl usable
  | cons number rest ih =>
    obtain ⟨here, later⟩ := forall_mem_cons.mp fits
    rw [freeBlocks]
    by_cases isZero : number = 0
    · have same : (number :: rest).filter (· ≠ 0) = rest.filter (· ≠ 0) := by simp [isZero]
      rw [if_pos isZero, same]
      exact ih usable later
    · have more : (number :: rest).filter (· ≠ 0) = [number] ++ rest.filter (· ≠ 0) := by
        simp [isZero]
      have first := freeAllocBlock_released usable isZero here.1 here.2
      rw [if_neg isZero, more]
      refine first.trans (ih first.usable fun other member => ?_)
      rw [first.geometry.size]
      exact later other member

/-- The pointers that `__ext2_free_file_blocks` goes through. -/
def givenBack (volume : Volume) (stack : Bytes) (inode : Inode) : List Nat :=
  direct inode ++ if inode.sibp = 0 then [] else
    (indirect volume.fs stack fun offset =>
      volume.device.disk (512 * (inode.sibp * volume.fs.secPerBlock) + offset)) ++ [inode.sibp]

/-- The indirect block is read with the sectors of a block only. -/
theorem indirect_sectors {fs : FsData} (stack data : Bytes)
    (same : other.secPerBlock = fs.secPerBlock) :
    indirect other stack data = indirect fs stack data := by
  rw [indirect, indirect, same]

variable {stack : Bytes} {inode : Inode}

theorem givenBack_lt (member : number ∈ givenBack volume stack inode) : number < 2 ^ 32 := by
  rcases mem_append.mp member with isDirect | member
  · obtain ⟨index, _, rfl⟩ := mem_map.mp isDirect
    exact load_lt 4 _ _
  · split at member
    · cases member
    · rcases mem_append.mp member with isWord | isSingle
      · obtain ⟨index, _, rfl⟩ := mem_map.mp isWord
        exact load_lt 4 _ _
      · rw [mem_singleton.mp isSingle]
        exact load_lt 4 _ _

/-- The blocks of a file are released, unless the array is overrun. The single indirect block is
apart from the bitmap and the counters, so its pointers are still there after the direct blocks have
been released. -/
theorem freeFileBlocks_released (usable : Usable volume)
    (fits : Fits volume.fs (givenBack volume stack inode))
    (single : inode.sibp ≠ 0 → inode.sibp * volume.fs.secPerBlock < 2 ^ 32 ∧
      ∀ probe, InBlock volume.fs inode.sibp probe →
        Uncounted volume.fs probe ∧ ¬ InBlock volume.fs volume.fs.blockBitmap probe)
    (kept : (freeFileBlocks volume stack inode).1 ≠ .smashed) :
    Released ((givenBack volume stack inode).filter (· ≠ 0)) volume
      (freeFileBlocks volume stack inode).2.2 := by
  have first := freeBlocks_released usable fun number member =>
    fits number (mem_append_left _ member)
  rw [freeFileBlocks] at kept ⊢
  by_cases isZero : inode.sibp = 0
  · simp only [isZero, if_true, givenBack, append_nil]
    exact first
  · obtain ⟨small, apart⟩ := single isZero
    simp only [isZero, if_false] at kept ⊢
    generalize freeBlocks volume (direct inode) = between at *
    obtain ⟨geometry, freed, frame, bits⟩ := first
    have isSingle : sectorOf between.fs inode.sibp = inode.sibp * volume.fs.secPerBlock := by
      rw [sectorOf, geometry.sectors, Nat.mod_eq_of_lt small]
    have numbers : indirect between.fs stack (fun offset =>
          between.device.disk (512 * sectorOf between.fs inode.sibp + offset)) =
        indirect volume.fs stack fun offset =>
          volume.device.disk (512 * (inode.sibp * volume.fs.secPerBlock) + offset) := by
      rw [isSingle, indirect_sectors stack _ geometry.sectors]
      refine indirect_congr volume.fs stack fun offset inside => ?_
      obtain ⟨beside, outside⟩ := apart _ ⟨Nat.le_add_right _ offset, by omega⟩
      exact frame _ beside outside
    simp only [Device.read, (freed.reliable _ _).1, if_true, numbers] at kept ⊢
    simp only [givenBack, if_neg isZero] at fits ⊢
    clear numbers
    generalize indirect volume.fs stack _ = words at *
    by_cases large : 8 < between.fs.secPerBlock
    · simp [large] at kept
    · simp only [large, if_false]
      have read : Released [] between { between with device :=
          (between.device.read (sectorOf between.fs inode.sibp) between.fs.secPerBlock).2 } :=
        ⟨.refl _, { freed with }, fun _ _ _ => rfl,
          fun _ _ => by simp [bit, Device.read]⟩
      have second := freeBlocks_released read.usable fun number member => by
        have fit := fits number (mem_append_right _ (mem_append_left _ member))
        rw [← geometry.size] at fit
        exact fit
      have last := freeAllocBlock_released second.usable isZero
        (fits inode.sibp (by simp)).1 (by
          rw [second.geometry.size]
          have fit := (fits inode.sibp (by simp)).2
          rw [← geometry.size] at fit
          exact fit)
      have whole := (Released.trans ⟨geometry, freed, frame, bits⟩ read).trans (second.trans last)
      have list : (direct inode ++ (words ++ [inode.sibp])).filter (· ≠ 0) =
          (direct inode).filter (· ≠ 0) ++ [] ++ (words.filter (· ≠ 0) ++ [inode.sibp]) := by
        simp [isZero]
      rw [list]
      exact whole

/-- An indirect block that does not fit into the array overruns it. -/
theorem freeFileBlocks_small (usable : Usable volume) (fits : Fits volume.fs (direct inode))
    (single : inode.sibp ≠ 0) (kept : (freeFileBlocks volume stack inode).1 ≠ .smashed) :
    volume.fs.secPerBlock ≤ 8 := by
  have first := freeBlocks_released usable fits
  rw [freeFileBlocks] at kept
  generalize freeBlocks volume (direct inode) = between at *
  refine Nat.le_of_not_lt fun large => ?_
  rw [← first.geometry.sectors] at large
  simp [single, Device.read, (first.usable.reliable _ _).1, large] at kept

/-- A word of the array: of the block, or what was in the array. -/
theorem word_eq {fs : FsData} (stack disk : Bytes) (number index : Nat) :
    load 4 (splice stack 0 (512 * fs.secPerBlock) fun offset =>
        disk (512 * (number * fs.secPerBlock) + offset)) (4 * index) =
      if 4 * index < 512 * fs.secPerBlock then
        load 4 disk (512 * (number * fs.secPerBlock) + 4 * index)
      else load 4 stack (4 * index) := by
  split
  · rw [← load_window]
    refine load_congr _ _ _ _ fun probe lower upper => ?_
    have there := splice_inside stack 0 (fun offset =>
      disk (512 * (number * fs.secPerBlock) + offset)) (show probe < 512 * fs.secPerBlock by omega)
    rwa [Nat.zero_add] at there
  · exact load_congr _ _ _ _ fun probe lower upper => splice_outside (.inr (by omega))

/-- What is given back are direct blocks, the single indirect block and its blocks. -/
theorem givenBack_near (accepted : Accepted volume.fs)
    (padding : inode.sibp ≠ 0 → ∀ index < 1024, volume.fs.blockSize ≤ 4 * index →
      load 4 stack (4 * index) = 0)
    (nonzero : number ≠ 0) (member : number ∈ givenBack volume stack inode) :
    Near volume.device.disk volume.fs inode number := by
  have whole := accepted.whole
  rcases mem_append.mp member with isDirect | member
  · exact .inl isDirect
  · refine .inr ?_
    split at member
    · cases member
    · next single =>
      rcases mem_append.mp member with isWord | isSingle
      · obtain ⟨index, below, isNumber⟩ := mem_map.mp isWord
        rw [word_eq] at isNumber
        split at isNumber
        · next inside =>
          refine .inr ⟨single, index, by omega, ?_⟩
          rw [Reaches, pointerIn, if_neg single, ← isNumber, whole, Nat.mul_left_comm]
        · next outside =>
          have zero := padding single index (mem_range.mp below) (by omega)
          exact absurd (isNumber.symm.trans zero) nonzero
      · exact .inl (mem_singleton.mp isSingle)

/-- The blocks of an inode without double and triple indirect blocks are given back. -/
theorem referenced_givenBack (accepted : Accepted volume.fs)
    (levels : inode.dibp = 0 ∧ inode.tibp = 0)
    (small : inode.sibp ≠ 0 → volume.fs.secPerBlock ≤ 8) {number : Nat}
    (referenced : Referenced volume.device.disk volume.fs inode number) :
    number ∈ givenBack volume stack inode := by
  have whole := accepted.whole
  obtain ⟨nonzero, reached⟩ := referenced
  rcases reached with (isDirect | single) | double | triple
  · exact mem_append_left _ isDirect
  · refine mem_append_right _ ?_
    rcases single with same | ⟨present, index, below, isWord⟩
    · rw [if_neg (same ▸ nonzero)]
      exact mem_append_right _ (mem_singleton.mpr same)
    · rw [if_neg present]
      refine mem_append_left _ (mem_map.mpr
        ⟨index, mem_range.mpr (by have := small present; omega), ?_⟩)
      rw [Reaches, pointerIn, if_neg present] at isWord
      rw [word_eq, if_pos (by omega), isWord, whole, Nat.mul_left_comm]
  · rcases double with same | ⟨present, _⟩
    · exact absurd (same.trans levels.1) nonzero
    · exact absurd levels.1 present
  · rcases triple with same | ⟨present, _⟩
    · exact absurd (same.trans levels.2) nonzero
    · exact absurd levels.2 present

/-- Writing an inode changes its record only. -/
theorem updateInodeTable_outside (volume : Volume) (inodeNbr : Nat) (inode : Inode) {probe : Nat}
    (outside : probe < takenPlace volume.fs inodeNbr ∨
      takenPlace volume.fs inodeNbr + 128 ≤ probe) :
    (updateInodeTable volume inodeNbr inode).2.device.disk probe = volume.device.disk probe := by
  obtain ⟨_, same | ⟨_, changed⟩⟩ := updateInodeTable_cases volume inodeNbr inode
  · rw [same]
  · simp only [changed, splice_outside outside]

/-- The pointers of an inode stay if its single indirect block does. -/
theorem pointers_congr (sectors : after.fs.secPerBlock = volume.fs.secPerBlock)
    (small : inode.sibp * volume.fs.secPerBlock < 2 ^ 32)
    (same : inode.sibp ≠ 0 → ∀ probe, InBlock volume.fs inode.sibp probe →
      after.device.disk probe = volume.device.disk probe) :
    pointers after stack inode = pointers volume stack inode := by
  have isSingle : ∀ fs : FsData, fs.secPerBlock = volume.fs.secPerBlock →
      sectorOf fs inode.sibp = inode.sibp * volume.fs.secPerBlock := by
    intro fs sameSectors
    rw [sectorOf, sameSectors, Nat.mod_eq_of_lt small]
  rw [pointers, pointers, visited, visited, isSingle after.fs sectors, isSingle volume.fs rfl]
  split
  · rfl
  · next present =>
    rw [indirect_sectors stack _ sectors]
    have words := indirect_congr volume.fs stack fun offset inside =>
      same present _ ⟨Nat.le_add_right _ offset, by omega⟩
    rw [words]

/-- The inode is released after its blocks. This keeps the bits of blocks, and every byte that has
nothing to do with the inode. -/
theorem inode_released (inode : Inode) (geometry : Geometry volume.fs between.fs)
    (usable : Usable between) (small : inodeNbr < 2 ^ 32) (positive : 1 ≤ inodeNbr)
    (inGroup : inodeNbr ≤ 8 * volume.fs.blockSize)
    (sectors : (volume.fs.inodeBitmap + 1) * volume.fs.secPerBlock ≤ 2 ^ 32)
    (apart : ∀ probe, InBlock volume.fs volume.fs.inodeBitmap probe → Uncounted volume.fs probe) :
    Geometry volume.fs
      (freeAllocInode (updateInodeTable between inodeNbr inode).2 inodeNbr).2.fs ∧
    ∀ probe, Untouched volume.fs inodeNbr probe →
      (freeAllocInode (updateInodeTable between inodeNbr inode).2 inodeNbr).2.device.disk probe =
        between.device.disk probe := by
  obtain ⟨logged, sameFs⟩ := updateInodeTable_logged between inode inodeNbr
  have record := @updateInodeTable_outside between inodeNbr inode
  rw [takenPlace_congr geometry] at record
  have reliable : Reliable (updateInodeTable between inodeNbr inode).2.device := by
    rw [Reliable, logged.reads, logged.writes]
    exact usable.reliable
  generalize (updateInodeTable between inodeNbr inode).2 = next at *
  rw [← sameFs] at geometry
  have accepted : Accepted next.fs := sameFs ▸ usable.accepted
  have freed := freeAlloc_freed .inode accepted reliable positive small
    (by rw [geometry.size]; exact inGroup)
    (by simp only [bitmapOf, geometry.inodes, geometry.sectors]; exact sectors)
    (fun probe inBlock => (uncounted_congr geometry probe).mpr (apart probe (by
      simp only [bitmapOf, geometry.inodes] at inBlock
      exact (inBlock_congr geometry _ probe).mp inBlock)))
  refine ⟨geometry.trans freed.geometry, fun probe untouched => ?_⟩
  obtain ⟨beside, outside, elsewhere⟩ := untouched
  refine (freed.frame probe ((uncounted_congr geometry probe).mpr beside) fun isByte => ?_).trans
    (record elsewhere)
  refine outside (isByte ▸ ?_)
  simp only [bitmapOf, geometry.inodes, geometry.sectors]
  have accepted' : volume.fs.blockSize = 512 * volume.fs.secPerBlock := by
    rw [← geometry.size, ← geometry.sectors]
    exact accepted.whole
  exact ⟨by omega, by omega⟩

end Releases

section Unlinks

variable {arrays : Arrays} {cached : Nat → Inode} {dirInodeNbr : Nat}

/-- The blocks of a file that can be released fit the bitmap. -/
theorem Releasable.fits {directory file : Inode}
    (releasable : Releasable volume arrays directory file number) :
    Fits volume.fs (givenBack volume arrays.free file) := by
  intro block member
  refine ⟨givenBack_lt member, ?_⟩
  by_cases isZero : block = 0
  · omega
  · exact (releasable.blocks block ⟨isZero, .inl
      (givenBack_near releasable.accepted releasable.padding isZero member)⟩).1

/-- A removal that succeeds did not run past the buffer of `ext2_free_file_blocks`. -/
theorem releaseAll_kept
    (success : (releaseAll volume arrays cached time dirInodeNbr inodeNbr regularFile
      directory).1 = .done) :
    (freeFileBlocks volume arrays.free (cached inodeNbr)).1 ≠ .smashed := by
  intro smashed
  rw [releaseAll] at success
  generalize freeFileBlocks volume arrays.free (cached inodeNbr) = result at *
  obtain ⟨outcome, rest⟩ := result
  obtain rfl : outcome = .smashed := smashed
  simp at success

/-- What follows `ext2_free_file_blocks`: the inode is written and given back, and the directory is
written. -/
theorem releaseAll_last (time : Nat) (directory : Bytes)
    (kept : (freeFileBlocks volume arrays.free (cached inodeNbr)).1 ≠ .smashed) :
    ∃ inode, (releaseAll volume arrays cached time dirInodeNbr inodeNbr regularFile directory).2 =
      (updateDirEntry (freeAllocInode (updateInodeTable
        (freeFileBlocks volume arrays.free (cached inodeNbr)).2.2 inodeNbr inode).2 inodeNbr).2
          arrays.update (cached dirInodeNbr) directory).2 := by
  rw [releaseAll]
  generalize freeFileBlocks volume arrays.free (cached inodeNbr) = result at *
  obtain ⟨outcome, inode, between⟩ := result
  refine ⟨unlinked inode time, ?_⟩
  cases outcome with
  | smashed => exact absurd rfl kept
  | done =>
    simp only [leaveParent, regularFile, directoryType]
    split <;> simp_all
  | failed =>
    simp only [leaveParent, regularFile, directoryType]
    split <;> simp_all

/-- Which bits are set once everything has been given back. -/
theorem releaseAll_bits
    (releasable : Releasable volume arrays (cached dirInodeNbr) (cached inodeNbr) inodeNbr)
    (small : inodeNbr < 2 ^ 32)
    (success : (releaseAll volume arrays cached time dirInodeNbr inodeNbr regularFile
      directory).1 = .done) :
    (releaseAll volume arrays cached time dirInodeNbr inodeNbr regularFile
      directory).2.fs.superblockId = volume.fs.superblockId ∧
    ((cached inodeNbr).sibp ≠ 0 → volume.fs.secPerBlock ≤ 8) ∧
    ∀ position < 8 * volume.fs.blockSize,
      bit (releaseAll volume arrays cached time dirInodeNbr inodeNbr regularFile directory).2
          .block position =
        (bit volume .block position && decide (position + 1 ∉
          (givenBack volume arrays.free (cached inodeNbr)).filter (· ≠ 0))) := by
  have fits := releasable.fits
  obtain ⟨accepted, reliable, isApart, padding, blocks, inGroup, bitmaps, bitmap, inodeBitmap, single,
    directory', directorySingle⟩ := releasable
  have usable : Usable volume := ⟨accepted, reliable, bitmaps .block, fun probe inBlock =>
    (bitmap probe inBlock).1.1⟩
  have kept := releaseAll_kept success
  have released := freeFileBlocks_released usable fits single kept
  have eight : (cached inodeNbr).sibp ≠ 0 → volume.fs.secPerBlock ≤ 8 := fun present =>
    freeFileBlocks_small usable (fun number member => fits number (mem_append_left _ member))
      present kept
  obtain ⟨inode, isLast⟩ := releaseAll_last time directory kept
  rw [isLast]
  generalize (freeFileBlocks volume arrays.free (cached inodeNbr)).2.2 = between at *
  obtain ⟨geometry, frame⟩ := inode_released inode released.geometry released.usable small
    inGroup.1 inGroup.2 (bitmaps .inode) inodeBitmap
  generalize (freeAllocInode (updateInodeTable between inodeNbr inode).2 inodeNbr).2 = next at *
  have samePointers : pointers next arrays.update (cached dirInodeNbr) =
      pointers volume arrays.update (cached dirInodeNbr) := by
    refine pointers_congr geometry.sectors (directory' _ mem_cons_self) fun present probe
      inBlock => ?_
    obtain ⟨untouched, outside⟩ := (directorySingle present).2 probe inBlock
    exact (frame probe untouched).trans (released.frame probe untouched.1 outside)
  obtain ⟨_, _, beside⟩ := @updateDirEntry_exact next arrays.update (cached dirInodeNbr) directory
    (by rw [samePointers, geometry.sectors]; exact directory')
    (fun member => Decidable.byContradiction fun present => (directorySingle present).1 member)
  rw [samePointers] at beside
  have sameFs := updateDirEntry_fs next arrays.update (cached dirInodeNbr) directory
  generalize (updateDirEntry next arrays.update (cached dirInodeNbr) directory).2 = last at *
  refine ⟨by rw [sameFs, geometry.first], eight, fun position below => ?_⟩
  have inBlock := bit_inBlock accepted volume.fs.blockBitmap below
  obtain ⟨untouched, outside⟩ := bitmap _ inBlock
  have same := (beside _ (by
    simp only [Beside, geometry.sectors]
    exact outside)).trans (frame _ untouched)
  rw [← released.bits position below]
  simp only [bit, bitAt, bitmapOf, sameFs, geometry.bitmap, geometry.sectors,
    released.geometry.bitmap, released.geometry.sectors, same]

/-- Reading does not change whether a file can be released. -/
theorem Releasable.read {dirInode inode : Inode} {device : Device}
    (releasable : Releasable volume arrays dirInode inode inodeNbr)
    (only : OnlyRead volume.device device) :
    Releasable { volume with device := device } arrays dirInode inode inodeNbr := by
  obtain ⟨accepted, reliable, isApart, padding, blocks, inGroup, bitmaps, bitmap, inodeBitmap, single,
    directory, directorySingle⟩ := releasable
  have disk := only.disk
  have samePointers : pointers { volume with device := device } arrays.update dirInode =
      pointers volume arrays.update dirInode := by
    rw [pointers, pointers, visited, visited, disk]
  refine ⟨accepted, ?_, ?_, padding, ?_, inGroup, bitmaps, ?_, inodeBitmap, single, ?_,
    directorySingle⟩
  · rw [Reliable, only.reads, only.writes]
    exact reliable
  · simp only [disk]
    exact isApart
  · simp only [bit, bitAt, disk]
    exact blocks
  · rw [samePointers]
    exact bitmap
  · rw [samePointers]
    exact directory

/-- A removal of a file that succeeds has come to the release. -/
theorem unlink_released {filename : List UInt8}
    (success : (ext2Unlink volume arrays heap cached time dirInodeNbr filename).1 = .done) :
    ∃ directory, ext2Unlink volume arrays heap cached time dirInodeNbr filename =
      releaseAll { volume with
          device := (readFile volume arrays.read heap (cached dirInodeNbr)).2.device }
        arrays cached time dirInodeNbr
        (named volume arrays heap (cached dirInodeNbr) filename) regularFile directory := by
  simp only [ext2Unlink, remove, named] at success ⊢
  generalize readFile volume arrays.read heap (cached dirInodeNbr) = read at *
  split at success
  · next failed => exact absurd success failed
  · next isRead =>
    rw [if_neg isRead]
    split at success
    · cases success
    · next isEntry =>
      have checked : ∀ volume inode,
          checkEmpty volume arrays.empty heap inode regularFile = (.done, volume) := fun _ _ => rfl
      simp only [checked, ne_eq, not_true_eq_false, if_false] at success ⊢
      rw [if_neg isEntry]
      split at success
      · cases success
      · next isRemoved =>
        rw [if_neg isRemoved]
        exact ⟨_, rfl⟩

end Unlinks

/-- Exactly the given blocks have changed from allocated to free. -/
def Frees (before after : Nat → Bool) (given : Nat → Prop) (number : Nat) : Prop :=
  (given number → before number = true ∧ after number = false) ∧
    (¬ given number → after number = before number)

/-- Exactly the given blocks of the group have changed from allocated to free. -/
def FreesAll (fs : FsData) (before after : Nat → Bool) (given : Nat → Prop) : Prop :=
  ∀ number, 1 ≤ number → number ≤ 8 * fs.blockSize → Frees before after given number

/-- If the bits that are cleared are those of what is given back, they are those of the blocks of the
inode exactly if it has no double and no triple indirect block. -/
theorem freesAll_iff {dirInode inode : Inode} {after : Nat → Bool}
    (releasable : Releasable volume arrays dirInode inode inodeNbr)
    (small : inode.sibp ≠ 0 → volume.fs.secPerBlock ≤ 8)
    (cleared : ∀ number, 1 ≤ number → number ≤ 8 * volume.fs.blockSize → after number =
      (bit volume .block (number - 1) &&
        decide (number ∉ (givenBack volume arrays.free inode).filter (· ≠ 0)))) :
    FreesAll volume.fs (fun number => bit volume .block (number - 1)) after
        (Referenced volume.device.disk volume.fs inode) ↔
      inode.dibp = 0 ∧ inode.tibp = 0 := by
  have kept {number : Nat} (nonzero : number ≠ 0)
      (far : ¬ Near volume.device.disk volume.fs inode number) :
      number ∉ (givenBack volume arrays.free inode).filter (· ≠ 0) := fun member =>
    far (givenBack_near releasable.accepted releasable.padding nonzero (mem_of_mem_filter member))
  constructor
  · intro frees
    -- a block that is referenced and not given back stays allocated
    have stays {number : Nat} (nonzero : number ≠ 0)
        (far : ¬ Near volume.device.disk volume.fs inode number)
        (referenced : Referenced volume.device.disk volume.fs inode number) : False := by
      obtain ⟨inGroup, isSet⟩ := releasable.blocks number referenced
      have positive : 1 ≤ number := Nat.one_le_iff_ne_zero.mpr nonzero
      have free := ((frees number positive inGroup).1 referenced).2
      rw [cleared number positive inGroup, isSet, decide_eq_true (kept nonzero far)] at free
      cases free
    constructor
    · by_contra present
      exact stays present (releasable.apart.1 present) ⟨present, .inr (.inl (.inl rfl))⟩
    · by_contra present
      exact stays present (releasable.apart.2 present) ⟨present, .inr (.inr (.inl rfl))⟩
  · intro levels number positive inGroup
    have isAfter := cleared number positive inGroup
    constructor
    · intro referenced
      have member := @referenced_givenBack volume arrays.free inode releasable.accepted levels small
        number referenced
      refine ⟨(releasable.blocks number referenced).2, ?_⟩
      simp [isAfter, member, Nat.ne_of_gt positive]
    · intro other
      have nonzero : number ≠ 0 := Nat.ne_of_gt positive
      have absent := kept nonzero fun near => other ⟨nonzero, .inl near⟩
      exact isAfter.trans (by rw [decide_eq_true absent, Bool.and_true])

/-- A volume of 64 blocks of 1024 bytes, all of them allocated: the block bitmap is block 3, the inode
bitmap block 4, the inode table block 5, and the directory in block 10 has a file with inode 12. -/
def fileDisk : Bytes := fun probe =>
  if 3072 ≤ probe ∧ probe < 4096 then 0xff
  else copy (store 4 (store 4 (store 4 (store 4 (store 2 (store 4 (fun _ => 0) 1028 64)
    1080 ext2Signature) 1044 1) 2048 3) 2052 4) 2056 5) 10240
    [2, 0, 0, 0, 12, 0, 1, 2, 46, 0, 0, 0, 12, 0, 0, 0, 244, 3, 1, 1, 102] probe

/-- The volume after `ext2_probe`. -/
def fileVolume : Volume where
  device := { disk := fileDisk, reads := fun _ _ => true, writes := fun _ _ => true, log := [] }
  fs := fsDataOf (fun _ => 0) (fun offset => fileDisk (1024 + offset))
    fun offset => fileDisk (2048 + offset)

/-- The directory has block 10, and the file block 20 and a double indirect block. -/
def fileInodes (double inodeNbr : Nat) : Inode :=
  if inodeNbr = 2 then ⟨store 4 (store 4 (fun _ => 0) 4 1024) 40 10⟩
  else ⟨store 4 (store 4 (fun _ => 0) 40 20) 92 double⟩

/-- Local arrays that happen to hold zeros. -/
def zeroArrays : Arrays := ⟨fun _ => 0, fun _ => 0, fun _ => 0, fun _ => 0⟩

end Balrog.Ext2Unlink
