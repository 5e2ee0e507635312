import Balrog.Ext2Bitmaps
import Balrog.Ext2Files

/-!
# Writing directories and files

`__ext2_update_dir_entry` writes a directory back block by block. `__ext2_update_file` writes the
blocks of a file that have changed. It also gives blocks to the places of the file that have none,
so it searches the bitmap, counts, and writes the inode. Its array for the single indirect block has
1024 pointers and starts empty.

What an operation does to the device is told by the accesses it adds. If the numbers of sectors do
not leave 32 bits, the loops over pointers access the blocks that the pointers name.
-/

namespace Balrog.Ext2Writes

open ByteMemory Ext2Volume Ext2Bitmaps Ext2Inodes Ext2Files List

/-- The loops of `__ext2_update_dir_entry` over pointers: whether all blocks were written, the place
in the directory, and the device. -/
def writeDir (fs : FsData) (dir : Bytes) : List Nat → Nat → Device → Bool × Nat × Device
  | [], position, device => (true, position, device)
  | number :: rest, position, device =>
    if number = 0 then writeDir fs dir rest position device
    else
      match device.write (fun offset => dir (position + offset)) (sectorOf fs number)
          fs.secPerBlock with
      | (false, device) => (false, position, device)
      | (true, device) => writeDir fs dir rest (position + 512 * fs.secPerBlock) device

/-- `__ext2_update_dir_entry` -/
def updateDirEntry (volume : Volume) (stack : Bytes) (dirInode : Inode) (dir : Bytes) :
    Outcome × Volume :=
  let first := writeDir volume.fs dir (direct dirInode) 0 volume.device
  if first.1 = false then (.failed, { volume with device := first.2.2 })
  else if dirInode.sibp = 0 then (.done, { volume with device := first.2.2 })
  else
    match first.2.2.read (sectorOf volume.fs dirInode.sibp) volume.fs.secPerBlock with
    | (none, device) => (.failed, { volume with device := device })
    | (some data, device) =>
      if 8 < volume.fs.secPerBlock then (.smashed, { volume with device := device })
      else
        let second := writeDir volume.fs dir (indirect volume.fs stack data) first.2.1 device
        (if second.1 then .done else .failed, { volume with device := second.2.2 })

/-- Writing a directory back is a walk over its blocks. -/
theorem updateDirEntry_walk (volume : Volume) (stack : Bytes) (inode : Inode) (dir : Bytes) :
    ∃ outcome last, updateDirEntry volume stack inode dir =
        (outcome, { volume with device := last.2 }) ∧
      Walk volume stack inode Prod.snd (fun state device => (state.1, device))
        (fun numbers state => writeDir volume.fs dir numbers state.1 state.2) (0, volume.device)
        outcome last := by
  rw [updateDirEntry]
  generalize ran : writeDir volume.fs dir (direct inode) 0 volume.device = first
  obtain ⟨written, first⟩ := first
  cases written with
  | false => exact ⟨_, first, rfl, .cut ran⟩
  | true =>
    simp only [Bool.true_eq_false, if_false]
    by_cases single : inode.sibp = 0
    · simp only [if_pos single]
      exact ⟨_, first, rfl, .short ran single⟩
    · simp only [if_neg single, Device.read]
      by_cases readable :
          first.2.reads (sectorOf volume.fs inode.sibp) volume.fs.secPerBlock = true
      · simp only [if_pos readable]
        split
        · exact ⟨_, _, rfl, .stopped ran single (.inl rfl)⟩
        · generalize again : writeDir volume.fs dir (indirect volume.fs stack _) _ _ = second
          exact ⟨_, second.2, rfl, .whole ran single readable again rfl⟩
      · simp only [if_neg readable]
        exact ⟨_, _, rfl, .stopped ran single (.inr ⟨rfl, readable⟩)⟩

/-- Directories are written without counting. -/
@[simp] theorem updateDirEntry_fs (volume : Volume) (stack : Bytes) (dirInode : Inode)
    (dir : Bytes) : (updateDirEntry volume stack dirInode dir).2.fs = volume.fs := by
  obtain ⟨_, _, result, _⟩ := updateDirEntry_walk volume stack dirInode dir
  rw [result]

/-- The volume, the inode, and the array for the single indirect block. -/
structure Filling where
  volume : Volume
  inode : Inode
  buf : Bytes

/-- The inode with a size that reaches to the end of what is written. -/
def grown (inode : Inode) (offset len : Nat) : Inode :=
  if inode.size < (offset + len) % 2 ^ 64 then ⟨store 4 inode.bytes 4 ((offset + len) % 2 ^ 64)⟩
  else inode

/-- `needed` -/
def needed (inode : Inode) : Nat := min ((inode.size + 4095) % 2 ^ 32 / 4096) 1036

/-- The single indirect block: a new one, none, or what the device has. -/
def loadIndirect (volume : Volume) (inode : Inode) : Outcome × Filling :=
  if 12 < needed inode ∧ inode.sibp = 0 then
    let (id, volume) := findHigherHalfFreeBlocks volume
    (.done, ⟨volume, ⟨store 4 inode.bytes 88 id⟩, fun _ => 0⟩)
  else if inode.sibp = 0 then (.done, ⟨volume, inode, fun _ => 0⟩)
  else
    match volume.device.read (sectorOf volume.fs inode.sibp) volume.fs.secPerBlock with
    | (none, device) => (.failed, ⟨{ volume with device := device }, inode, fun _ => 0⟩)
    | (some data, device) =>
      if 8 < volume.fs.secPerBlock then
        (.smashed, ⟨{ volume with device := device }, inode, fun _ => 0⟩)
      else
        (.done, ⟨{ volume with device := device }, inode,
          splice (fun _ => 0) 0 (512 * volume.fs.secPerBlock) data⟩)

/-- The body of the loop that gives blocks to the places of the file. -/
def fillOne (filling : Filling) (index : Nat) : Filling :=
  if index < 12 then
    if filling.inode.dbp index = 0 then
      let (id, volume) := findFreeBlocks filling.volume
      { filling with volume := volume, inode := ⟨store 4 filling.inode.bytes (40 + 4 * index) id⟩ }
    else filling
  else if filling.inode.sibp ≠ 0 then
    if load 4 filling.buf (4 * (index - 12)) = 0 then
      let (id, volume) := findFreeBlocks filling.volume
      { filling with volume := volume, buf := store 4 filling.buf (4 * (index - 12)) id }
    else filling
  else filling

/-- `__ext2_update_file` up to the point where every place has a block. -/
def prepare (volume : Volume) (inode : Inode) (offset len : Nat) : Outcome × Filling :=
  let inode := grown inode offset len
  match loadIndirect volume inode with
  | (.done, filling) => (.done, (List.range (needed inode)).foldl fillOne filling)
  | (outcome, filling) => (outcome, filling)

/-- The number of a block of the file: direct, or out of the indirect block in the buffer. -/
def blockId (filling : Filling) (index : Nat) : Nat :=
  if index < 12 then filling.inode.dbp index else load 4 filling.buf (4 * (index - 12))

/-- The places of the file that a write of `len` bytes at an offset touches. -/
def written (inode : Inode) (offset len : Nat) : List Nat :=
  let last := min ((offset + len + 4095) % 2 ^ 64 / 4096) (needed inode)
  List.range' (offset / 4096) (last - offset / 4096)

/-- The loop that writes the blocks of a file, up to the first that the device refuses. Places
without a block are skipped. -/
def writeBlocks (fs : FsData) (buffer : Bytes) (blockId : Nat → Nat) :
    List Nat → Device → Bool × Device
  | [], device => (true, device)
  | index :: rest, device =>
    if blockId index = 0 then writeBlocks fs buffer blockId rest device
    else
      match device.write (fun offset => buffer (4096 * index + offset))
          (sectorOf fs (blockId index)) fs.secPerBlock with
      | (false, device) => (false, device)
      | (true, device) => writeBlocks fs buffer blockId rest device

/-- The second half of an update: the inode, then the blocks of the content. -/
def writeContent (filling : Filling) (buffer : Bytes) (places : List Nat) (inodeIdx : Nat) :
    Outcome × Filling :=
  let volume := (updateInodeTable filling.volume inodeIdx filling.inode).2
  let result := writeBlocks volume.fs buffer (blockId filling) places volume.device
  (if result.1 then .done else .failed,
    { filling with volume := { volume with device := result.2 } })

/-- `inode->nbr_sectors` is set. -/
def setSectors (filling : Filling) (sectors : Nat) : Filling :=
  { filling with inode := ⟨store 4 filling.inode.bytes 28 sectors⟩ }

/-- The rest of `__ext2_update_file`. -/
def writeBack (filling : Filling) (stack buffer : Bytes) (needed : Nat) (places : List Nat)
    (inodeIdx : Nat) : Outcome × Filling :=
  let fs := filling.volume.fs
  let sectors := needed * fs.secPerBlock
  if filling.inode.sibp = 0 then writeContent (setSectors filling sectors) buffer places inodeIdx
  else
    match filling.volume.device.write (splice stack 0 4096 filling.buf)
        (sectorOf fs filling.inode.sibp) fs.secPerBlock with
    | (false, device) => (.failed, setSectors { filling with volume := ⟨device, fs⟩ } sectors)
    | (true, device) =>
      writeContent (setSectors { filling with volume := ⟨device, fs⟩ } (sectors + fs.secPerBlock))
        buffer places inodeIdx

/-- `__ext2_update_file` -/
def updateFile (volume : Volume) (stack buffer : Bytes) (offset len : Nat) (inode : Inode)
    (inodeIdx : Nat) : Outcome × Filling :=
  match prepare volume inode offset len with
  | (.done, filling) =>
    writeBack filling stack buffer (needed (grown inode offset len))
      (written (grown inode offset len) offset len) inodeIdx
  | (outcome, filling) => (outcome, filling)

/-- What a part of an operation adds to the accesses. Which accesses succeed stays the same. -/
structure Logged (allowed : Access → Prop) (before after : Device) : Prop where
  reads : after.reads = before.reads
  writes : after.writes = before.writes
  log : ∃ added, after.log = before.log ++ added ∧ ∀ access ∈ added, allowed access

/-- An access to a block that some pointer names. -/
def Addressed (fs : FsData) (numbers : List Nat) (access : Access) : Prop :=
  ∃ number ∈ numbers, number ≠ 0 ∧
    (access = .read (number * fs.secPerBlock) fs.secPerBlock ∨
      access = .write (number * fs.secPerBlock) fs.secPerBlock)

/-- A byte outside the blocks of some pointers. -/
def Beside (fs : FsData) (numbers : List Nat) (probe : Nat) : Prop :=
  ∀ number ∈ numbers, number ≠ 0 → probe < 512 * (number * fs.secPerBlock) ∨
    512 * (number * fs.secPerBlock) + 512 * fs.secPerBlock ≤ probe

/-- The sectors besides the content that a write may touch: bitmap, counters and inode. -/
def Bookkeeping (fs : FsData) (inodeIdx : Nat) (access : Access) : Prop :=
  Within (fs.blockBitmap * fs.secPerBlock) ((fs.blocks / 8 + 511) / 512) access ∨
    Counts fs access ∨
    access = .read (tableLba fs inodeIdx) 8 ∨ access = .write (tableLba fs inodeIdx) 8

variable {lba number inodeIdx : Nat} {access : Access}

section Logs

variable {allowed : Access → Prop} {before between after : Device}

theorem Logged.refl (allowed : Access → Prop) (device : Device) : Logged allowed device device :=
  ⟨rfl, rfl, [], (append_nil _).symm, by simp⟩

/-- Two groups of logged accesses after each other. -/
theorem Logged.trans (first : Logged allowed before between)
    (second : Logged allowed between after) : Logged allowed before after := by
  obtain ⟨early, isEarly, earlyAll⟩ := first.log
  obtain ⟨late, isLate, lateAll⟩ := second.log
  refine ⟨second.reads.trans first.reads, second.writes.trans first.writes, early ++ late, ?_, ?_⟩
  · rw [isLate, isEarly, append_assoc]
  · exact fun access member =>
      (mem_append.mp member).elim (earlyAll access) (lateAll access)

/-- More may be allowed than is accessed. -/
theorem Logged.mono {wider : Access → Prop} (logged : Logged allowed before after)
    (included : ∀ access, allowed access → wider access) : Logged wider before after := by
  obtain ⟨reads, writes, added, isAdded, all⟩ := logged
  exact ⟨reads, writes, added, isAdded, fun access member => included access (all access member)⟩

theorem Logged.read (device : Device) {count : Nat} (here : allowed (.read lba count)) :
    Logged allowed device (device.read lba count).2 :=
  ⟨rfl, rfl, [.read lba count], rfl, by simp [here]⟩

theorem Logged.write (device : Device) (data : Bytes) {count : Nat}
    (here : allowed (.write lba count)) :
    Logged allowed device (device.write data lba count).2 := by
  refine ⟨by simp, by simp, [.write lba count], ?_, by simp [here]⟩
  rw [Device.write]
  split <;> rfl

end Logs

section Pointers

variable {fs : FsData}

theorem Addressed.mono {numbers more : List Nat} (included : ∀ number ∈ numbers, number ∈ more)
    (addressed : Addressed fs numbers access) : Addressed fs more access := by
  obtain ⟨number, member, rest⟩ := addressed
  exact ⟨number, included number member, rest⟩

theorem sectorOf_exact (exact' : number * fs.secPerBlock < 2 ^ 32) :
    sectorOf fs number = number * fs.secPerBlock := Nat.mod_eq_of_lt exact'

end Pointers

section Allocation

variable {fs : FsData}

/-- Two states of `ext2_fs_data` that differ in counters only. -/
structure Geometry (fs other : FsData) : Prop where
  blocks : other.blocks = fs.blocks
  bitmap : other.blockBitmap = fs.blockBitmap
  inodes : other.inodeBitmap = fs.inodeBitmap
  first : other.superblockId = fs.superblockId
  table : other.inodeTable = fs.inodeTable
  inode : other.inodeSize = fs.inodeSize
  size : other.blockSize = fs.blockSize
  sectors : other.secPerBlock = fs.secPerBlock

theorem Geometry.refl (fs : FsData) : Geometry fs fs :=
  ⟨rfl, rfl, rfl, rfl, rfl, rfl, rfl, rfl⟩

theorem Geometry.trans {first second third : FsData} (one : Geometry first second)
    (two : Geometry second third) : Geometry first third :=
  ⟨two.blocks.trans one.blocks, two.bitmap.trans one.bitmap, two.inodes.trans one.inodes,
    two.first.trans one.first, two.table.trans one.table, two.inode.trans one.inode,
    two.size.trans one.size, two.sectors.trans one.sectors⟩

/-- Counting leaves the geometry alone. -/
theorem count_geometry (kind : BitmapCounters.Kind) (change : Nat) (fs : FsData) :
    Geometry fs (count kind change fs) := by
  constructor <;> exact count_load _ _ _ _ (by decide)

theorem Geometry.bookkeeping {other : FsData} (same : Geometry fs other) (access : Access) :
    Bookkeeping other inodeIdx access ↔ Bookkeeping fs inodeIdx access := by
  simp only [Bookkeeping, Counts, tableLba, inodeSizeDivider, same.blocks, same.bitmap, same.table,
    same.inode, same.size, same.sectors]

/-- Where an inode stands depends on the geometry only. -/
theorem takenPlace_congr {fs other : FsData} (geometry : Geometry fs other) (id : Nat) :
    takenPlace other id = takenPlace fs id := by
  simp only [takenPlace, tableLba, inodeSizeDivider, geometry.table, geometry.inode,
    geometry.sectors]

/-- Writing the superblock back accesses the sectors of the counters only. -/
theorem update_logged (volume : Volume) :
    Logged (Counts volume.fs) volume.device (updateSbAndBlkDesc volume).2.device := by
  refine ⟨?_, ?_, update_log volume⟩
  · simp only [updateSbAndBlkDesc]
    split <;> simp
  · simp only [updateSbAndBlkDesc]
    split <;> simp

/-- What the allocation of a block accesses, and how large its number can be. -/
theorem findFree_logged (mapIdxStart : Nat) (volume : Volume) (inodeIdx : Nat) :
    Logged (Bookkeeping volume.fs inodeIdx) volume.device
      (findFree .block mapIdxStart volume).2.device ∧
    Geometry volume.fs (findFree .block mapIdxStart volume).2.fs ∧
    (findFree .block mapIdxStart volume).1 ≤
      4096 * ((volume.fs.blocks / 8 + 511) / 512) := by
  obtain ⟨⟨accesses, _, isNext, within⟩, outcome⟩ := findFrom_log
    (bitmapOf volume.fs .block * volume.fs.secPerBlock) _
    (offsets_inside mapIdxStart
      (show volume.fs.blocks / 8 ≤ 512 * ((volume.fs.blocks / 8 + 511) / 512) by omega))
    volume.device
  have searched : Logged (Bookkeeping volume.fs inodeIdx) volume.device
      (findFreeBitmap volume.device (volume.fs.blocks / 8) (bitmapOf volume.fs .block)
        volume.fs.secPerBlock mapIdxStart).2 :=
    ⟨(congrArg Device.reads isNext :), (congrArg Device.writes isNext :), accesses,
      (congrArg Device.log isNext :), fun access member => .inl (within access member)⟩
  have bounded : (findFreeBitmap volume.device (volume.fs.blocks / 8) (bitmapOf volume.fs .block)
      volume.fs.secPerBlock mapIdxStart).1 ≤ 4096 * ((volume.fs.blocks / 8 + 511) / 512) := by
    rcases outcome with zero | ⟨position, below, _, isId⟩
    · exact Nat.le_trans (Nat.le_of_eq zero) (Nat.zero_le _)
    · refine Nat.le_trans (Nat.le_of_eq isId) ?_
      have small := Nat.mod_le (position + 1) (2 ^ 32)
      omega
  have geometry := count_geometry .block minusOne volume.fs
  simp only [findFree]
  generalize findFreeBitmap _ _ _ _ _ = next at *
  obtain ⟨id, next⟩ := next
  have counted := update_logged ⟨next, count .block minusOne volume.fs⟩
  split
  · refine ⟨searched.trans (counted.mono fun access counts => ?_), ?_, bounded⟩
    · exact (geometry.bookkeeping access).mp (.inr (.inl counts))
    · simp only [updateSbAndBlkDesc]
      split <;> exact geometry
  · exact ⟨searched, .refl _, bounded⟩

/-- Writing an inode back accesses the sectors of the bookkeeping only. -/
theorem updateInodeTable_logged (volume : Volume) (inode : Inode) (inodeIdx : Nat) :
    Logged (Bookkeeping volume.fs inodeIdx) volume.device
      (updateInodeTable volume inodeIdx inode).2.device ∧
    (updateInodeTable volume inodeIdx inode).2.fs = volume.fs := by
  have read : Logged (Bookkeeping volume.fs inodeIdx) volume.device
      (volume.device.read (tableLba volume.fs inodeIdx) 8).2 :=
    .read _ (.inr (.inr (.inl rfl)))
  simp only [updateInodeTable]
  generalize volume.device.read (tableLba volume.fs inodeIdx) 8 = next at *
  obtain ⟨table, next⟩ := next
  cases table with
  | none => exact ⟨read, rfl⟩
  | some table => exact ⟨read.trans (.write _ _ (.inr (.inr (.inr rfl)))), rfl⟩

end Allocation

end Balrog.Ext2Writes
