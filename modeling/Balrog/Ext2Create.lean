import Balrog.Ext2Accounts
import Balrog.Ext2Unlink

/-!
# Creating files and directories

`ext2_create` and `ext2_mkdir` first put an entry into the directory in memory. Then
`__ext2_create_new_inode` gives it an inode, and a block for the inode. If no inode is free, it goes
on with inode 0: a block is allocated, a record is written to where inode 0 would be, and the
directory with an entry for inode 0 is written to the device. Only then does the caller see the 0
and return -1. If no block is free, the inode has none, and the caller does not notice.

The path has been resolved to the inode of the directory and a name. A new inode is not in the inode
cache, so `ext2_mkdir` reads it back from the device. `times` are the results of `ktime`.
-/

namespace Balrog.Ext2Create

open ByteMemory Ext2Volume Ext2Bitmaps Ext2Inodes Ext2Files Ext2Writes
open Ext2Unlink (Arrays Reliable regularFile directoryType)
open DirEntries (readDirEntry nameLengthAt sizeAt)
open DirChanges (ext2DirEntrySize splitEntry)

/-- `EXT2_MODE_DIR | EXT2_DEFAULT_DIR_ACCESS` and the mode for files. -/
def modeOf (type : Nat) : Nat :=
  if type = directoryType then 0x4000 ||| 0o770 else 0x8000 ||| 0o664

/-- The fields that `__ext2_create_new_inode` sets before it looks for a block. `file_size` has 32
bits. -/
def freshInode (inode : Inode) (fileSize mode : Nat) (times : Nat → Nat) : Inode :=
  let bytes := store 2 (store 2 inode.bytes 0 mode) 2 0
  let bytes := store 4 (store 4 bytes 4 fileSize) 8 (times 0)
  let bytes := store 4 (store 4 bytes 12 (times 1)) 16 (times 2)
  let bytes := store 2 (store 2 (store 4 bytes 20 0) 24 0) 26 1
  ⟨store 4 (store 4 (store 4 bytes 28 (fileSize % 2 ^ 32 / 512)) 32 0) 100 0⟩

/-- `__ext2_create_new_inode` -/
def createNewInode (volume : Volume) (fileSize mode : Nat) (times : Nat → Nat) : Nat × Volume :=
  let (newIdInode, volume) := findFreeInode volume
  let (inode, volume) := getInode volume newIdInode
  let inode := freshInode inode fileSize mode times
  let (block, volume) := findFreeBlocks volume
  let inode : Inode := ⟨fill (store 4 inode.bytes 40 block) 44 56 0⟩
  (newIdInode, (updateInodeTable volume newIdInode inode).2)

/-- What `__ext2_create_new_dir_entry` leaves: the number it returns, the directory in memory, and
the volume. -/
structure Created where
  outcome : Outcome
  inode : Nat
  dir : Bytes
  volume : Volume

/-- The room behind the last entry of a directory. -/
def freeSize (dir : Bytes) (entry : Nat) : Nat :=
  (sizeAt dir entry + 2 ^ 16 - ext2DirEntrySize (nameLengthAt dir entry) % 2 ^ 16) % 2 ^ 16

/-- `__ext2_create_new_dir_entry` -/
def createNewDirEntry (volume : Volume) (stack dir : Bytes) (filename : List UInt8)
    (dirInode : Inode) (size type : Nat) (times : Nat → Nat) : Created :=
  let entries := readDirEntry dir filename
  let free := freeSize dir entries.entry
  if 255 < filename.length ∨ entries.found = true ∨
      free ≤ ext2DirEntrySize filename.length % 2 ^ 16 then
    ⟨.done, 0, dir, volume⟩
  else
    let (inode, volume) := createNewInode volume size (modeOf type) times
    let entrySize := (sizeAt dir entries.entry + 2 ^ 16 - free) % 2 ^ 16
    let dir := splitEntry dir entries.entry entrySize free filename type inode
    match updateDirEntry volume stack dirInode dir with
    | (.smashed, volume) => ⟨.smashed, inode, dir, volume⟩
    | (_, volume) => ⟨.done, inode, dir, volume⟩

/-- `ext2_create` in a directory. -/
def ext2Create (volume : Volume) (arrays : Arrays) (heap : Bytes) (dirInode : Inode)
    (filename : List UInt8) (size : Nat) (times : Nat → Nat) : Outcome × Volume :=
  let read := readFile volume arrays.read heap dirInode
  let volume := { volume with device := read.2.device }
  if read.1 ≠ .done then (read.1, volume)
  else
    let created := createNewDirEntry volume arrays.update read.2.buffer filename dirInode size
      regularFile times
    match created.outcome with
    | .smashed => (.smashed, created.volume)
    | _ => (if created.inode = 0 then .failed else .done, created.volume)

/-- An entry as `__ext2_initialize_dir` writes it. -/
def writeEntry (dir : Bytes) (entry inode : Nat) (name : List UInt8) (entrySize : Nat) : Bytes :=
  let dir := store 4 dir entry inode
  let dir := copy dir (entry + 8) (name ++ [0])
  let dir := store 1 dir (entry + 6) name.length
  let dir := store 1 dir (entry + 7) directoryType
  store 2 dir (entry + 4) entrySize

/-- The names `.` and `..`. -/
def dot : List UInt8 := [46]

@[inherit_doc dot] def dotDot : List UInt8 := [46, 46]

/-- `__ext2_initialize_dir` -/
def initializeDir (volume : Volume) (stack dir : Bytes) (dirInode : Inode) (dirInodeId : Nat)
    (prevInode : Inode) (prevInodeId : Nat) : Outcome × Volume :=
  if (readDirEntry dir dot).found then (.failed, volume)
  else
    let dir := writeEntry dir 0 dirInodeId dot 12
    let dirInode : Inode := ⟨store 2 dirInode.bytes 26 2⟩
    let volume := (updateInodeTable volume dirInodeId dirInode).2
    let dir := writeEntry dir 12 prevInodeId dotDot (4096 - 12)
    let prevInode : Inode := ⟨store 2 prevInode.bytes 26 (prevInode.hardLinkCount + 1)⟩
    let volume := (updateInodeTable volume prevInodeId prevInode).2
    match updateDirEntry volume stack dirInode dir with
    | (.smashed, volume) => (.smashed, volume)
    | (_, volume) =>
      let fs : FsData := ⟨store 2 volume.fs.bytes 1040 (volume.fs.numOfDir + 1)⟩
      (.done, (updateSbAndBlkDesc { volume with fs := fs }).2)

/-- What a caller that drops the returned value goes on with; a smashed stack is not dropped. -/
def ignoreResult : Outcome × Volume → Outcome × Volume
  | (.smashed, volume) => (.smashed, volume)
  | (_, volume) => (.done, volume)

/-- The part of `ext2_mkdir` that follows the new entry. -/
def finishDir (created : Created) (arrays : Arrays) (prevInode : Inode) (prevInodeId : Nat) :
    Outcome × Volume :=
  let (inode, volume) := getInode created.volume created.inode
  let read := readFile volume arrays.empty created.dir inode
  let volume := { volume with device := read.2.device }
  if read.1 ≠ .done then (read.1, volume)
  else
    ignoreResult
      (initializeDir volume arrays.free read.2.buffer inode created.inode prevInode prevInodeId)

/-- `ext2_mkdir` in a directory. Of the whole path, only the length is looked at. -/
def ext2Mkdir (volume : Volume) (arrays : Arrays) (heap : Bytes) (dirname : List UInt8)
    (dirInode : Inode) (dirInodeNbr : Nat) (filename : List UInt8) (times : Nat → Nat) :
    Outcome × Volume :=
  if 255 < dirname.length then (.failed, volume)
  else
    let read := readFile volume arrays.read heap dirInode
    let volume := { volume with device := read.2.device }
    if read.1 ≠ .done then (read.1, volume)
    else
      let created := createNewDirEntry volume arrays.update read.2.buffer filename dirInode 4096
        directoryType times
      match created.outcome with
      | .smashed => (.smashed, created.volume)
      | _ =>
        if created.inode = 0 then (.failed, created.volume)
        else finishDir created arrays dirInode dirInodeNbr

/-- The directory has no place for the name: it is too long, or there already, or the last entry has
no room behind it. -/
def Refuses (dir : Bytes) (filename : List UInt8) : Prop :=
  255 < filename.length ∨ (readDirEntry dir filename).found = true ∨
    freeSize dir (readDirEntry dir filename).entry ≤ ext2DirEntrySize filename.length % 2 ^ 16

/-- An inode is free where the search looks for it, and no access fails. -/
structure InodeFree (volume : Volume) : Prop where
  reliable : Reliable volume.device
  small : 4096 * ((volume.fs.blocks / 8 + 511) / 512) < 2 ^ 32
  free : ∃ position < 4096 * ((volume.fs.blocks / 8 + 511) / 512),
    bit volume .inode position = false

variable {device before after between : Device} {volume : Volume}

section Search

/-- A search that begins at the first bit finds one that is clear, as it does in `BlockBitmap`. -/
theorem findFreeInode_finds (free : InodeFree volume) : (findFreeInode volume).1 ≠ 0 := by
  obtain ⟨reliable, small, position, below, clear⟩ := free
  have past : pastSector volume.fs 0 = (volume.fs.blocks / 8 + 511) / 512 := by
    simp [pastSector, firstSector]
  rcases findFree_searched .inode 0 volume with ⟨_, full⟩ | ⟨found, _, inside, _, _, _, _, isId⟩
  · have set := full (fun lba => reliable lba 1) position (by simp [firstSector])
      (by rw [past]; exact below)
    rw [bit_view] at set
    exact absurd (clear.symm.trans set) Bool.false_ne_true
  · rw [past] at inside
    rw [findFreeInode, (Prod.mk.inj isId).1]
    omega

end Search

section Reliability

/-- Which accesses succeed stays the same. -/
def Steady (before after : Device) : Prop :=
  after.reads = before.reads ∧ after.writes = before.writes

theorem Steady.trans (first : Steady before between) (second : Steady between after) :
    Steady before after :=
  ⟨second.1.trans first.1, second.2.trans first.2⟩

theorem Steady.reliable (steady : Steady before after) (reliable : Reliable before) :
    Reliable after := by
  rw [Reliable, steady.1, steady.2]
  exact reliable

/-- An allocation leaves the faults of the device as they were. -/
theorem findFree_steady (kind : BitmapCounters.Kind) (mapIdxStart : Nat) (volume : Volume) :
    Steady volume.device (findFree kind mapIdxStart volume).2.device := by
  obtain ⟨⟨_, _, isNext, _⟩, _⟩ := findFrom_log (bitmapOf volume.fs kind * volume.fs.secPerBlock) _
    (offsets_inside mapIdxStart
      (show volume.fs.blocks / 8 ≤ 512 * ((volume.fs.blocks / 8 + 511) / 512) by omega))
    volume.device
  have searched : Steady volume.device (findFreeBitmap volume.device (volume.fs.blocks / 8)
      (bitmapOf volume.fs kind) volume.fs.secPerBlock mapIdxStart).2 :=
    ⟨(congrArg Device.reads isNext :), (congrArg Device.writes isNext :)⟩
  simp only [findFree]
  split
  · have counted := update_logged ⟨(findFreeBitmap volume.device (volume.fs.blocks / 8)
      (bitmapOf volume.fs kind) volume.fs.secPerBlock mapIdxStart).2,
      count kind minusOne volume.fs⟩
    exact searched.trans ⟨counted.reads, counted.writes⟩
  · exact searched

theorem getInode_steady (volume : Volume) (inodeIdx : Nat) :
    Steady volume.device (getInode volume inodeIdx).2.device := by
  simp only [getInode]
  split <;> exact ⟨rfl, rfl⟩

theorem createNewInode_steady (volume : Volume) (fileSize mode : Nat) (times : Nat → Nat) :
    Steady volume.device (createNewInode volume fileSize mode times).2.device := by
  simp only [createNewInode]
  have first := findFree_steady .inode 0 volume
  have second := getInode_steady (findFreeInode volume).2 (findFreeInode volume).1
  have third := findFree_steady .block 0
    (getInode (findFreeInode volume).2 (findFreeInode volume).1).2
  refine ((first.trans second).trans third).trans ?_
  have last := fun volume inode inodeIdx => (updateInodeTable_logged volume inode inodeIdx).1
  exact ⟨(last _ _ _).reads, (last _ _ _).writes⟩

theorem writeDir_steady (fs : FsData) (dir : Bytes) (numbers : List Nat) (position : Nat)
    (device : Device) : Steady device (writeDir fs dir numbers position device).2.2 := by
  induction numbers generalizing position device with
  | nil => exact ⟨rfl, rfl⟩
  | cons number rest ih =>
    rw [writeDir]
    split
    · exact ih position device
    · have written : Steady device (device.write (fun offset => dir (position + offset))
          (sectorOf fs number) fs.secPerBlock).2 :=
        ⟨Device.write_reads _ _ _ _, Device.write_writes _ _ _ _⟩
      generalize device.write _ _ _ = next at *
      obtain ⟨done, next⟩ := next
      cases done with
      | false => exact written
      | true => exact written.trans (ih _ next)

theorem updateDirEntry_steady (volume : Volume) (stack : Bytes) (inode : Inode) (dir : Bytes) :
    Steady volume.device (updateDirEntry volume stack inode dir).2.device := by
  obtain ⟨outcome, last, result, walk⟩ := updateDirEntry_walk volume stack inode dir
  rw [result]
  exact walk.keeps (fun _ _ => rfl) (fun _ steady => steady.trans ⟨rfl, rfl⟩)
    (fun numbers state steady => steady.trans (writeDir_steady volume.fs dir numbers _ state.2))
    ⟨rfl, rfl⟩

/-- A read from a device that does not fail does not either. -/
theorem readFile_unfailed {volume : Volume} (reliable : Reliable volume.device)
    (stack buffer : Bytes) (inode : Inode) : (readFile volume stack buffer inode).1 ≠ .failed := by
  rw [readFile_reliable volume stack buffer inode fun _ => (reliable _ _).1]
  split <;> exact nofun

end Reliability

section Failures

variable {volume : Volume} {stack dir : Bytes} {filename : List UInt8} {dirInode : Inode}
  {size type : Nat} {times : Nat → Nat}

/-- Where an inode is free and the name is accepted, the creation returns an inode. -/
theorem created_inode (free : InodeFree volume) (accepts : ¬ Refuses dir filename) :
    (createNewDirEntry volume stack dir filename dirInode size type times).inode ≠ 0 ∧
    Reliable
      (createNewDirEntry volume stack dir filename dirInode size type times).volume.device := by
  have found : (createNewInode volume size (modeOf type) times).1 ≠ 0 := findFreeInode_finds free
  have steady := createNewInode_steady volume size (modeOf type) times
  rw [Refuses] at accepts
  simp only [createNewDirEntry, if_neg accepts]
  generalize createNewInode volume size (modeOf type) times = made at *
  obtain ⟨inode, next⟩ := made
  simp only
  generalize splitEntry dir _ _ _ filename type inode = written
  have last := updateDirEntry_steady next stack dirInode written
  generalize updateDirEntry next stack dirInode written = result at *
  obtain ⟨outcome, after⟩ := result
  have reliable : Reliable after.device := (steady.trans last).reliable free.reliable
  cases outcome <;> exact ⟨found, reliable⟩

theorem ignoreResult_done (result : Outcome × Volume) : (ignoreResult result).1 ≠ .failed := by
  obtain ⟨outcome, after⟩ := result
  cases outcome <;> simp [ignoreResult]

/-- Once there is an inode for the directory, `ext2_mkdir` does not return -1. -/
theorem finishDir_done {created : Created} (reliable : Reliable created.volume.device)
    (arrays : Arrays) (prevInode : Inode) (prevInodeId : Nat) :
    (finishDir created arrays prevInode prevInodeId).1 ≠ .failed := by
  have again := (getInode_steady created.volume created.inode).reliable reliable
  simp only [finishDir]
  generalize getInode created.volume created.inode = found at *
  obtain ⟨inode, next⟩ := found
  have read := readFile_unfailed again arrays.empty created.dir inode
  simp only
  generalize readFile next arrays.empty created.dir inode = result at *
  split
  · exact read
  · exact ignoreResult_done _

/-- The bytes of the device and what is known of the volume are as before. -/
def Unchanged (before after : Volume) : Prop :=
  after.device.disk = before.device.disk ∧ after.fs = before.fs

theorem InodeFree.read (free : InodeFree volume) (only : OnlyRead volume.device device) :
    InodeFree { volume with device := device } := by
  obtain ⟨reliable, small, position, below, clear⟩ := free
  refine ⟨Steady.reliable ⟨only.reads, only.writes⟩ reliable, small, position, below, ?_⟩
  simp only [bit, only.disk]
  exact clear

/-- A new entry is refused and nothing changes, or it gets an inode. -/
theorem created_cases (size type : Nat) (times : Nat → Nat)
    (condition : InodeFree volume ∨ Refuses dir filename) :
    createNewDirEntry volume stack dir filename dirInode size type times =
      ⟨.done, 0, dir, volume⟩ ∨
    (createNewDirEntry volume stack dir filename dirInode size type times).inode ≠ 0 ∧
      Reliable
        (createNewDirEntry volume stack dir filename dirInode size type times).volume.device := by
  by_cases refuses : Refuses dir filename
  · exact .inl (if_pos refuses)
  · exact .inr (created_inode (condition.resolve_right refuses) refuses)

end Failures

/-- When a call changes nothing if it fails: an inode is free and no access fails, or the call ends
before it looks for an inode, as the directory cannot be read or has no place for the name. -/
def Careful (volume : Volume) (arrays : Arrays) (heap : Bytes) (dirInode : Inode)
    (filename : List UInt8) : Prop :=
  InodeFree volume ∨ (readFile volume arrays.read heap dirInode).1 ≠ .done ∨
    Refuses (readFile volume arrays.read heap dirInode).2.buffer filename

/-- The volume of the removal with all inodes in use and 48 free blocks, from block 17 on. -/
def fullDisk : Bytes := fun probe =>
  if 3074 ≤ probe ∧ probe < 4096 then 0
  else if 4096 ≤ probe ∧ probe < 5120 then 0xff
  else store 2 (store 4 Ext2Unlink.fileDisk 1036 48) 2060 48 probe

@[inherit_doc fullDisk] def fullVolume : Volume where
  device := { Ext2Unlink.fileVolume.device with disk := fullDisk }
  fs := fsDataOf (fun _ => 0) (fun offset => fullDisk (1024 + offset))
    fun offset => fullDisk (2048 + offset)

/-- An attempt to create a file on the full volume. -/
def fullCreate : Outcome × Volume :=
  ext2Create fullVolume Ext2Unlink.zeroArrays (fun _ => 0) (Ext2Unlink.fileInodes 0 2) [103] 0
    fun _ => 9

end Balrog.Ext2Create
