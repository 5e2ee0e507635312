import Balrog.Ext2Create

/-!
# A new directory

`ext2_mkdir` adds an entry to the parent, reads the block that the new inode got into its buffer,
and lets `__ext2_initialize_dir` write the entries `.` and `..` to it. That function first looks
for an entry `.` among the bytes of the block and takes a directory that has one for initialised.
Blocks are not cleared when they are freed or handed out: if the block belonged to a directory
before, nothing is written, and `ext2_mkdir` returns success all the same.

The operations are those of `Ext2Create`. Their writes are followed through the device: the counters
and bitmaps, the records of the two inodes, the blocks of the parent and the new block.
-/

namespace Balrog.NewDirectory

open ByteMemory Ext2Volume Ext2Bitmaps Ext2Inodes Ext2Files Ext2Writes Ext2Addresses Ext2Create List
open Ext2Unlink (Arrays Reliable Uncounted InBlock directoryType)
open DirChanges (splitEntry)
open DirEntries (DirEntry WellFormed Layout Proper readDirEntry entryAt inodeAt sizeAt typeAt
  nameLengthAt entryAt_fields entryAt_congr name_length copy_name formed_one)

/-- A directory with nothing but `.`, which names itself, and `..`, which names the parent. -/
def firstEntries (inode parent : Nat) : List DirEntry :=
  [⟨inode, 12, directoryType, dot⟩, ⟨parent, 4084, directoryType, dotDot⟩]

/-- Whoever reads the directory from the device finds its two entries and nothing else. -/
def Initialised (volume : Volume) (inode parent : Nat) : Prop :=
  ∀ stack buffer,
    (readFile volume stack buffer (getInode volume inode).1).1 = .done ∧
    WellFormed (readFile volume stack buffer (getInode volume inode).1).2.buffer 4096
      (firstEntries inode parent)

/-- The bytes of a block on the device. -/
def blockBytes (volume : Volume) (number : Nat) : Bytes := fun offset =>
  volume.device.disk (512 * (number * volume.fs.secPerBlock) + offset)

/-- The buffer after a block is read into it; `rest` is what it held before. -/
def oldBuffer (volume : Volume) (number : Nat) (rest : Bytes) : Bytes :=
  splice rest 0 (512 * volume.fs.secPerBlock) (blockBytes volume number)

/-- The block of an inode that has no other. -/
structure One (inode : Inode) (number : Nat) : Prop where
  first : inode.dbp 0 = number
  others : ∀ index, 1 ≤ index → index < 12 → inode.dbp index = 0
  single : inode.sibp = 0

/-- A byte outside the record of an inode. -/
def OutsideRecord (fs : FsData) (inodeIdx probe : Nat) : Prop :=
  probe < takenPlace fs inodeIdx ∨ takenPlace fs inodeIdx + 128 ≤ probe

/-- The volume when the new inode has a block and the parent has the entry: blocks have 4096 bytes,
no access fails, and the new block and record are apart from what is written next. -/
structure Made (volume : Volume) (inode number parent : Nat) : Prop where
  accepted : Accepted volume.fs
  eight : volume.fs.secPerBlock = 8
  reliable : Reliable volume.device
  one : One (recordAt volume.device.disk (takenPlace volume.fs inode)) number
  some' : number ≠ 0
  small : number * 8 < 2 ^ 32
  numbers : inode < 2 ^ 32 ∧ parent < 2 ^ 32
  records : ∀ offset < 128, OutsideRecord volume.fs parent (takenPlace volume.fs inode + offset)
  block : ∀ probe, InBlock volume.fs number probe → Uncounted volume.fs probe ∧
    OutsideRecord volume.fs inode probe ∧ OutsideRecord volume.fs parent probe
  record : ∀ offset < 128, Uncounted volume.fs (takenPlace volume.fs inode + offset) ∧
    ¬ InBlock volume.fs number (takenPlace volume.fs inode + offset)

variable {volume after : Volume} {inode : Inode} {number id parent probe entry entrySize : Nat}
  {buffer stack dir : Bytes}

section Entries

variable {inode : Nat}

/-- Writing an entry touches its header, its name and the zero behind it only. -/
theorem writeEntry_outside (entry inode : Nat) (name : List UInt8) (entrySize : Nat)
    (outside : probe < entry ∨ entry + 8 + name.length < probe) :
    writeEntry buffer entry inode name entrySize probe = buffer probe := by
  simp only [writeEntry]
  rw [store_outside (by omega), store_outside (by omega),
    store_outside (by omega),
    copy_outside (by rw [length_append, length_singleton]; omega),
    store_outside (by omega)]

/-- The entry that was written is read back. -/
theorem writeEntry_entry {name : List UInt8} (inodeSmall : inode < 2 ^ 32)
    (short : name.length ≤ 255) (small : entrySize < 2 ^ 16) :
    entryAt (writeEntry buffer entry inode name entrySize) entry =
      { inode := inode, size := entrySize, type := directoryType, name := name } := by
  refine entryAt_fields ?_ ?_ ?_ ?_ fun index below => ?_
  · simp only [inodeAt, writeEntry]
    rw [load_store_apart (by omega), load_store_apart (by omega), load_store_apart (by omega),
      load_copy_apart (by omega), load_store_same]
    exact Nat.mod_eq_of_lt inodeSmall
  · simp only [sizeAt, writeEntry]
    rw [load_store_same]
    exact Nat.mod_eq_of_lt small
  · simp only [typeAt, writeEntry]
    rw [load_store_apart (by omega), load_store_same]
    rfl
  · simp only [nameLengthAt, writeEntry]
    rw [load_store_apart (by omega), load_store_apart (by omega), load_store_same,
      Nat.mod_eq_of_lt (by omega)]
  · simp only [writeEntry]
    rw [store_outside (by omega), store_outside (by omega), store_outside (by omega),
      copy_name below]

/-- What `__ext2_initialize_dir` leaves in its buffer. -/
theorem initialised_layout (inodeSmall : inode < 2 ^ 32) (parentSmall : parent < 2 ^ 32) :
    Layout (writeEntry (writeEntry buffer 0 inode dot 12) 12 parent dotDot (4096 - 12)) 0
      (firstEntries inode parent) 4096 := by
  have first : entryAt (writeEntry buffer 0 inode dot 12) 0 =
      ⟨inode, 12, directoryType, dot⟩ :=
    writeEntry_entry inodeSmall (by decide) (by decide)
  have length : nameLengthAt (writeEntry buffer 0 inode dot 12) 0 = 1 := by
    rw [← name_length, first]
    rfl
  refine ⟨?_, writeEntry_entry parentSmall (by decide) (by decide), rfl⟩
  rw [← first]
  refine entryAt_congr fun probe _ upper => writeEntry_outside _ _ _ _ (.inl ?_)
  omega

/-- The block that is written holds the two entries. -/
theorem initialised_formed {block : Bytes} (inodeSmall : inode < 2 ^ 32)
    (parentSmall : parent < 2 ^ 32) (written : ∀ offset < 4096, block offset =
      writeEntry (writeEntry buffer 0 inode dot 12) 12 parent dotDot (4096 - 12) offset) :
    WellFormed block 4096 (firstEntries inode parent) := by
  have proper : ∀ entry ∈ firstEntries inode parent, Proper entry := by
    intro entry listed
    rw [firstEntries, mem_cons, mem_singleton] at listed
    rcases listed with rfl | rfl
    · exact ⟨show 8 + dot.length ≤ 12 by decide, show 12 % 4 = 0 by decide,
        show 0 ∉ dot by decide⟩
    · exact ⟨show 8 + dotDot.length ≤ 4084 by decide, show 4084 % 4 = 0 by decide,
        show 0 ∉ dotDot by decide⟩
  exact (formed_one (initialised_layout inodeSmall parentSmall) proper).congr written

end Entries

section OneBlock

/-- An inode with one block has no other direct block. -/
theorem One.direct_eq (one : One inode number) : direct inode = number :: replicate 11 0 := by
  rw [direct, range_succ_eq_map, map_cons, one.first, map_map]
  congr 1
  refine eq_replicate_iff.mpr ⟨by simp, fun value member => ?_⟩
  obtain ⟨index, below, rfl⟩ := mem_map.mp member
  exact one.others (index + 1) (Nat.succ_pos _) (Nat.succ_lt_succ (mem_range.mp below))

/-- Blocks of number zero are not read. -/
theorem readBlocks_zeros (fs : FsData) (count : Nat) (progress : Progress) :
    readBlocks fs (replicate count 0) progress = (true, progress) := by
  induction count with
  | zero => rfl
  | succ count ih => rw [replicate_succ, readBlocks, if_pos rfl, ih]

/-- Blocks of number zero are not written. -/
theorem writeDir_zeros (fs : FsData) (dir : Bytes) (count position : Nat) (device : Device) :
    writeDir fs dir (replicate count 0) position device = (true, position, device) := by
  induction count with
  | zero => rfl
  | succ count ih => rw [replicate_succ, writeDir, if_pos rfl, ih]

/-- A file of one block is read into the front of the buffer. -/
theorem readFile_one (reliable : Reliable volume.device) (one : One inode number)
    (some' : number ≠ 0) (small : number * volume.fs.secPerBlock < 2 ^ 32) (stack buffer : Bytes) :
    (readFile volume stack buffer inode).1 = .done ∧
      (readFile volume stack buffer inode).2.buffer = oldBuffer volume number buffer := by
  simp only [readFile, one.direct_eq, readBlocks, if_neg some', Device.read, (reliable _ _).1,
    if_true, readBlocks_zeros, one.single, Bool.true_eq_false, if_false, true_and]
  rw [sectorOf_exact small]
  rfl

/-- The only block of a directory is written. -/
theorem updateDirEntry_one (reliable : Reliable volume.device) (one : One inode number)
    (some' : number ≠ 0) (small : number * volume.fs.secPerBlock < 2 ^ 32) (stack dir : Bytes) :
    updateDirEntry volume stack inode dir = (.done, { volume with device :=
      (volume.device.write dir (number * volume.fs.secPerBlock) volume.fs.secPerBlock).2 }) := by
  have zero : (fun offset => dir (0 + offset)) = dir := by
    funext offset
    rw [Nat.zero_add]
  simp only [updateDirEntry, one.direct_eq, writeDir, if_neg some', Device.write, (reliable _ _).2,
    if_true, writeDir_zeros, one.single, Bool.true_eq_false, if_false, sectorOf_exact small, zero]

/-- A record that is written to a device that does not fail. -/
theorem updateInodeTable_reliable (reliable : Reliable volume.device) (id : Nat) (inode : Inode) :
    (updateInodeTable volume id inode).2.device.disk =
        splice volume.device.disk (takenPlace volume.fs id) 128 inode.bytes ∧
      Reliable (updateInodeTable volume id inode).2.device ∧
      (updateInodeTable volume id inode).2.fs = volume.fs := by
  have ⟨logged, sameFs⟩ := updateInodeTable_logged volume inode id
  refine ⟨?_, fun lba count => ?_, sameFs⟩
  · have written : (updateInodeTable volume id inode).1 = true := by
      obtain ⟨reads, writes⟩ := reliable (tableLba volume.fs id) 8
      unfold updateInodeTable
      generalize tableLba volume.fs id = lba at *
      simp only [Device.read, reads, if_true, Device.write_result]
      exact writes
    obtain ⟨log, same | ⟨_, changed⟩⟩ := updateInodeTable_cases volume id inode
    · rw [same] at written
      exact absurd written Bool.false_ne_true
    · rw [changed]
  · rw [logged.reads, logged.writes]
    exact reliable lba count

/-- What is read of a directory of one block is its block. -/
theorem initialised_iff (reliable : Reliable volume.device) (eight : volume.fs.secPerBlock = 8)
    (one : One (recordAt volume.device.disk (takenPlace volume.fs id)) number) (some' : number ≠ 0)
    (small : number * 8 < 2 ^ 32) :
    Initialised volume id parent ↔
      WellFormed (blockBytes volume number) 4096 (firstEntries id parent) := by
  have record : (getInode volume id).1 = recordAt volume.device.disk (takenPlace volume.fs id) := by
    rw [getInode_at, if_pos (reliable _ _).1]
  have inside (buffer : Bytes) (offset : Nat) (below : offset < 4096) :
      oldBuffer volume number buffer offset = blockBytes volume number offset := by
    have there := splice_inside buffer 0 (blockBytes volume number)
      (show offset < 512 * volume.fs.secPerBlock by omega)
    rwa [Nat.zero_add] at there
  have read := fun stack buffer =>
    readFile_one reliable one some' (by rw [eight]; exact small) stack buffer
  rw [Initialised, record]
  constructor
  · intro initialised
    have formed := (initialised (fun _ => 0) fun _ => 0).2
    rw [(read _ _).2] at formed
    exact formed.congr fun offset below => (inside _ offset below).symm
  · intro formed stack buffer
    rw [(read stack buffer).2]
    exact ⟨(read stack buffer).1, formed.congr (inside buffer)⟩

end OneBlock

section Initialising

/-- Which blocks an inode has depends on its block numbers only. -/
theorem One.congr {bytes other : Bytes} {place : Nat} (one : One (recordAt bytes place) number)
    (same : ∀ offset, 40 ≤ offset → offset < 128 → other (place + offset) = bytes (place + offset)) :
    One (recordAt other place) number := by
  have kept (address : Nat) (behind : 40 ≤ address) (inside : address + 4 ≤ 128) :
      load 4 (recordAt other place).bytes address = load 4 (recordAt bytes place).bytes address := by
    refine load_congr _ _ _ _ fun probe lower upper => ?_
    simp only [recordAt, if_pos (show probe < 128 by omega)]
    exact same probe (by omega) (by omega)
  refine ⟨(kept 40 (by omega) (by omega)).trans one.first, fun index positive below => ?_,
    (kept 88 (by omega) (by omega)).trans one.single⟩
  exact (kept (40 + 4 * index) (by omega) (by omega)).trans (one.others index positive below)

/-- Counting a directory changes none of the other fields. -/
theorem counted_geometry (fs : FsData) (value : Nat) :
    Geometry fs ⟨store 2 fs.bytes 1040 value⟩ ∧
      (Accepted fs → Accepted ⟨store 2 fs.bytes 1040 value⟩) := by
  have kept (width address : Nat) (apart : address + width ≤ 1040 ∨ 1042 ≤ address) :
      load width (store 2 fs.bytes 1040 value) address = load width fs.bytes address :=
    load_store_apart (by omega)
  refine ⟨by constructor <;> exact kept _ _ (by decide), fun accepted => ?_⟩
  obtain ⟨signature, size, sectors⟩ := accepted
  refine ⟨(kept 2 56 (by decide)).trans signature, ?_, ?_⟩
  · simp only [FsData.blockSize, FsData.blockSizeHint, kept 4 1056 (by decide),
      kept 4 24 (by decide)]
    exact size
  · simp only [FsData.blockSize, FsData.secPerBlock, kept 4 1056 (by decide),
      kept 4 1060 (by decide)]
    exact sectors

/-- Where no entry `.` is found, the entries are written to the block. -/
theorem initializeDir_writes (made : Made volume id number parent) (stack : Bytes)
    (prevInode : Inode) (missing : (readDirEntry buffer dot).found = false) :
    Initialised (initializeDir volume stack buffer
      (recordAt volume.device.disk (takenPlace volume.fs id)) id prevInode parent).2 id parent := by
  simp only [initializeDir, missing, Bool.false_eq_true, if_false]
  generalize isRecord : (Inode.mk (store 2 (recordAt volume.device.disk
    (takenPlace volume.fs id)).bytes 26 2)) = record
  generalize Inode.mk (store 2 prevInode.bytes 26 _) = prevRecord
  generalize isEntries : writeEntry (writeEntry buffer 0 id dot 12) 12 parent dotDot (4096 - 12) =
    entries
  -- the two records
  obtain ⟨firstDisk, firstReliable, firstFs⟩ := updateInodeTable_reliable made.reliable id record
  generalize (updateInodeTable volume id record).2 = first at *
  obtain ⟨secondDisk, secondReliable, secondFs⟩ :=
    updateInodeTable_reliable firstReliable parent prevRecord
  generalize (updateInodeTable first parent prevRecord).2 = second at *
  rw [firstFs, firstDisk] at secondDisk
  rw [firstFs] at secondFs
  -- the block
  have one : One record number := by
    have kept (address : Nat) (behind : 28 ≤ address) : load 4 record.bytes address =
        load 4 (recordAt volume.device.disk (takenPlace volume.fs id)).bytes address := by
      rw [← isRecord]
      exact load_store_apart (.inl behind)
    exact ⟨(kept 40 (by omega)).trans made.one.first,
      fun index positive below => (kept _ (by omega)).trans (made.one.others index positive below),
      (kept 88 (by omega)).trans made.one.single⟩
  rw [updateDirEntry_one secondReliable one made.some' (by rw [secondFs, made.eight]; exact made.small),
    secondFs, made.eight]
  simp only []
  have ⟨geometry, stillAccepted⟩ := counted_geometry volume.fs (volume.fs.numOfDir + 1)
  have accepted := stillAccepted made.accepted
  generalize FsData.mk (store 2 volume.fs.bytes 1040 _) = fs at *
  have thirdDisk : (second.device.write entries (number * 8) 8).2.disk =
      splice second.device.disk (512 * (number * 8)) (512 * 8) entries := by
    rw [Device.write, if_pos (secondReliable _ _).2]
  have thirdReliable : Reliable (second.device.write entries (number * 8) 8).2 := by
    intro lba count
    rw [Device.write_reads, Device.write_writes]
    exact secondReliable lba count
  generalize (second.device.write entries (number * 8) 8).2 = third at *
  -- the counters
  obtain ⟨lastReads, lastWrites, lastFs⟩ := Ext2Unlink.update_reads ⟨third, fs⟩
  have lastDisk (probe : Nat) (outside : Uncounted volume.fs probe) :
      (updateSbAndBlkDesc ⟨third, fs⟩).2.device.disk probe = third.disk probe :=
    Ext2Unlink.update_outside accepted ((Ext2Unlink.uncounted_congr geometry probe).mpr outside)
  generalize (updateSbAndBlkDesc ⟨third, fs⟩).2 = last at *
  have reliable : Reliable last.device := by
    intro lba count
    rw [lastReads, lastWrites]
    exact thirdReliable lba count
  have lastEight : last.fs.secPerBlock = 8 := by rw [lastFs, geometry.sectors, made.eight]
  refine (initialised_iff reliable lastEight ?_ made.some' made.small).mpr ?_
  · rw [lastFs, takenPlace_congr geometry]
    refine made.one.congr fun offset behind inside => ?_
    obtain ⟨outside, beside⟩ := made.record offset inside
    rw [InBlock, made.eight] at beside
    rw [lastDisk _ outside, thirdDisk, splice_outside (by omega), secondDisk,
      splice_outside (made.records offset inside), splice_inside _ _ _ inside, ← isRecord]
    change store 2 _ 26 2 offset = _
    rw [store_outside (by omega), recordAt]
    exact if_pos inside
  · refine @initialised_formed parent buffer id (blockBytes last number) made.numbers.1
      made.numbers.2 fun offset inside => ?_
    have here : InBlock volume.fs number (512 * (number * 8) + offset) := by
      rw [InBlock, made.eight]
      omega
    rw [blockBytes, lastEight, lastDisk _ (made.block _ here).1, thirdDisk,
      splice_inside _ _ _ (by omega), isEntries]

/-- Reading an inode adds to the log of accesses only. -/
theorem getInode_volume (volume : Volume) (id : Nat) : ∃ log, (getInode volume id).2 =
    { volume with device := { volume.device with log := log } } := by
  simp only [getInode]
  split <;> exact ⟨_, rfl⟩

/-- Reading does not change what has been made. -/
theorem Made.same {device : Device} (made : Made volume id number parent)
    (only : OnlyRead volume.device device) :
    Made { volume with device := device } id number parent := by
  obtain ⟨accepted, eight, reliable, one, some', small, numbers, records, block, record⟩ := made
  refine ⟨accepted, eight, ?_, ?_, some', small, numbers, records, block, record⟩
  · intro lba count
    rw [only.reads, only.writes]
    exact reliable lba count
  · simp only [only.disk]
    exact one

@[simp] theorem ignoreResult_volume (result : Outcome × Volume) :
    (ignoreResult result).2 = result.2 := by
  obtain ⟨outcome, last⟩ := result
  cases outcome <;> rfl

/-- When the entry has been made, the directory ends up with its two entries exactly if no entry `.`
is found in the block, or the block has these entries already. -/
theorem finishDir_initialises {created : Created}
    (made : Made created.volume created.inode number parent) (arrays : Arrays)
    (prevInode : Inode) :
    Initialised (finishDir created arrays prevInode parent).2 created.inode parent ↔
      (readDirEntry (oldBuffer created.volume number created.dir) dot).found = false ∨
      WellFormed (blockBytes created.volume number) 4096 (firstEntries created.inode parent) := by
  have record : (getInode created.volume created.inode).1 =
      recordAt created.volume.device.disk (takenPlace created.volume.fs created.inode) := by
    rw [getInode_at, if_pos (made.reliable _ _).1]
  obtain ⟨log, isNext⟩ := getInode_volume created.volume created.inode
  simp only [finishDir, record, isNext]
  have here := made.same (show OnlyRead created.volume.device
    { created.volume.device with log := log } from ⟨rfl, rfl, rfl⟩)
  have small : number * created.volume.fs.secPerBlock < 2 ^ 32 := by
    rw [made.eight]
    exact made.small
  obtain ⟨isRead, isBuffer⟩ := readFile_one here.reliable here.one here.some' small arrays.empty
    created.dir
  have only := readFile_onlyRead
    { created.volume with device := { created.volume.device with log := log } } arrays.empty
    created.dir (recordAt created.volume.device.disk (takenPlace created.volume.fs created.inode))
  generalize readFile { created.volume with device := { created.volume.device with log := log } }
    arrays.empty created.dir _ = read at *
  have there := here.same only
  have same : read.2.device.disk = created.volume.device.disk := only.disk
  have sameBuffer : read.2.buffer = oldBuffer created.volume number created.dir := isBuffer
  simp only [isRead, ne_eq, not_true_eq_false, if_false, sameBuffer, ignoreResult_volume]
  by_cases missing : (readDirEntry (oldBuffer created.volume number created.dir) dot).found = false
  · have written := initializeDir_writes there arrays.free prevInode missing
    simp only [same] at written
    exact iff_of_true written (.inl missing)
  · have found : (readDirEntry (oldBuffer created.volume number created.dir) dot).found = true := by
      simpa using missing
    simp only [initializeDir, found, if_true, Bool.true_eq_false, false_or]
    have sameBlock : blockBytes ⟨read.2.device, created.volume.fs⟩ number =
        blockBytes created.volume number := by
      funext offset
      simp only [blockBytes, same]
    rw [← sameBlock]
    exact initialised_iff there.reliable there.eight there.one there.some' there.small


end Initialising

/-- A byte outside the sectors of a bitmap that are searched. -/
def OutsideBitmap (fs : FsData) (kind : BitmapCounters.Kind) (probe : Nat) : Prop :=
  probe < 512 * (bitmapOf fs kind * fs.secPerBlock) ∨
    512 * (bitmapOf fs kind * fs.secPerBlock + (fs.blocks / 8 + 511) / 512) ≤ probe

/-- A byte that the creation of an inode leaves alone. -/
def Clear (fs : FsData) (id probe : Nat) : Prop :=
  Uncounted fs probe ∧ (∀ kind, OutsideBitmap fs kind probe) ∧ OutsideRecord fs id probe

section Allocation

/-- The search of a bitmap writes the sector that it searches only. -/
theorem searchSector_frame (device : Device) (lba mapIdx : Nat)
    (outside : probe < 512 * lba ∨ 512 * (lba + 1) ≤ probe) :
    (searchSector device lba mapIdx).2.disk probe = device.disk probe := by
  simp only [searchSector, Device.read]
  split
  · rfl
  · split
    · rfl
    · exact Device.write_outside _ _ _ _ (by omega)

/-- The search of a bitmap writes to its sectors only. -/
theorem findFrom_frame {sectors : Nat} (start : Nat) (places : List Nat)
    (inside : ∀ mapIdx ∈ places, mapIdx / 512 < sectors) (device : Device)
    (outside : probe < 512 * start ∨ 512 * (start + sectors) ≤ probe) :
    (findFrom device start places).2.disk probe = device.disk probe := by
  induction places generalizing device with
  | nil => rfl
  | cons mapIdx rest ih =>
    obtain ⟨here, later⟩ := forall_mem_cons.mp inside
    have first := @searchSector_frame probe device (start + mapIdx / 512) mapIdx (by omega)
    rw [findFrom]
    generalize searchSector device (start + mapIdx / 512) mapIdx = result at *
    obtain ⟨found, next⟩ := result
    cases found with
    | some id => exact first
    | none => exact (ih later next).trans first

/-- What an allocation leaves as it was. -/
structure Kept (changed : Nat → Prop) (before after : Volume) : Prop where
  geometry : Geometry before.fs after.fs
  accepted : Accepted after.fs
  reliable : Reliable after.device
  frame : ∀ probe, ¬ changed probe → after.device.disk probe = before.device.disk probe

theorem Kept.trans {changed : Nat → Prop} {before between after : Volume}
    (first : Kept changed before between) (second : Kept changed between after) :
    Kept changed before after :=
  ⟨first.geometry.trans second.geometry, second.accepted, second.reliable,
    fun probe outside => (second.frame probe outside).trans (first.frame probe outside)⟩

/-- An allocation leaves alone what is clear of the bitmaps and the counters. -/
theorem findFree_kept (kind : BitmapCounters.Kind) (accepted : Accepted volume.fs)
    (reliable : Reliable volume.device) (id : Nat) :
    Kept (fun probe => ¬ Clear volume.fs id probe) volume (findFree kind 0 volume).2 := by
  have steady := (findFree_steady kind 0 volume).reliable reliable
  have searched (probe : Nat) (outside : OutsideBitmap volume.fs kind probe) :
      (findFreeBitmap volume.device (volume.fs.blocks / 8) (bitmapOf volume.fs kind)
        volume.fs.secPerBlock 0).2.disk probe = volume.device.disk probe :=
    findFrom_frame _ _ (offsets_inside 0
      (show volume.fs.blocks / 8 ≤ 512 * ((volume.fs.blocks / 8 + 511) / 512) by omega))
      volume.device outside
  have geometry := count_geometry kind minusOne volume.fs
  have counted := Ext2Unlink.count_accepted accepted kind minusOne
  simp only [findFree] at steady ⊢
  generalize count kind minusOne volume.fs = less at *
  generalize findFreeBitmap _ _ _ _ _ = result at *
  obtain ⟨found, device⟩ := result
  simp only at steady searched ⊢
  split at steady
  · next some' =>
    rw [if_pos some']
    have same := (Ext2Unlink.update_reads ⟨device, less⟩).2.2
    refine ⟨?_, ?_, steady, fun probe clear => ?_⟩
    · rw [same]
      exact geometry
    · rw [same]
      exact counted
    · obtain ⟨uncounted, bitmap, _⟩ := not_not.mp clear
      have last := @Ext2Unlink.update_outside ⟨device, less⟩ counted probe
        ((Ext2Unlink.uncounted_congr geometry probe).mpr uncounted)
      rw [last]
      exact searched probe (bitmap kind)
  · next none' =>
    rw [if_neg none']
    exact ⟨.refl _, accepted, steady, fun probe clear =>
      searched probe ((not_not.mp clear).2.1 kind)⟩

/-- Which bytes are clear of the directory depends on the geometry only. -/
theorem clear_congr {fs other : FsData} (geometry : Geometry fs other) (id probe : Nat) :
    Clear other id probe ↔ Clear fs id probe := by
  have bitmaps (kind : BitmapCounters.Kind) :
      OutsideBitmap other kind probe ↔ OutsideBitmap fs kind probe := by
    cases kind <;>
      simp only [OutsideBitmap, bitmapOf, geometry.bitmap, geometry.inodes, geometry.sectors,
        geometry.blocks]
  simp only [Clear, Ext2Unlink.uncounted_congr geometry, bitmaps, OutsideRecord,
    takenPlace_congr geometry]

/-- The number of a block that is found has 32 bits. -/
theorem findFree_small (kind : BitmapCounters.Kind) (volume : Volume) :
    (findFree kind 0 volume).1 < 2 ^ 32 := by
  obtain ⟨_, outcome⟩ := findFrom_log (bitmapOf volume.fs kind * volume.fs.secPerBlock) _
    (offsets_inside 0
      (show volume.fs.blocks / 8 ≤ 512 * ((volume.fs.blocks / 8 + 511) / 512) by omega))
    volume.device
  rw [findFree_id, findFreeBitmap]
  rcases outcome with zero | ⟨position, _, _, isId⟩
  · rw [zero]
    decide
  · rw [isId]
    exact Nat.mod_lt _ (by decide)

theorem Kept.mono {changed wider : Nat → Prop} {before after : Volume}
    (kept : Kept changed before after) (included : ∀ probe, changed probe → wider probe) :
    Kept wider before after :=
  ⟨kept.geometry, kept.accepted, kept.reliable,
    fun probe outside => kept.frame probe fun inside => outside (included probe inside)⟩

/-- The pointers of the record that `__ext2_create_new_inode` writes. -/
theorem created_one (bytes disk : Bytes) (place : Nat) (small : number < 2 ^ 32) :
    One (recordAt (splice disk place 128 (fill (store 4 bytes 40 number) 44 56 0)) place)
      number := by
  have kept (address : Nat) (inside : address + 4 ≤ 128) :
      load 4 (recordAt (splice disk place 128 (fill (store 4 bytes 40 number) 44 56 0)) place).bytes
        address = load 4 (fill (store 4 bytes 40 number) 44 56 0) address := by
    refine load_congr _ _ _ _ fun probe lower upper => ?_
    have below : probe < 128 := by omega
    simp only [recordAt, if_pos below]
    exact splice_inside _ _ _ below
  have zero (address : Nat) (behind : 44 ≤ address) (inside : address + 4 ≤ 100) :
      load 4 (fill (store 4 bytes 40 number) 44 56 0) address = 0 := by
    refine (load_congr 4 _ (fun _ => 0) _ fun probe lower upper => ?_).trans (by simp [load])
    rw [fill, if_pos (by omega)]
  refine ⟨?_, fun index positive below => ?_, (kept 88 (by omega)).trans (zero 88 (by omega) (by omega))⟩
  · refine (kept 40 (by omega)).trans ?_
    rw [load_congr 4 _ (store 4 bytes 40 number) 40 fun probe lower upper => ?_]
    · rw [load_store_same]
      exact Nat.mod_eq_of_lt small
    · rw [fill, if_neg (by omega)]
  · exact (kept (40 + 4 * index) (by omega)).trans (zero _ (by omega) (by omega))

/-- The block that a new inode gets. -/
def freshBlock (volume : Volume) : Nat :=
  (findFreeBlocks (getInode (findFreeInode volume).2 (findFreeInode volume).1).2).1

/-- `__ext2_create_new_inode` writes bitmaps, counters and the record of the new inode, which then
has one block. -/
theorem createNewInode_kept (accepted : Accepted volume.fs) (reliable : Reliable volume.device)
    (fileSize mode : Nat) (times : Nat → Nat) :
    Kept (fun probe => ¬ Clear volume.fs (findFreeInode volume).1 probe) volume
      (createNewInode volume fileSize mode times).2 ∧
    One (recordAt (createNewInode volume fileSize mode times).2.device.disk
      (takenPlace volume.fs (findFreeInode volume).1)) (freshBlock volume) := by
  have first := findFree_kept .inode accepted reliable (findFreeInode volume).1
  obtain ⟨log, isRead⟩ := getInode_volume (findFreeInode volume).2 (findFreeInode volume).1
  have second : Kept (fun probe => ¬ Clear volume.fs (findFreeInode volume).1 probe)
      (findFreeInode volume).2 (getInode (findFreeInode volume).2 (findFreeInode volume).1).2 := by
    rw [isRead]
    exact ⟨.refl _, first.accepted, fun lba count => first.reliable lba count, fun _ _ => rfl⟩
  have early := Kept.trans first second
  have small := findFree_small .block
    (getInode (findFreeInode volume).2 (findFreeInode volume).1).2
  have third := findFree_kept .block early.accepted early.reliable (findFreeInode volume).1
  have all := early.trans (third.mono fun probe unclear clear =>
    unclear ((clear_congr early.geometry _ probe).mpr clear))
  rw [createNewInode]
  simp only [freshBlock, findFreeBlocks] at *
  generalize freshInode _ fileSize mode times = inode
  generalize findFree .block 0 _ = found at *
  generalize (findFreeInode volume).1 = id at *
  obtain ⟨number, next⟩ := found
  simp only at *
  obtain ⟨disk, lastReliable, sameFs⟩ := updateInodeTable_reliable all.reliable id
    ⟨fill (store 4 inode.bytes 40 number) 44 56 0⟩
  generalize (updateInodeTable next id _).2 = last at *
  rw [takenPlace_congr all.geometry] at disk
  refine ⟨⟨?_, ?_, lastReliable, fun probe clear => ?_⟩, ?_⟩
  · rw [sameFs]
    exact all.geometry
  · rw [sameFs]
    exact all.accepted
  · rw [disk, splice_outside (not_not.mp clear).2.2]
    exact all.frame probe clear
  · rw [disk]
    exact created_one inode.bytes _ _ small

end Allocation

/-- A volume on which a directory can be made. Blocks have 4096 bytes, and no access fails. The block
that is found free is apart from the counters, the searched bitmaps, the records of
the two inodes and the blocks of the parent. These have sectors of 32 bits and are apart from the
record of the inode that is found free, and the indirect block of the parent is none of the direct
ones and apart from all that an allocation writes. -/
structure Fresh (volume : Volume) (stack : Bytes) (dirInode : Inode) (parent : Nat) : Prop where
  accepted : Accepted volume.fs
  eight : volume.fs.secPerBlock = 8
  reliable : Reliable volume.device
  some' : freshBlock volume ≠ 0
  small : freshBlock volume * 8 < 2 ^ 32
  parentSmall : parent < 2 ^ 32
  records : ∀ offset < 128, OutsideRecord volume.fs parent
    (takenPlace volume.fs (findFreeInode volume).1 + offset)
  block : ∀ probe, InBlock volume.fs (freshBlock volume) probe →
    Clear volume.fs (findFreeInode volume).1 probe ∧ OutsideRecord volume.fs parent probe ∧
      Beside volume.fs (pointers volume stack dirInode) probe
  record : ∀ offset < 128,
    Uncounted volume.fs (takenPlace volume.fs (findFreeInode volume).1 + offset) ∧
      Beside volume.fs (pointers volume stack dirInode)
        (takenPlace volume.fs (findFreeInode volume).1 + offset)
  blocks : ∀ number ∈ pointers volume stack dirInode, number * volume.fs.secPerBlock < 2 ^ 32
  apart : dirInode.sibp ∈ direct dirInode → dirInode.sibp = 0
  single : dirInode.sibp ≠ 0 → ∀ probe, InBlock volume.fs dirInode.sibp probe →
    Clear volume.fs (findFreeInode volume).1 probe

section Creation

variable {dirInode : Inode} {filename : List UInt8} {type : Nat} {times : Nat → Nat}

/-- When the entry has been made and the parent is written back, the new inode has its block, and the
block has its old bytes. -/
theorem created_made (fresh : Fresh volume stack dirInode parent)
    (some' : (createNewDirEntry volume stack dir filename dirInode 4096 type times).inode ≠ 0) :
    (createNewDirEntry volume stack dir filename dirInode 4096 type times).inode =
        (findFreeInode volume).1 ∧
      Made (createNewDirEntry volume stack dir filename dirInode 4096 type times).volume
        (findFreeInode volume).1 (freshBlock volume) parent ∧
      ∀ offset < 4096,
        blockBytes (createNewDirEntry volume stack dir filename dirInode 4096 type times).volume
          (freshBlock volume) offset = blockBytes volume (freshBlock volume) offset := by
  have ⟨kept, one⟩ := createNewInode_kept fresh.accepted fresh.reliable 4096 (modeOf type) times
  have isId : (createNewInode volume 4096 (modeOf type) times).1 = (findFreeInode volume).1 := rfl
  have idSmall : (findFreeInode volume).1 < 2 ^ 32 := findFree_small .inode volume
  obtain ⟨accepted, eight, reliable, someBlock, small, parentSmall, records, block, record, blocks,
    apart, single⟩ := fresh
  simp only [createNewDirEntry] at some' ⊢
  split at some'
  · exact absurd rfl some'
  · next accepts =>
    rw [if_neg accepts]
    generalize createNewInode volume 4096 (modeOf type) times = created at *
    generalize (findFreeInode volume).1 = id at *
    generalize freshBlock volume = number at *
    obtain ⟨newId, next⟩ := created
    simp only at kept one isId ⊢
    subst isId
    generalize splitEntry dir _ _ _ filename type newId = written
    have same : pointers next stack dirInode = pointers volume stack dirInode :=
      Ext2Unlink.pointers_congr kept.geometry.sectors (blocks _ mem_cons_self)
        fun isSingle probe inBlock => kept.frame probe (not_not.mpr (single isSingle probe inBlock))
    have exact' := @updateDirEntry_exact next stack dirInode written
      (fun number member => by
        rw [kept.geometry.sectors]
        exact blocks number (same ▸ member)) apart
    have sameFs := updateDirEntry_fs next stack dirInode written
    rw [same] at exact'
    generalize updateDirEntry next stack dirInode written = result at *
    obtain ⟨outcome, after⟩ := result
    have geometry : Geometry volume.fs after.fs := by
      rw [sameFs]
      exact kept.geometry
    have frame (probe : Nat) (beside : Beside volume.fs (pointers volume stack dirInode) probe) :
        after.device.disk probe = next.device.disk probe := by
      refine exact'.frame probe ?_
      rw [Beside, kept.geometry.sectors]
      exact beside
    have made : Made after newId number parent := by
      refine ⟨?_, geometry.sectors.trans eight, fun lba count => ?_, ?_, someBlock, small,
        ⟨idSmall, parentSmall⟩, fun offset inside => ?_, fun probe inBlock => ?_,
        fun offset inside => ⟨?_, fun inBlock => ?_⟩⟩
      · rw [sameFs]
        exact kept.accepted
      · rw [exact'.logged.reads, exact'.logged.writes]
        exact kept.reliable lba count
      · rw [takenPlace_congr geometry]
        exact one.congr fun offset _ inside => frame _ (record offset inside).2
      · rw [OutsideRecord, takenPlace_congr geometry, takenPlace_congr geometry]
        exact records offset inside
      · rw [Ext2Unlink.inBlock_congr geometry] at inBlock
        obtain ⟨clear, outside, _⟩ := block probe inBlock
        rw [Ext2Unlink.uncounted_congr geometry, OutsideRecord, OutsideRecord,
          takenPlace_congr geometry, takenPlace_congr geometry]
        exact ⟨clear.1, clear.2.2, outside⟩
      · rw [Ext2Unlink.uncounted_congr geometry, takenPlace_congr geometry]
        exact (record offset inside).1
      · rw [Ext2Unlink.inBlock_congr geometry, takenPlace_congr geometry] at inBlock
        have outside := (block _ inBlock).1.2.2
        rw [OutsideRecord] at outside
        omega
    have bytes (offset : Nat) (inside : offset < 4096) :
        blockBytes after number offset = blockBytes volume number offset := by
      have inBlock : InBlock volume.fs number
          (512 * (number * volume.fs.secPerBlock) + offset) := by
        rw [InBlock, eight]
        omega
      obtain ⟨clear, _, beside⟩ := block _ inBlock
      simp only [blockBytes, geometry.sectors]
      exact (frame _ beside).trans (kept.frame _ (not_not.mpr clear))
    cases outcome <;> exact ⟨rfl, made, bytes⟩

end Creation

/-- The volume when the parent has been read; only the list of accesses differs. -/
def opened (volume : Volume) (arrays : Arrays) (heap : Bytes) (dirInode : Inode) : Volume :=
  { volume with device := (readFile volume arrays.read heap dirInode).2.device }

/-- The directory in memory with the new entry, in the buffer that the new block is read into. -/
def extended (volume : Volume) (arrays : Arrays) (heap : Bytes) (dirInode : Inode)
    (filename : List UInt8) (times : Nat → Nat) : Bytes :=
  (createNewDirEntry (opened volume arrays heap dirInode) arrays.update
    (readFile volume arrays.read heap dirInode).2.buffer filename dirInode 4096 directoryType
    times).dir

/-- A volume of 64 blocks of 4096 bytes. The bitmaps are blocks 2 and 3, the inode table is block 4,
and the directory with inode 2 has block 8, with an entry for itself. Inode 12 and block 11, which
holds some old bytes, are the first that are free. -/
def image (old : List UInt8) : Bytes :=
  copy (copy (copy (copy (store 4 (store 4 (store 4 (store 2 (store 4 (store 4 (store 4 (fun _ => 0)
    1028 64) 1048 2) 1064 64) 1080 ext2Signature) 4096 2) 4100 3) 4104 4) 8192 [0xff, 3])
    12288 [0xff, 7]) 32768 [2, 0, 0, 0, 0, 16, 1, 2, 46]) 45056 old

@[inherit_doc image] def imageVolume (old : List UInt8) : Volume where
  device := { disk := image old, reads := fun _ _ => true, writes := fun _ _ => true, log := [] }
  fs := fsDataOf (fun _ => 0) (fun offset => image old (1024 + offset))
    fun offset => image old (4096 + offset)

@[inherit_doc image] def imageParent : Inode := ⟨store 4 (store 4 (fun _ => 0) 4 4096) 40 8⟩

@[inherit_doc image] def imageOpened (old : List UInt8) : Volume :=
  opened (imageVolume old) Ext2Unlink.zeroArrays (fun _ => 0) imageParent

/-- A directory `a` is made in it. -/
def imageMkdir (old : List UInt8) : Outcome × Volume :=
  ext2Mkdir (imageVolume old) Ext2Unlink.zeroArrays (fun _ => 0) [97] imageParent 2 [97] fun _ => 9

/-- A new directory can be made in the image of zeros. -/
theorem image_fresh : Fresh (imageOpened []) Ext2Unlink.zeroArrays.update imageParent 2 := by
  have accepted : Accepted (imageOpened []).fs :=
    ⟨by decide +kernel, by decide +kernel, by decide +kernel⟩
  have reliable : Reliable (imageOpened []).device := by
    have only := readFile_onlyRead (imageVolume []) Ext2Unlink.zeroArrays.read (fun _ => 0)
      imageParent
    intro lba count
    exact ⟨congrFun (congrFun only.reads lba) count, congrFun (congrFun only.writes lba) count⟩
  have eight : (imageOpened []).fs.secPerBlock = 8 := by decide +kernel
  have group : groupDescriptor (imageOpened []).fs = 4096 := by decide +kernel
  have blocks : (imageOpened []).fs.blocks = 64 := by decide +kernel
  have blockMap : (imageOpened []).fs.blockBitmap = 2 := by decide +kernel
  have inodeMap : (imageOpened []).fs.inodeBitmap = 3 := by decide +kernel
  have isId : (findFreeInode (imageOpened [])).1 = 12 := by decide +kernel
  have isBlock : freshBlock (imageOpened []) = 11 := by decide +kernel
  have place : takenPlace (imageOpened []).fs 12 = 17792 := by decide +kernel
  have parentPlace : takenPlace (imageOpened []).fs 2 = 16512 := by decide +kernel
  have numbers : pointers (imageOpened []) Ext2Unlink.zeroArrays.update imageParent =
      0 :: 8 :: replicate 11 0 := by decide +kernel
  generalize imageOpened [] = volume at *
  have beside (probe : Nat) (outside : probe < 32768 ∨ 36864 ≤ probe) :
      Beside volume.fs (0 :: 8 :: replicate 11 0) probe := by
    intro number member nonzero
    have isEight : number = 8 := by
      simp only [mem_cons, mem_replicate] at member
      omega
    rw [isEight, eight]
    omega
  refine ⟨accepted, eight, reliable, ?_, ?_, by decide, fun offset inside => ?_,
    fun probe inBlock => ?_, fun offset inside => ?_, fun number member => ?_, by decide,
    fun single => absurd (by decide) single⟩
  · rw [isBlock]
    decide
  · rw [isBlock]
    decide
  · rw [isId, OutsideRecord, place, parentPlace]
    omega
  · rw [isBlock, InBlock, eight] at inBlock
    rw [isId, numbers]
    refine ⟨⟨?_, fun kind => ?_, ?_⟩, ?_, beside probe (by omega)⟩
    · rw [Uncounted, group]
      omega
    · cases kind <;> simp only [OutsideBitmap, bitmapOf, blockMap, inodeMap, eight, blocks] <;> omega
    · rw [OutsideRecord, place]
      omega
    · rw [OutsideRecord, parentPlace]
      omega
  · rw [isId, place, numbers, Uncounted, group]
    exact ⟨by omega, beside _ (by omega)⟩
  · rw [numbers] at member
    simp only [mem_cons, mem_replicate] at member
    rw [eight]
    omega

end Balrog.NewDirectory
