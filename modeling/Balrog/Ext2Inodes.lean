import Balrog.Ext2Volume

/-!
# The inode table

An inode is found in three steps: a block of the inode table, the sectors that are read from there,
and an index into an array of records of 128 bytes. The first step takes a block for 32 inodes, or
for 16 if inodes have 256 bytes, which is right for blocks of 4096 bytes only; the last step takes
128 bytes for an inode whatever the size of inodes is. So inodes of 256 bytes are looked for in the
wrong half of their block.

An inode is the bytes of its record. The page that the sectors are read into is always there.
-/

namespace Balrog.Ext2Inodes

open ByteMemory Ext2Volume

/-- `ext2_inode`: the bytes of a record, with zeros behind them. -/
structure Inode where
  bytes : Bytes

namespace Inode

variable (inode : Inode)

/-- `mode` -/
def mode : Nat := load 2 inode.bytes 0

/-- `size` -/
def size : Nat := load 4 inode.bytes 4

/-- `hard_link_count` -/
def hardLinkCount : Nat := load 2 inode.bytes 26

/-- `dbp` -/
def dbp (index : Nat) : Nat := load 4 inode.bytes (40 + 4 * index)

/-- `sibp` -/
def sibp : Nat := load 4 inode.bytes 88

/-- `dibp` -/
def dibp : Nat := load 4 inode.bytes 92

/-- `tibp` -/
def tibp : Nat := load 4 inode.bytes 96

end Inode

/-- The inode record of 128 bytes that stands at an address. -/
def recordAt (bytes : Bytes) (address : Nat) : Inode :=
  ⟨fun offset => if offset < 128 then bytes (address + offset) else 0⟩

/-- `__inode_size_divider` -/
def inodeSizeDivider (fs : FsData) : Nat :=
  if fs.inodeSize ≠ 0 ∧ fs.inodeSize = 256 then 16 else 32

/-- `inode_idx - 1` -/
def indexOf (inodeIdx : Nat) : Nat := (inodeIdx + (2 ^ 32 - 1)) % 2 ^ 32

/-- The first of the sectors that hold an inode. -/
def tableLba (fs : FsData) (inodeIdx : Nat) : Nat :=
  (fs.inodeTable + indexOf inodeIdx / inodeSizeDivider fs) % 2 ^ 32 * fs.secPerBlock % 2 ^ 32

/-- `ext2_get_inode` -/
def getInode (volume : Volume) (inodeIdx : Nat) : Inode × Volume :=
  let (table, device) := volume.device.read (tableLba volume.fs inodeIdx) 8
  match table with
  | none => (⟨fun _ => 0⟩, { volume with device := device })
  | some table =>
    (recordAt table (128 * (indexOf inodeIdx % inodeSizeDivider volume.fs)),
      { volume with device := device })

/-- `__ext2_update_inode_table` -/
def updateInodeTable (volume : Volume) (inodeIdx : Nat) (inode : Inode) : Bool × Volume :=
  let lba := tableLba volume.fs inodeIdx
  let (table, device) := volume.device.read lba 8
  match table with
  | none => (false, { volume with device := device })
  | some table =>
    let place := 128 * (indexOf inodeIdx % inodeSizeDivider volume.fs)
    let (written, device) := device.write (splice table place 128 inode.bytes) lba 8
    (written, { volume with device := device })

/-- The size of an inode on the device. Volumes of the first version have no field for it. -/
def recordSize (fs : FsData) : Nat := if fs.majorVersion = 0 then 128 else fs.inodeSize

/-- The place of an inode of the first group on the device, as the format has it. -/
def recordPlace (fs : FsData) (inodeIdx : Nat) : Nat :=
  fs.inodeTable * fs.blockSize + (inodeIdx - 1) * recordSize fs

/-- The place of the record that the code takes for an inode. -/
def takenPlace (fs : FsData) (inodeIdx : Nat) : Nat :=
  512 * tableLba fs inodeIdx + 128 * (indexOf inodeIdx % inodeSizeDivider fs)

/-- On every device that answers, `ext2_get_inode` returns the record of an inode. -/
def Finds (fs : FsData) (inodeIdx : Nat) : Prop :=
  ∀ device : Device, (∀ lba, device.reads lba 8 = true) →
    (getInode ⟨device, fs⟩ inodeIdx).1 = recordAt device.disk (recordPlace fs inodeIdx)

/-- On every device, a written inode is read back, the others of the group stay, and so does every
byte outside its record. -/
def Updates (fs : FsData) (inodeIdx : Nat) : Prop :=
  ∀ (device : Device) (inode : Inode), (updateInodeTable ⟨device, fs⟩ inodeIdx inode).1 = true →
    (getInode (updateInodeTable ⟨device, fs⟩ inodeIdx inode).2 inodeIdx).1 =
      recordAt inode.bytes 0 ∧
    (∀ other, 1 ≤ other → other ≤ fs.inodePerGrp → other ≠ inodeIdx →
      (getInode (updateInodeTable ⟨device, fs⟩ inodeIdx inode).2 other).1 =
        (getInode ⟨device, fs⟩ other).1) ∧
    ∀ probe, probe < recordPlace fs inodeIdx ∨ recordPlace fs inodeIdx + 128 ≤ probe →
      (updateInodeTable ⟨device, fs⟩ inodeIdx inode).2.device.disk probe = device.disk probe

theorem indexOf_eq {inodeIdx : Nat} (positive : 1 ≤ inodeIdx) (small : inodeIdx < 2 ^ 32) :
    indexOf inodeIdx = inodeIdx - 1 := by
  rw [indexOf]
  omega

variable {fs : FsData} {inodeIdx : Nat}

/-- The number of an inode of the group has 32 bits. -/
theorem group_small (inGroup : inodeIdx ≤ fs.inodePerGrp) : inodeIdx < 2 ^ 32 :=
  Nat.lt_of_le_of_lt inGroup (load_lt 4 fs.bytes 40)

/-- The place that the code takes, where the sectors of the table have numbers of 32 bits. -/
theorem takenPlace_eq (accepted : Accepted fs) (positive : 1 ≤ inodeIdx)
    (inGroup : inodeIdx ≤ fs.inodePerGrp)
    (sectors : (fs.inodeTable + (inodeIdx - 1) / inodeSizeDivider fs) * fs.secPerBlock < 2 ^ 32) :
    takenPlace fs inodeIdx = fs.inodeTable * fs.blockSize +
      ((inodeIdx - 1) / inodeSizeDivider fs * fs.blockSize +
        128 * ((inodeIdx - 1) % inodeSizeDivider fs)) := by
  have whole := accepted.whole
  have lba : tableLba fs inodeIdx =
      (fs.inodeTable + (inodeIdx - 1) / inodeSizeDivider fs) * fs.secPerBlock := by
    rw [tableLba, indexOf_eq positive (group_small inGroup)]
    by_cases none' : fs.secPerBlock = 0
    · rw [none', Nat.mul_zero, Nat.mul_zero, Nat.zero_mod]
    · have fits : fs.inodeTable + (inodeIdx - 1) / inodeSizeDivider fs < 2 ^ 32 :=
        Nat.lt_of_le_of_lt (Nat.le_mul_of_pos_right _ (Nat.pos_of_ne_zero none')) sectors
      rw [Nat.mod_eq_of_lt fits, Nat.mod_eq_of_lt sectors]
  rw [takenPlace, lba, indexOf_eq positive (group_small inGroup), whole, Nat.add_mul, Nat.mul_add,
    Nat.mul_left_comm 512, Nat.mul_left_comm 512, Nat.add_assoc]

theorem getInode_at (volume : Volume) (inodeIdx : Nat) : (getInode volume inodeIdx).1 =
    if volume.device.reads (tableLba volume.fs inodeIdx) 8 then
      recordAt volume.device.disk (takenPlace volume.fs inodeIdx)
    else ⟨fun _ => 0⟩ := by
  simp only [getInode, Device.read]
  split
  · next isTable =>
    rw [if_neg fun reads => by simp [reads] at isTable]
  · next isTable =>
    split at isTable
    · next reads =>
      obtain rfl := Option.some.inj isTable
      simp only [if_pos reads, recordAt, takenPlace, Nat.add_assoc]
    · cases isTable

/-- An inode is found on every device exactly if the code takes the place that the format has. -/
theorem finds_iff (fs : FsData) (inodeIdx : Nat) :
    Finds fs inodeIdx ↔ takenPlace fs inodeIdx = recordPlace fs inodeIdx := by
  constructor
  · intro finds
    -- a device whose only byte that is not zero is the first one of the record
    have found := finds ⟨put (fun _ => 0) (recordPlace fs inodeIdx) 1, fun _ _ => true,
      fun _ _ => true, []⟩ fun _ => rfl
    rw [getInode_at, if_pos rfl] at found
    have first := congrFun (congrArg Inode.bytes found) 0
    by_contra different
    simp [recordAt, put, different] at first
  · intro same device reads
    rw [getInode_at, if_pos (reads _), same]

/-- Writing an inode changes no byte, or those of its record. -/
theorem updateInodeTable_cases (volume : Volume) (inodeIdx : Nat) (inode : Inode) : ∃ log,
    updateInodeTable volume inodeIdx inode =
      (false, { volume with device := { volume.device with log := log } }) ∨
    volume.device.reads (tableLba volume.fs inodeIdx) 8 = true ∧
      updateInodeTable volume inodeIdx inode = (true, { volume with device :=
        { volume.device with
          disk := splice volume.device.disk (takenPlace volume.fs inodeIdx) 128 inode.bytes
          log := log } }) := by
  have inside : 128 * (indexOf inodeIdx % inodeSizeDivider volume.fs) + 128 ≤ 512 * 8 := by
    rw [inodeSizeDivider]
    split <;> omega
  simp only [updateInodeTable, Device.read, Device.write]
  by_cases reads : volume.device.reads (tableLba volume.fs inodeIdx) 8 = true
  · simp only [if_pos reads, splice_window volume.device.disk _ inode.bytes inside]
    split
    · exact ⟨_, .inr ⟨reads, rfl⟩⟩
    · exact ⟨_, .inl rfl⟩
  · simp only [if_neg reads]
    exact ⟨_, .inl rfl⟩

/-- The records of two inodes do not overlap in a table of blocks of 4096 bytes, also where the
numbers of its sectors wrap. -/
theorem takenPlace_apart (eight : fs.secPerBlock = 8) {other : Nat} (positive : 1 ≤ inodeIdx)
    (inGroup : inodeIdx ≤ fs.inodePerGrp) (otherPositive : 1 ≤ other)
    (otherInGroup : other ≤ fs.inodePerGrp) (different : other ≠ inodeIdx) :
    takenPlace fs other + 128 ≤ takenPlace fs inodeIdx ∨
      takenPlace fs inodeIdx + 128 ≤ takenPlace fs other := by
  have small := group_small inGroup
  have otherSmall := group_small otherInGroup
  have divider : inodeSizeDivider fs = 16 ∨ inodeSizeDivider fs = 32 := by
    rw [inodeSizeDivider]
    split
    · exact .inl rfl
    · exact .inr rfl
  rw [takenPlace, takenPlace, tableLba, tableLba, eight, indexOf_eq positive small,
    indexOf_eq otherPositive otherSmall]
  rcases divider with isDivider | isDivider <;> rw [isDivider] <;> omega

/-- With blocks of 4096 bytes and inodes of 128 bytes the code takes the place that the format has,
if the field for the size is not 256, or for the first 16 inodes; and if the sector of the record
has a number of 32 bits. -/
theorem takenPlace_iff (eight : fs.secPerBlock = 8) (large : fs.blockSize = 4096)
    (record : recordSize fs = 128) (positive : 1 ≤ inodeIdx) (inGroup : inodeIdx ≤ fs.inodePerGrp) :
    takenPlace fs inodeIdx = recordPlace fs inodeIdx ↔
      (fs.inodeSize ≠ 256 ∨ inodeIdx ≤ 16) ∧
        (fs.inodeTable + (inodeIdx - 1) / 32) * fs.secPerBlock < 2 ^ 32 := by
  have small := group_small inGroup
  have table : fs.inodeTable < 2 ^ 32 := load_lt 4 fs.bytes 1032
  rw [takenPlace, tableLba, recordPlace, indexOf_eq positive small, record, large, eight,
    inodeSizeDivider]
  by_cases field : fs.inodeSize = 256
  · have sixteen : fs.inodeSize ≠ 0 ∧ fs.inodeSize = 256 := by omega
    rw [if_pos sixteen]
    omega
  · rw [if_neg fun both => field both.2]
    omega

/-- With blocks of 4096 bytes and inodes of 128 bytes, a written inode is read back, the others stay
and so does every byte outside its record, on every device, exactly if the field for the size is not
256 or the inode is one of the first 16, and the sector of its record has a number of 32 bits. -/
theorem inode_updated_iff (fs : FsData) (accepted : Accepted fs) (large : fs.blockSize = 4096)
    (record : recordSize fs = 128) (inodeIdx : Nat) (positive : 1 ≤ inodeIdx)
    (inGroup : inodeIdx ≤ fs.inodePerGrp) :
    Updates fs inodeIdx ↔ (fs.inodeSize ≠ 256 ∨ inodeIdx ≤ 16) ∧
      (fs.inodeTable + (inodeIdx - 1) / 32) * fs.secPerBlock < 2 ^ 32 := by
  have whole := accepted.whole
  have eight : fs.secPerBlock = 8 := by omega
  rw [← takenPlace_iff eight large record positive inGroup]
  constructor
  · intro updates
    -- ones are written to a device of zeros
    let device : Device := ⟨fun _ => 0, fun _ _ => true, fun _ _ => true, []⟩
    obtain ⟨log, failed | ⟨_, changed⟩⟩ :=
      updateInodeTable_cases ⟨device, fs⟩ inodeIdx ⟨fun _ => 1⟩
    · simp [updateInodeTable, Device.read, Device.write, device] at failed
    · obtain ⟨_, _, kept⟩ := updates device ⟨fun _ => 1⟩ (by rw [changed])
      have disk : (updateInodeTable ⟨device, fs⟩ inodeIdx ⟨fun _ => 1⟩).2.device.disk =
          splice device.disk (takenPlace fs inodeIdx) 128 fun _ => 1 := by rw [changed]
      have inRecord : ∀ offset < 128, recordPlace fs inodeIdx ≤ takenPlace fs inodeIdx + offset ∧
          takenPlace fs inodeIdx + offset < recordPlace fs inodeIdx + 128 := by
        intro offset inside
        by_contra outside
        have same := kept (takenPlace fs inodeIdx + offset) (by omega)
        rw [disk, splice_inside _ _ _ inside] at same
        exact absurd same (by simp [device])
      have start := inRecord 0 (by decide)
      have stop := inRecord 127 (by decide)
      omega
  · intro place device inode done
    obtain ⟨log, failed | ⟨reads, changed⟩⟩ := updateInodeTable_cases ⟨device, fs⟩ inodeIdx inode
    · rw [failed] at done
      cases done
    simp only [getInode_at, changed, if_pos reads]
    refine ⟨congrArg Inode.mk (funext fun offset => ?_),
      fun other otherPositive otherInGroup different => ?_, fun probe outside => ?_⟩
    · split
      · next inside => rw [splice_inside _ _ _ inside, Nat.zero_add]
      · rfl
    · have apart := takenPlace_apart eight positive inGroup otherPositive otherInGroup different
      refine if_congr Iff.rfl (congrArg Inode.mk (funext fun offset => ?_)) rfl
      split
      · next inside => exact splice_outside (by omega)
      · rfl
    · rw [place]
      exact splice_outside outside

/-- A device with blocks of 4096 bytes, inodes of some size, and the inode table in block 5. The
second record of 128 bytes begins with 7, the third one with 9. -/
def tableDevice (size : Nat) : Device where
  disk := put (put (store 4 (store 2 (store 4 (store 4 (store 4 (store 2 (fun _ => 0) 1080
    ext2Signature) 1048 2) 1064 16) 1100 1) 1112 size) 4104 5) 20608 7) 20736 9
  reads _ _ := true
  writes _ _ := true
  log := []

/-- What `ext2_probe` makes of it. -/
def tableFs (size : Nat) : FsData :=
  fsDataOf (fun _ => 0) (fun offset => (tableDevice size).disk (512 * 2 + offset))
    fun offset => (tableDevice size).disk (512 * 8 + offset)

/-- The first two inodes of 128 bytes. -/
theorem inode_updated_first :
    (getInode (updateInodeTable ⟨tableDevice 128, tableFs 128⟩ 1 ⟨fun _ => 3⟩).2 2).1 =
      (getInode ⟨tableDevice 128, tableFs 128⟩ 2).1 := by
  have updates := (inode_updated_iff (tableFs 128) ⟨by decide +kernel, by decide +kernel,
    by decide +kernel⟩ (by decide +kernel) (by decide +kernel) 1 (by decide)
    (by decide +kernel)).mpr ⟨by decide +kernel, by decide +kernel⟩
  exact (updates (tableDevice 128) ⟨fun _ => 3⟩ rfl).2.1 2 (by decide) (by decide +kernel) (by decide)

/-- The same device, but with the inode table in a block that begins at sector 2 ^ 32. -/
def farDevice : Device :=
  { tableDevice 128 with disk := store 4 (tableDevice 128).disk 4104 (2 ^ 29) }

/-- There the first inode is written over the start of the device. -/
theorem far_table_overwrites : ∃ fs, (ext2Probe farDevice fun _ => 0).1 = some fs ∧
    fs.blockSize = 4096 ∧ recordSize fs = 128 ∧ 1 ≤ fs.inodePerGrp ∧ recordPlace fs 1 = 2 ^ 41 ∧
    (updateInodeTable ⟨farDevice, fs⟩ 1 ⟨fun _ => 3⟩).1 = true ∧ farDevice.disk 0 = 0 ∧
    (updateInodeTable ⟨farDevice, fs⟩ 1 ⟨fun _ => 3⟩).2.device.disk 0 = 3 :=
  ⟨_, rfl, by decide +kernel, by decide +kernel, by decide +kernel, by decide +kernel, rfl,
    by decide +kernel, by decide +kernel⟩

end Balrog.Ext2Inodes
