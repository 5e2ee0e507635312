import Balrog.ByteMemory

/-!
# An ext2 volume and what is known of it in memory

A volume is a device and `ext2_fs_data`, which `ext2_probe` fills: the superblock, the first group
descriptor, and the block size. Both are bytes. The structure is packed, so its fields are at fixed
places, and behind it is whatever the heap holds there.

`__ext2_update_sb_and_blk_desc` writes the superblock and the descriptor back. A device is written
in sectors: the sector of the descriptor gets its 32 bytes and then what follows them in memory,
which are the two fields for the block size and bytes of the heap. On the device these places hold
the descriptors of the other groups.

A device has a byte for every address, 512 of them to a sector. A read or a write of some sectors
may fail, and then has no effect. The device keeps a list of the accesses.
-/

namespace Balrog.Ext2Volume

open ByteMemory

/-- An access to the device, as the log keeps it. -/
inductive Access where
  | read (lba count : Nat)
  | write (lba count : Nat)
deriving DecidableEq, Repr

/-- The bytes of a device, which accesses succeed, and the accesses so far. -/
structure Device where
  disk : Bytes
  reads : Nat → Nat → Bool
  writes : Nat → Nat → Bool
  log : List Access

/-- `dev->read` -/
def Device.read (device : Device) (lba count : Nat) : Option Bytes × Device :=
  (if device.reads lba count then some fun offset => device.disk (512 * lba + offset) else none,
    { device with log := device.log ++ [.read lba count] })

/-- `dev->write` -/
def Device.write (device : Device) (data : Bytes) (lba count : Nat) : Bool × Device :=
  if device.writes lba count then
    (true, { device with
      disk := splice device.disk (512 * lba) (512 * count) data
      log := device.log ++ [.write lba count] })
  else (false, { device with log := device.log ++ [.write lba count] })

/-- `ext2_fs_data` and the memory behind it. -/
structure FsData where
  bytes : Bytes

namespace FsData

variable (fs : FsData)

/-- `sb.inodes` -/
def inodes : Nat := load 4 fs.bytes 0

/-- `sb.blocks` -/
def blocks : Nat := load 4 fs.bytes 4

/-- `sb.unalloc_blocks` -/
def unallocBlocks : Nat := load 4 fs.bytes 12

/-- `sb.unalloc_inodes` -/
def unallocInodes : Nat := load 4 fs.bytes 16

/-- `sb.superblock_id`, the number of the first block that the bitmap describes. -/
def superblockId : Nat := load 4 fs.bytes 20

/-- `sb.block_size_hint` -/
def blockSizeHint : Nat := load 4 fs.bytes 24

/-- `sb.inode_per_grp` -/
def inodePerGrp : Nat := load 4 fs.bytes 40

/-- `sb.ext2_signature` -/
def signature : Nat := load 2 fs.bytes 56

/-- `sb.major_version` -/
def majorVersion : Nat := load 4 fs.bytes 76

/-- `sb.inode_size` -/
def inodeSize : Nat := load 2 fs.bytes 88

/-- `blk_grp_desc.block_addr_of_block_usage_bitmap` -/
def blockBitmap : Nat := load 4 fs.bytes 1024

/-- `blk_grp_desc.block_addr_of_inode_usage_bitmap` -/
def inodeBitmap : Nat := load 4 fs.bytes 1028

/-- `blk_grp_desc.block_addr_of_inode_table` -/
def inodeTable : Nat := load 4 fs.bytes 1032

/-- `blk_grp_desc.num_of_unalloc_block` -/
def groupUnallocBlocks : Nat := load 2 fs.bytes 1036

/-- `blk_grp_desc.num_of_unalloc_inode` -/
def groupUnallocInodes : Nat := load 2 fs.bytes 1038

/-- `blk_grp_desc.num_of_dir` -/
def numOfDir : Nat := load 2 fs.bytes 1040

/-- `block_size` -/
def blockSize : Nat := load 4 fs.bytes 1056

/-- `sec_per_block` -/
def secPerBlock : Nat := load 4 fs.bytes 1060

end FsData

/-- A device and `dev->fs->fs_data`. -/
structure Volume where
  device : Device
  fs : FsData

/-- The device answers or fails at each access. -/
def withFaults (volume : Volume) (reads writes : Nat → Nat → Bool) : Volume :=
  { volume with device := { volume.device with reads := reads, writes := writes } }

/-- `EXT2_SIGNATURE` -/
def ext2Signature : Nat := 0xef53

/-- `1024 << sb->block_size_hint`, with the shift of the processor. -/
def blockSizeOf (hint : Nat) : Nat := 1024 * 2 ^ (hint % 32) % 2 ^ 32

/-- The number of the block with the group descriptors. -/
def blockGrpLoc (blockSize : Nat) : Nat := if blockSize = 1024 then 2 else 1

/-- `ext2_fs_data` from a superblock and a sector of descriptors, at a place in the heap. -/
def fsDataOf (heap superblock descriptors : Bytes) : FsData :=
  let blockSize := blockSizeOf (load 4 superblock 24)
  let bytes := splice heap 0 1024 superblock
  let bytes := splice bytes 1024 32 descriptors
  let bytes := store 4 bytes 1056 blockSize
  ⟨store 4 bytes 1060 (blockSize / 512)⟩

/-- `ext2_probe`: the filled `ext2_fs_data`, and the device. -/
def ext2Probe (device : Device) (heap : Bytes) : Option FsData × Device :=
  let (superblock, device) := device.read 2 2
  match superblock with
  | none => (none, device)
  | some superblock =>
    if load 2 superblock 56 ≠ ext2Signature then (none, device)
    else
      let blockSize := blockSizeOf (load 4 superblock 24)
      let (descriptors, device) :=
        device.read (blockGrpLoc blockSize * (blockSize / 512) % 2 ^ 32) 1
      match descriptors with
      | none => (none, device)
      | some descriptors => (some (fsDataOf heap superblock descriptors), device)

/-- `__ext2_update_sb_and_blk_desc` -/
def updateSbAndBlkDesc (volume : Volume) : Bool × Volume :=
  let (written, device) := volume.device.write volume.fs.bytes 2 2
  if written then
    let (written, device) := device.write (fun offset => volume.fs.bytes (1024 + offset))
      (blockGrpLoc volume.fs.blockSize * volume.fs.secPerBlock % 2 ^ 32) 1
    (written, { volume with device := device })
  else (false, { volume with device := device })

/-- What `ext2_probe` makes sure of: the signature, and the two fields for the block size. -/
structure Accepted (fs : FsData) : Prop where
  signature : fs.signature = ext2Signature
  size : fs.blockSize = blockSizeOf fs.blockSizeHint
  sectors : fs.secPerBlock = fs.blockSize / 512

/-- The place of the first group descriptor on the device, in bytes. -/
def groupDescriptor (fs : FsData) : Nat := blockGrpLoc fs.blockSize * fs.blockSize

/-- The device already holds, behind the first descriptor, what follows the descriptor in memory. -/
def Settled (volume : Volume) : Prop :=
  ∀ offset, 32 ≤ offset → offset < 512 →
    volume.device.disk (groupDescriptor volume.fs + offset) = volume.fs.bytes (1024 + offset)

section Devices

variable (device : Device) (data : Bytes) (lba count : Nat)

theorem Device.read_some {data : Bytes} (result : (device.read lba count).1 = some data) :
    device.reads lba count = true ∧ data = fun offset => device.disk (512 * lba + offset) := by
  simp only [Device.read] at result
  split at result
  · next readable => exact ⟨readable, (Option.some.inj result).symm⟩
  · cases result

@[simp] theorem Device.write_reads : (device.write data lba count).2.reads = device.reads := by
  rw [Device.write]
  split <;> rfl

@[simp] theorem Device.write_writes : (device.write data lba count).2.writes = device.writes := by
  rw [Device.write]
  split <;> rfl

@[simp] theorem Device.write_result :
    (device.write data lba count).1 = device.writes lba count := by
  rw [Device.write]
  split
  · next accepts => exact accepts.symm
  · next rejects => exact (Bool.eq_false_iff.mpr rejects).symm

theorem Device.write_outside {probe : Nat}
    (outside : probe < 512 * lba ∨ 512 * lba + 512 * count ≤ probe) :
    (device.write data lba count).2.disk probe = device.disk probe := by
  rw [Device.write]
  split
  · exact splice_outside outside
  · rfl

/-- A write puts its bytes in place, or none. -/
theorem Device.write_inside {offset : Nat} (inside : offset < 512 * count) :
    (device.write data lba count).2.disk (512 * lba + offset) = data offset ∨
      (device.write data lba count).2.disk = device.disk := by
  rw [Device.write]
  split
  · exact .inl (splice_inside _ _ _ inside)
  · exact .inr rfl

end Devices

section Sizes

variable {fs : FsData}

theorem Accepted.whole (accepted : Accepted fs) : fs.blockSize = 512 * fs.secPerBlock := by
  have sectors : blockSizeOf fs.blockSizeHint =
      512 * (2 * 2 ^ (fs.blockSizeHint % 32) % 2 ^ 23) := by
    have split : 1024 * 2 ^ (fs.blockSizeHint % 32) = 512 * (2 * 2 ^ (fs.blockSizeHint % 32)) := by
      omega
    rw [blockSizeOf, split, show (2 : Nat) ^ 32 = 512 * 2 ^ 23 by decide, Nat.mul_mod_mul_left]
  rw [accepted.sectors, accepted.size, sectors]
  omega

/-- The product that gives the sector of the descriptors does not wrap. -/
theorem Accepted.descriptor_sector (accepted : Accepted fs) :
    512 * (blockGrpLoc fs.blockSize * fs.secPerBlock % 2 ^ 32) = groupDescriptor fs := by
  have small : fs.blockSize < 2 ^ 32 := by
    rw [accepted.size, blockSizeOf]
    exact Nat.mod_lt _ (by decide)
  have whole := accepted.whole
  have first : blockGrpLoc fs.blockSize = 1 ∨ blockGrpLoc fs.blockSize = 2 := by
    rw [blockGrpLoc]
    split <;> simp
  rw [groupDescriptor]
  rcases first with one | two
  · rw [one, Nat.mod_eq_of_lt (by omega)]
    omega
  · rw [two, Nat.mod_eq_of_lt (by omega)]
    omega

/-- The fields of a filled `ext2_fs_data`. -/
theorem fsDataOf_load (heap superblock descriptors : Bytes) {width address : Nat}
    (inside : address + width ≤ 1024) :
    load width (fsDataOf heap superblock descriptors).bytes address =
      load width superblock address := by
  refine load_congr _ _ _ _ fun probe lower upper => ?_
  simp only [fsDataOf]
  rw [store_outside (.inl (by omega)), store_outside (.inl (by omega)),
    splice_outside (.inl (by omega))]
  have there := splice_inside heap 0 superblock (show probe < 1024 by omega)
  rwa [Nat.zero_add] at there

/-- `ext2_probe` accepts a superblock by its signature only. -/
theorem probe_accepted {device : Device} {heap : Bytes} {fs : FsData}
    (result : (ext2Probe device heap).1 = some fs) : Accepted fs := by
  simp only [ext2Probe] at result
  split at result
  · cases result
  · next superblock _ =>
    split at result
    · cases result
    · next signed =>
      split at result
      · cases result
      · next descriptors _ =>
        obtain rfl := Option.some.inj result
        have hint := fsDataOf_load heap superblock descriptors (show 24 + 4 ≤ 1024 by decide)
        have mark := fsDataOf_load heap superblock descriptors (show 56 + 2 ≤ 1024 by decide)
        have size : (fsDataOf heap superblock descriptors).blockSize =
            blockSizeOf (load 4 superblock 24) := by
          simp only [FsData.blockSize, fsDataOf]
          rw [load_store_apart (.inr (by decide)), load_store_same]
          exact Nat.mod_eq_of_lt (Nat.mod_lt _ (by decide))
        refine ⟨mark.trans (Decidable.not_not.mp signed), ?_, ?_⟩
        · rw [size, FsData.blockSizeHint, hint]
        · rw [size]
          simp only [FsData.secPerBlock, fsDataOf, load_store_same]
          refine Nat.mod_eq_of_lt (Nat.lt_of_le_of_lt (Nat.div_le_self _ _) ?_)
          exact Nat.mod_lt _ (by decide)

end Sizes

/-- Writing the superblock and the first descriptor back changes nothing on the device but these,
so that the descriptors of the other groups stay. -/
def KeepsOthers (volume : Volume) : Prop :=
  (∀ probe, (probe < 1024 ∨ 2048 ≤ probe) →
    (probe < groupDescriptor volume.fs ∨ groupDescriptor volume.fs + 32 ≤ probe) →
      (updateSbAndBlkDesc volume).2.device.disk probe = volume.device.disk probe) ∧
  ∀ group ≥ 1, volume.fs.blockSize ≠ 0 →
    readRange (updateSbAndBlkDesc volume).2.device.disk
        (groupDescriptor volume.fs + 32 * group) 32 =
      readRange volume.device.disk (groupDescriptor volume.fs + 32 * group) 32

/-- The descriptors lie behind the superblock, if blocks have a size at all. -/
theorem Accepted.descriptor_behind {fs : FsData} (accepted : Accepted fs) :
    groupDescriptor fs = 0 ∨ 2048 ≤ groupDescriptor fs := by
  rw [groupDescriptor, blockGrpLoc]
  split
  · next small => omega
  · next other =>
    have size := accepted.size
    rw [blockSizeOf] at size
    generalize 2 ^ (fs.blockSizeHint % 32) = power at size
    omega

theorem Settled.keepsOthers {volume : Volume} (settled : Settled volume)
    (accepted : Accepted volume.fs) : KeepsOthers volume := by
  have frame : ∀ probe, (probe < 1024 ∨ 2048 ≤ probe) →
      (probe < groupDescriptor volume.fs ∨ groupDescriptor volume.fs + 32 ≤ probe) →
        (updateSbAndBlkDesc volume).2.device.disk probe = volume.device.disk probe := by
    intro probe beside outside
    have first := volume.device.write_outside volume.fs.bytes 2 2
      (show probe < 512 * 2 ∨ 512 * 2 + 512 * 2 ≤ probe by omega)
    simp only [updateSbAndBlkDesc]
    split
    · have place := accepted.descriptor_sector
      by_cases inSector : groupDescriptor volume.fs ≤ probe ∧ probe < groupDescriptor volume.fs + 512
      · obtain ⟨offset, rfl⟩ := Nat.exists_eq_add_of_le inSector.1
        have same := settled offset (by omega) (by omega)
        have written := Device.write_inside (volume.device.write volume.fs.bytes 2 2).2
          (fun offset => volume.fs.bytes (1024 + offset))
          (blockGrpLoc volume.fs.blockSize * volume.fs.secPerBlock % 2 ^ 32) 1
          (show offset < 512 * 1 by omega)
        rw [place] at written
        rcases written with put | kept
        · exact put.trans same.symm
        · exact (congrFun kept _).trans first
      · refine (Device.write_outside _ _ _ _ ?_).trans first
        rw [place]
        omega
    · exact first
  refine ⟨frame, fun group later sized => readRange_congr fun offset inside => frame _ ?_ (by omega)⟩
  have nonzero : groupDescriptor volume.fs ≠ 0 := by
    rw [groupDescriptor, blockGrpLoc]
    split <;> omega
  have behind := accepted.descriptor_behind.resolve_left nonzero
  omega

/-- Where both writes succeed, the sector of the descriptor holds what follows it in memory. -/
theorem update_sector {volume : Volume} (accepted : Accepted volume.fs) {offset : Nat}
    (inside : offset < 512) :
    (updateSbAndBlkDesc (withFaults volume (fun _ _ => true) (fun _ _ => true))).2.device.disk
      (groupDescriptor volume.fs + offset) = volume.fs.bytes (1024 + offset) := by
  have sector := accepted.descriptor_sector
  have written : (updateSbAndBlkDesc (withFaults volume (fun _ _ => true)
      (fun _ _ => true))).2.device.disk = splice (splice volume.device.disk (512 * 2) (512 * 2)
        volume.fs.bytes) (groupDescriptor volume.fs) (512 * 1)
        fun offset => volume.fs.bytes (1024 + offset) := by
    rw [← sector]
    simp [updateSbAndBlkDesc, Device.write, withFaults]
  rw [written]
  exact splice_inside _ _ _ (by omega)

/-- Whatever the device refuses, writing the superblock and the first descriptor back changes
nothing but these, exactly if the device holds behind the descriptor what the memory does. -/
theorem update_frame_iff (volume : Volume) (accepted : Accepted volume.fs) :
    (∀ reads writes, KeepsOthers (withFaults volume reads writes)) ↔ Settled volume := by
  constructor
  · intro keeps offset behind inside
    have same := (keeps (fun _ _ => true) (fun _ _ => true)).1 (groupDescriptor volume.fs + offset)
      (by have place := accepted.descriptor_behind; omega) (.inr (by
        have place : groupDescriptor (withFaults volume (fun _ _ => true) (fun _ _ => true)).fs =
          groupDescriptor volume.fs := rfl
        omega))
    rw [update_sector accepted inside] at same
    exact same.symm
  · intro settled reads writes
    exact @Settled.keepsOthers (withFaults volume reads writes) settled accepted

/-- A device with blocks of 1024 bytes and the descriptors of two groups; the block bitmap of the
second group is block 9. -/
def twoGroups : Device where
  disk := store 4 (store 2 (fun _ => 0) (1024 + 56) ext2Signature) (2048 + 32) 9
  reads _ _ := true
  writes _ _ := true
  log := []

/-- The second write of the same bytes changes nothing else. -/
theorem update_frame_again : ∃ fs, (ext2Probe twoGroups fun _ => 0).1 = some fs ∧
    KeepsOthers (updateSbAndBlkDesc ⟨twoGroups, fs⟩).2 := by
  refine ⟨_, rfl, ?_⟩
  generalize isFs : fsDataOf (fun _ => 0) _ _ = fs
  have accepted : Accepted fs := by
    rw [← isFs]
    exact ⟨by decide +kernel, by decide +kernel, by decide +kernel⟩
  have settled : Settled (updateSbAndBlkDesc ⟨twoGroups, fs⟩).2 := by
    intro offset _ inside
    exact @update_sector ⟨twoGroups, fs⟩ accepted offset inside
  have keeps := (update_frame_iff (updateSbAndBlkDesc ⟨twoGroups, fs⟩).2 accepted).mpr settled
    (fun _ _ => true) (fun _ _ => true)
  have same : withFaults (updateSbAndBlkDesc ⟨twoGroups, fs⟩).2 (fun _ _ => true)
      (fun _ _ => true) = (updateSbAndBlkDesc ⟨twoGroups, fs⟩).2 := by
    simp [updateSbAndBlkDesc, Device.write, twoGroups, withFaults]
  exact same ▸ keeps

/-- The first write puts the block size in the place of the bitmap of the second group. -/
theorem second_descriptor_lost : load 4 twoGroups.disk (2048 + 32) = 9 ∧
    ∃ fs, (ext2Probe twoGroups fun _ => 0).1 = some fs ∧ groupDescriptor fs = 2048 ∧
      load 4 (updateSbAndBlkDesc ⟨twoGroups, fs⟩).2.device.disk (2048 + 32) = 1024 :=
  ⟨by decide +kernel, _, rfl, by decide +kernel, by decide +kernel⟩

end Balrog.Ext2Volume
