import Balrog.DirChanges
import Balrog.VfsMounts

/-!
# The device of virtual nodes

Nodes that no disk stands behind belong to a device of their own. `__vfs_device_stat` computes the
size of a directory from its children, and `__vfs_device_read` writes an entry for each of them,
for the directory and for its parent, and a zero behind the last: it does not look at the length
that was asked for. The owner, the group and the mode of a node are not set by either, so what
`__check_file_permission` compares for a node is what the stack held before.

The effect of a read is the list of the bytes that it stores, with their offsets in the buffer.
-/

namespace Balrog.VfsDevice

open DirChanges VfsMounts VfsPaths List

/-- `fs_file_stat` -/
structure FileStat where
  mode : Nat
  size : Nat
  uid : Nat
  gid : Nat
  hardLink : Nat

/-- `sizeof(fs_dir_entry)`, which is not packed -/
def fsDirEntrySize : Nat := 12

/-- `__vfs_device_stat`: whether it returns 0, and the structure. The size for `..` replaces the
one for `.`. -/
def vfsDeviceStat (node : Option Node) (stat : FileStat) : Bool × FileStat :=
  match node with
  | none => (false, stat)
  | some node =>
    if node.type = .file then (false, stat)
    else
      let size := node.children.foldl
        (fun size child => (size + ext2DirEntrySize child.name.length) % 2 ^ 32) (ext2DirEntrySize 2)
      (true, { stat with size := (size + fsDirEntrySize) % 2 ^ 32 })

/-- A byte that is stored, behind its offset. -/
abbrev Stored := Nat × UInt8

/-- `entry->name_len`, of one byte -/
def nameLen (name : Text) : Nat := name.length % 2 ^ 8

/-- `__register_entry` -/
def registerEntry (place : Nat) (type : UInt8) (name : Text) : List Stored :=
  let entrySize := ext2DirEntrySize (nameLen name)
  [(place, 255), (place + 1, 255), (place + 2, 255), (place + 3, 255),
    (place + 6, UInt8.ofNat (nameLen name)), (place + 4, UInt8.ofNat entrySize),
    (place + 5, UInt8.ofNat (entrySize / 2 ^ 8)), (place + 7, type)] ++
  ((name.take (nameLen name)).mapIdx fun index char =>
    (place + 8 + index, UInt8.ofNat char.toNat))

/-- The loop of `__vfs_device_read` over the children, and the end of the list. -/
def readLoop (place : Nat) : List Node → List Stored
  | [] => [(place, 0), (place + 1, 0), (place + 2, 0), (place + 3, 0)]
  | child :: rest =>
    registerEntry place 4 child.name ++
      readLoop (place + ext2DirEntrySize (nameLen child.name)) rest

/-- `__vfs_device_read`: the bytes that it stores, if it does not fail. -/
def vfsDeviceRead (node : Option Node) (_len : Nat) : Option (List Stored) :=
  match node with
  | none => none
  | some node =>
    if node.type = .file then none
    else
      let parent := ext2DirEntrySize (nameLen ['.'])
      some (registerEntry 0 2 ['.'] ++ registerEntry parent 2 ['.', '.'] ++
        readLoop (parent + ext2DirEntrySize (nameLen ['.', '.'])) node.children)

/-- The sizes of the entries of the children. -/
def childrenSize (children : List Node) : Nat :=
  (children.map fun child => ext2DirEntrySize child.name.length).sum

theorem ext2DirEntrySize_ge (length : Nat) : length + 8 ≤ ext2DirEntrySize length := by
  unfold ext2DirEntrySize
  split <;> omega

theorem registerEntry_length (place : Nat) (type : UInt8) (name : Text) :
    (registerEntry place type name).length = 8 + nameLen name := by
  have short : nameLen name ≤ name.length := Nat.mod_le _ _
  simp only [registerEntry, length_append, length_mapIdx, length_take, short,
    min_eq_left, length_cons, length_nil]

/-- The bytes that a read stores: those of the entries, without their padding, and the end. -/
def storedSize (children : List Node) : Nat :=
  23 + (children.map fun child => 8 + nameLen child.name).sum

theorem readLoop_length (place : Nat) (children : List Node) :
    (readLoop place children).length =
      (children.map fun child => 8 + nameLen child.name).sum + 4 := by
  induction children generalizing place with
  | nil => rfl
  | cons child rest ih =>
    rw [readLoop, length_append, registerEntry_length, ih, map_cons, sum_cons]
    omega

/-- A read of a directory succeeds, whatever length is asked for. -/
theorem read_stored {node : Node} (directory : node.type ≠ .file) (len : Nat) :
    ∃ stored, vfsDeviceRead (some node) len = some stored ∧
      stored.length = storedSize node.children := by
  refine ⟨_, by rw [vfsDeviceRead, if_neg directory], ?_⟩
  have parents : nameLen ['.'] = 1 ∧ nameLen ['.', '.'] = 2 := by decide
  simp only [length_append, registerEntry_length, readLoop_length, parents, storedSize]
  omega

theorem foldl_size (children : List Node) (size : Nat) :
    children.foldl (fun size child => (size + ext2DirEntrySize child.name.length) % 2 ^ 32) size %
      2 ^ 32 = (size + childrenSize children) % 2 ^ 32 := by
  induction children generalizing size with
  | nil => rfl
  | cons child rest ih =>
    have sum : childrenSize (child :: rest) =
        ext2DirEntrySize child.name.length + childrenSize rest := sum_cons
    rw [foldl_cons, ih, Nat.mod_add_mod, sum, Nat.add_assoc]

/-- The size that is reported for a directory, in 32 bits. -/
theorem stat_size {node : Node} (stat : FileStat) (directory : node.type ≠ .file) :
    (vfsDeviceStat (some node) stat).2.size = (childrenSize node.children + 24) % 2 ^ 32 := by
  have size := foldl_size node.children (ext2DirEntrySize 2)
  have start : ext2DirEntrySize 2 = 12 := by decide
  simp only [vfsDeviceStat, if_neg directory]
  rw [Nat.add_mod, size, ← Nat.add_mod, start, fsDirEntrySize]
  congr 1
  omega

/-- No more bytes are stored than are reported, if the sum of the entries is a number of 32 bits. -/
theorem storedSize_le (children : List Node) : storedSize children ≤ childrenSize children + 24 := by
  have each : (children.map fun child => 8 + nameLen child.name).sum ≤ childrenSize children := by
    induction children with
    | nil => exact Nat.le_refl _
    | cons child rest ih =>
      have short : nameLen child.name ≤ child.name.length := Nat.mod_le _ _
      have entry := ext2DirEntrySize_ge child.name.length
      simp only [childrenSize, map_cons, sum_cons] at ih ⊢
      omega
  unfold storedSize
  omega

/-- A read stores at most as many bytes as are reported and as are asked for, exactly if the bytes of
the entries are no more than the reported size, where it wraps, and than the length. -/
theorem read_within_iff {node : Node} (stat : FileStat) (directory : node.type ≠ .file) (len : Nat) :
    (∃ stored, vfsDeviceRead (some node) len = some stored ∧
      stored.length ≤ (vfsDeviceStat (some node) stat).2.size ∧ stored.length ≤ len) ↔
      (childrenSize node.children + 24 < 2 ^ 32 ∨
        storedSize node.children ≤ (childrenSize node.children + 24) % 2 ^ 32) ∧
      storedSize node.children ≤ len := by
  obtain ⟨stored, isStored, length⟩ := read_stored directory len
  have small := storedSize_le node.children
  rw [stat_size stat directory]
  constructor
  · rintro ⟨other, isOther, within, asked⟩
    obtain rfl := Option.some.inj (isStored.symm.trans isOther)
    rw [length] at within asked
    exact ⟨.inr within, asked⟩
  · rintro ⟨reported, asked⟩
    refine ⟨stored, isStored, ?_, length ▸ asked⟩
    rw [length]
    rcases reported with fits | within
    · rw [Nat.mod_eq_of_lt fits]
      exact small
    · exact within

/-- A directory without children. -/
def bareNode : Node := ⟨['d'], .directory, none, 1, []⟩

theorem read_within_bare : ∃ stored, vfsDeviceRead (some bareNode) 23 = some stored ∧
    stored.length ≤ 24 ∧ stored.length ≤ 23 :=
  (@read_within_iff bareNode ⟨0, 0, 0, 0, 0⟩ (by decide) 23).mpr ⟨.inl (by decide), by decide⟩

/-- When nothing is asked for, 23 bytes are stored. Some of them are behind the reported size. -/
theorem read_ignores_length :
    (vfsDeviceRead (some bareNode) 0).map (List.length ·) = some 23 ∧
      (vfsDeviceStat (some bareNode) ⟨0, 0, 0, 0, 0⟩).2.size = 24 ∧
      ∃ stored, vfsDeviceRead (some bareNode) 0 = some stored ∧ (27, 0) ∈ stored :=
  ⟨by decide, by decide, _, rfl, by decide⟩

/-- What `ext2_stat` reads of the cached inode. -/
structure Inode where
  mode : Nat
  size : Nat
  userId : Nat
  groupId : Nat
  hardLinkCount : Nat

/-- What `ext2_stat` finds of an ext2 device: the cached inodes, those in the inode table, and whether
there is memory for one more in the cache. -/
structure Ext2 where
  cache : Nat → Option Inode
  table : Nat → Inode
  allocates : Bool

/-- `ext2_cache_search_inode`: an inode that is not cached is read from the table. -/
def ext2CacheSearchInode (ext2 : Ext2) (inodeNbr : Nat) : Option Inode :=
  match ext2.cache inodeNbr with
  | some inode => some inode
  | none => if ext2.allocates then some (ext2.table inodeNbr) else none

/-- A descriptor, by the device that it is open on. -/
inductive Descriptor where
  | ext2 (inodeNbr : Nat)
  | virtual (node : Option Node)

/-- `fs_fstat`. There is no result where `ext2_stat` follows the null pointer of an inode that was not
found. -/
def fsFstat (ext2 : Ext2) (fd : Descriptor) (stat : FileStat) : Option (Bool × FileStat) :=
  match fd with
  | .ext2 inodeNbr => (ext2CacheSearchInode ext2 inodeNbr).map fun inode =>
    (true, ⟨inode.mode, inode.size, inode.userId, inode.groupId, inode.hardLinkCount⟩)
  | .virtual node => some (vfsDeviceStat node stat)

/-- The test of `__check_file_permission`. -/
def permits (stat : FileStat) (uid gid mode : Nat) : Bool :=
  if stat.uid ≠ uid ∧ uid ≠ 0 then
    if stat.mode &&& mode = 0 then
      if stat.gid ≠ gid ∨ stat.mode &&& (mode <<< 3) = 0 then false else true
    else true
  else true

/-- `__check_file_permission`, with what the stack holds in `current_file_stat` and the user and
group of the current process: whether it returns 0. -/
def checkFilePermission (ext2 : Ext2) (stack : FileStat) (fd : Descriptor) (uid gid mode : Nat) :
    Option Bool :=
  (fsFstat ext2 fd stack).map fun stat => permits stat.2 uid gid mode

/-- The owner, the group and the mode of the file of a descriptor. A virtual node has none. -/
def attributes (ext2 : Ext2) : Descriptor → Option (Nat × Nat × Nat)
  | .ext2 inodeNbr => (ext2CacheSearchInode ext2 inodeNbr).map fun inode =>
    (inode.userId, inode.groupId, inode.mode)
  | .virtual _ => none

/-- The answer depends on the owner, the group and the mode of the file and on the process, and on
nothing else: neither on what the stack held nor on the rest of the devices. -/
def Determined (fd : Descriptor) (uid gid mode : Nat) : Prop :=
  ∀ ext2 other stack otherStack, attributes ext2 fd = attributes other fd →
    checkFilePermission ext2 stack fd uid gid mode =
      checkFilePermission other otherStack fd uid gid mode

/-- For a file of a disk the answer is that of the test on its attributes. -/
theorem check_ext2 (ext2 : Ext2) (stack : FileStat) (inodeNbr uid gid mode : Nat) :
    checkFilePermission ext2 stack (.ext2 inodeNbr) uid gid mode =
      (attributes ext2 (.ext2 inodeNbr)).map fun (owner, group, fileMode) =>
        permits ⟨fileMode, 0, owner, group, 0⟩ uid gid mode := by
  rw [checkFilePermission, fsFstat, attributes]
  cases ext2CacheSearchInode ext2 inodeNbr with
  | none => rfl
  | some inode => rfl

/-- Neither `__vfs_device_stat` nor its failure sets what the test compares. -/
theorem check_virtual (ext2 : Ext2) (stack : FileStat) (node : Option Node) (uid gid mode : Nat) :
    checkFilePermission ext2 stack (.virtual node) uid gid mode =
      some (permits stack uid gid mode) := by
  have same : permits (vfsDeviceStat node stack).2 uid gid mode = permits stack uid gid mode := by
    unfold vfsDeviceStat
    split
    · rfl
    · split <;> rfl
  rw [checkFilePermission, fsFstat, Option.map_some, same]

/-- A device without inodes. -/
def emptyExt2 : Ext2 := ⟨fun _ => none, fun _ => ⟨0, 0, 0, 0, 0⟩, true⟩

/-- The answer is determined by the file and the process exactly for the files of a disk and for the
user 0, whom nothing is refused. -/
theorem permission_determined_iff (fd : Descriptor) (uid gid mode : Nat) :
    Determined fd uid gid mode ↔ (∃ inodeNbr, fd = .ext2 inodeNbr) ∨ uid = 0 := by
  cases fd with
  | ext2 inodeNbr =>
    refine ⟨fun _ => .inl ⟨inodeNbr, rfl⟩, fun _ ext2 other stack otherStack same => ?_⟩
    rw [check_ext2, check_ext2, same]
  | virtual node =>
    constructor
    · intro determined
      refine .inr (not_not.mp fun user => ?_)
      -- a stack that holds the user, and one that holds user 0 and no rights
      have answers := determined emptyExt2 emptyExt2 ⟨0, 0, uid, 0, 0⟩ ⟨0, 0, 0, 0, 0⟩ rfl
      rw [check_virtual, check_virtual] at answers
      simp [permits, user, Ne.symm user] at answers
    · rintro (⟨_, isFile⟩ | root) ext2 other stack otherStack _
      · cases isFile
      · rw [check_virtual, check_virtual, root]
        simp [permits]

/-- A file of a disk that is cached on one device and read from the table on another. -/
theorem permission_determined_cached :
    checkFilePermission ⟨fun _ => some ⟨4, 0, 1, 1, 1⟩, fun _ => ⟨0, 0, 0, 0, 0⟩, false⟩
        ⟨0, 0, 0, 0, 0⟩ (.ext2 12) 2 2 4 =
      checkFilePermission ⟨fun _ => none, fun _ => ⟨4, 9, 1, 1, 2⟩, true⟩
        ⟨0, 0, 2, 2, 0⟩ (.ext2 12) 2 2 4 :=
  (permission_determined_iff (.ext2 12) 2 2 4).mpr (.inl ⟨12, rfl⟩) _ _ _ _ rfl

/-- For a virtual directory the stack decides. -/
theorem stack_decides :
    checkFilePermission emptyExt2 ⟨0, 0, 1, 0, 0⟩ (.virtual (some bareNode)) 1 1 4 = some true ∧
      checkFilePermission emptyExt2 ⟨0, 0, 2, 0, 0⟩ (.virtual (some bareNode)) 1 1 4 =
        some false := by
  decide

end Balrog.VfsDevice
