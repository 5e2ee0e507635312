import Balrog.AddressSpace
import Balrog.ByteMemory
import Balrog.OpenFiles
import Balrog.PhysicalPages
import Mathlib.Data.List.Range
import Mathlib.Data.Nat.Bitwise

/-!
# Reading an open file

The contents of an open file are cached in kernel memory. `sys_read` checks the permissions of
the file, and hands the length that the process asks for through `fs_read` and `__vfs_read` to
`ext2_read`, which copies that many bytes from the cached file. No function on the way compares
the offset and the length with the size of the file.

Memory is one array of bytes. Each copy records the addresses that it reads, so that one can say
which bytes a call has disclosed. Addresses wrap at 64 bits, as the pointers do. Left out: the
lock of the virtual file system, the search of an inode in its cache (an inode number has an
inode), and what the keyboard returns.
-/

namespace Balrog.FileReads

open AddressSpace ByteMemory PhysicalPages List
open OpenFiles (fsMaxFile)

/-- `EACCES` -/
def eacces : Nat := 13

/-- `EFAULT` -/
def efault : Nat := 14

/-- A slot of `file_table`. -/
structure FsFile where
  data : Nat
  size : Nat
  inodeNbr : Nat
deriving DecidableEq, Repr

/-- `fs_fd`, the part of it that a read uses. -/
structure FsFd where
  ftableIdx : Nat
  inodeNbr : Nat
  offset : Nat
deriving DecidableEq, Repr

/-- A cached inode: how many descriptors have it open, and who may read it. -/
structure Idata where
  opened : Nat
  mode : Nat
  userId : Nat
  groupId : Nat
deriving DecidableEq, Repr

/-- `process`, the part of it that a read uses. -/
structure Process where
  uid : Nat
  gid : Nat
  fdTable : Nat → FsFd

/-- The memory, the addresses that were copied from, the cached files and inodes, and the error
number of the process. -/
structure Kernel where
  memory : Bytes
  reads : List Nat
  fileTable : Nat → FsFile
  inodes : Nat → Idata
  errorNo : Nat

/-- The loop of `memcpy`. -/
def memcpy (dest source : Nat) : Nat → Nat → Kernel → Kernel
  | 0, _, kernel => kernel
  | remaining + 1, index, kernel =>
    memcpy dest source remaining (index + 1)
      { kernel with
        memory := put kernel.memory ((dest + index) % 2 ^ 64)
          (kernel.memory ((source + index) % 2 ^ 64))
        reads := kernel.reads ++ [(source + index) % 2 ^ 64] }

/-- `fs_cache_get_file` -/
def fsCacheGetFile (kernel : Kernel) (index : Nat) : Option FsFile :=
  if fsMaxFile ≤ index then none else some (kernel.fileTable index)

/-- `__ext2_read` -/
def readData (kernel : Kernel) (data buffer offset len : Nat) : Kernel :=
  memcpy buffer (data + offset) len 0 kernel

/-- `ext2_read`. A slot outside the table is followed as a null pointer, and the call does not
return. -/
def ext2Read (kernel : Kernel) (buffer len : Nat) (fd : FsFd) : Option (Int × Kernel) :=
  match fsCacheGetFile kernel fd.ftableIdx with
  | none => none
  | some file =>
    if (kernel.inodes file.inodeNbr).opened = 0 then some (-1, kernel)
    else some (0, readData kernel file.data buffer fd.offset len)

/-- `__vfs_read` -/
def vfsRead (kernel : Kernel) (buffer len : Nat) (fd : FsFd) : Option (Int × Kernel) :=
  ext2Read kernel buffer len fd

/-- `fs_read` -/
def fsRead (kernel : Kernel) (buffer len : Nat) (fd : FsFd) : Option (Int × Kernel) :=
  vfsRead kernel buffer len fd

/-- `__check_file_permission`: whether the file may be used. -/
def checkFilePermission (kernel : Kernel) (process : Process) (fd : FsFd) (mode : Nat) : Bool :=
  let stat := kernel.inodes fd.inodeNbr
  if stat.userId ≠ process.uid ∧ process.uid ≠ 0 then
    if stat.mode &&& mode = 0 then
      !(stat.groupId ≠ process.gid ∨ stat.mode &&& (mode <<< 3) = 0)
    else true
  else true

/-- `sys_read`. The result of `fs_read` is not looked at. -/
def sysRead (keyboardRead : Kernel → Nat → Int × Kernel) (kernel : Kernel) (process : Process)
    (rdi rsi rdx : Nat) : Option (Int × Kernel) :=
  if rdi = 0 then
    if userPtrOk rsi then some (keyboardRead kernel rsi)
    else some (-1, { kernel with errorNo := efault })
  else if rdi = 1 ∨ rdi = 2 then some (0, kernel)
  else
    let fd := process.fdTable (rdi - 3)
    if checkFilePermission kernel process fd 4 then
      (fsRead kernel rsi rdx fd).map fun answer => (0, answer.2)
    else some (-1, { kernel with errorNo := eacces })

/-- A copy reads its source from front to back. -/
theorem memcpy_reads (dest source remaining index : Nat) (kernel : Kernel) :
    (memcpy dest source remaining index kernel).reads =
      kernel.reads ++
        (List.range' index remaining).map fun offset => (source + offset) % 2 ^ 64 := by
  induction remaining generalizing index kernel with
  | zero => exact (append_nil _).symm
  | succ remaining ih =>
    rw [memcpy, ih, List.range'_succ, map_cons, append_assoc]
    rfl

/-- A copy whose source and destination do not meet: the bytes of the source are put at the
destination, and no other byte changes. -/
theorem memcpy_memory {dest source length : Nat} (apart : Apart source length dest length)
    (sourceFits : source + length ≤ 2 ^ 64) (destFits : dest + length ≤ 2 ^ 64)
    (remaining index : Nat) (kernel : Kernel) (isLength : index + remaining = length) :
    (memcpy dest source remaining index kernel).memory = fun probe =>
      if dest + index ≤ probe ∧ probe < dest + length then
        kernel.memory (source + (probe - dest))
      else kernel.memory probe := by
  induction remaining generalizing index kernel with
  | zero =>
    funext probe
    rw [if_neg (by omega)]
    rfl
  | succ remaining ih =>
    rw [memcpy, ih _ _ (by omega)]
    funext probe
    rw [Nat.mod_eq_of_lt (by omega), Nat.mod_eq_of_lt (by omega)]
    unfold Apart at apart
    simp only [put]
    by_cases here : probe = dest + index
    · subst here
      rw [if_neg (by omega), if_pos rfl, if_pos (by omega), Nat.add_sub_cancel_left]
    · by_cases inside : dest + (index + 1) ≤ probe ∧ probe < dest + length
      · rw [if_pos inside, if_neg (by omega), if_pos (by omega)]
      · rw [if_neg inside, if_neg here, if_neg (by omega)]

/-- Where a byte of the cached file stands, in 64 bits. -/
def FsFile.address (file : FsFile) (position : Nat) : Nat := (file.data + position) % 2 ^ 64

/-- The addresses that `after` has read and `before` has not are those of the bytes of the file
between the offset and the end of the request, and all of them are below the size. -/
def OnlyWithin (file : FsFile) (offset len : Nat) (before after : Kernel) : Prop :=
  ∃ positions : List Nat,
    (∀ position ∈ positions, offset ≤ position ∧ position < offset + len ∧ position < file.size) ∧
    after.reads = before.reads ++ positions.map file.address

/-- The bytes that a copy from a cached file reads are those from the offset on, one after the
other. -/
theorem readData_reads (kernel : Kernel) (file : FsFile) (buffer offset len : Nat) :
    (readData kernel file.data buffer offset len).reads =
      kernel.reads ++ (List.range' offset len).map file.address := by
  rw [readData, memcpy_reads]
  congr 1
  rw [List.range'_eq_map_range, List.range'_eq_map_range, map_map, map_map]
  apply map_congr_left
  intro index _
  simp only [Function.comp_apply, FsFile.address]
  congr 1
  omega

/-- What a read of an open file comes to. -/
theorem ext2Read_open {kernel : Kernel} {fd : FsFd} (buffer len : Nat)
    (inTable : fd.ftableIdx < fsMaxFile)
    (isOpen : (kernel.inodes (kernel.fileTable fd.ftableIdx).inodeNbr).opened ≠ 0) :
    ext2Read kernel buffer len fd =
      some (0, readData kernel (kernel.fileTable fd.ftableIdx).data buffer fd.offset len) := by
  simp only [ext2Read, fsCacheGetFile, if_neg (Nat.not_le.mpr inTable), if_neg isOpen]

/-- Where the file and the buffer do not meet, the bytes that are asked for are put into the buffer, and
no other byte of the memory changes. -/
theorem ext2Read_memory {kernel : Kernel} {fd : FsFd} {buffer len : Nat}
    (inTable : fd.ftableIdx < fsMaxFile)
    (isOpen : (kernel.inodes (kernel.fileTable fd.ftableIdx).inodeNbr).opened ≠ 0)
    (apart : Apart ((kernel.fileTable fd.ftableIdx).data + fd.offset) len buffer len)
    (sourceFits : (kernel.fileTable fd.ftableIdx).data + fd.offset + len ≤ 2 ^ 64)
    (destFits : buffer + len ≤ 2 ^ 64) :
    ∃ after, ext2Read kernel buffer len fd = some (0, after) ∧ after.memory = fun probe =>
      if buffer ≤ probe ∧ probe < buffer + len then
        kernel.memory ((kernel.fileTable fd.ftableIdx).data + fd.offset + (probe - buffer))
      else kernel.memory probe :=
  ⟨_, ext2Read_open buffer len inTable isOpen,
    memcpy_memory apart sourceFits destFits len 0 kernel (Nat.zero_add _)⟩

/-- What is asked of a read: it returns, and has copied only bytes of the file that were asked for. -/
def ReadsWithin (kernel : Kernel) (buffer len : Nat) (fd : FsFd) : Prop :=
  ∃ result after, ext2Read kernel buffer len fd = some (result, after) ∧
    OnlyWithin (kernel.fileTable fd.ftableIdx) fd.offset len kernel after

/-- A copy of some bytes stays in the file only if its last byte does. -/
theorem readData_within {kernel : Kernel} {file : FsFile} {buffer offset len : Nat}
    (word : len < 2 ^ 64) :
    OnlyWithin file offset len kernel (readData kernel file.data buffer offset len) ↔
      len = 0 ∨ offset + len ≤ file.size := by
  constructor
  · rintro ⟨positions, bounds, reads⟩
    by_cases none : len = 0
    · exact .inl none
    · rw [readData_reads, append_right_inj] at reads
      have last : file.address (offset + len - 1) ∈ (range' offset len).map file.address :=
        mem_map_of_mem (mem_range'_1.mpr ⟨by omega, by omega⟩)
      rw [reads] at last
      obtain ⟨position, member, same⟩ := mem_map.mp last
      obtain ⟨above, below, inFile⟩ := bounds position member
      -- less than 2^64 bytes have different addresses
      unfold FsFile.address at same
      omega
  · intro fits
    refine ⟨range' offset len, fun position member => ?_, readData_reads ..⟩
    have inRange := mem_range'_1.mp member
    omega

/-- A read copies only bytes of the file that were asked for exactly if the slot of the descriptor is
in the file table and the file is not open, nothing is asked for, or the end of the request lies in
the file. -/
theorem ext2_read_within_iff (kernel : Kernel) (fd : FsFd) (buffer len : Nat) (word : len < 2 ^ 64) :
    ReadsWithin kernel buffer len fd ↔
      fd.ftableIdx < fsMaxFile ∧
        ((kernel.inodes (kernel.fileTable fd.ftableIdx).inodeNbr).opened = 0 ∨
          len = 0 ∨ fd.offset + len ≤ (kernel.fileTable fd.ftableIdx).size) := by
  by_cases inTable : fd.ftableIdx < fsMaxFile
  · by_cases isOpen : (kernel.inodes (kernel.fileTable fd.ftableIdx).inodeNbr).opened = 0
    · refine iff_of_true ⟨-1, kernel, ?_, [], by simp, (append_nil _).symm⟩ ⟨inTable, .inl isOpen⟩
      simp only [ext2Read, fsCacheGetFile, if_neg (Nat.not_le.mpr inTable), if_pos isOpen]
    · have read := ext2Read_open buffer len inTable isOpen
      simp only [ReadsWithin, read, Option.some.injEq, Prod.mk.injEq, inTable, isOpen, true_and,
        false_or]
      rw [← readData_within word]
      constructor
      · rintro ⟨_, _, ⟨_, rfl⟩, within⟩
        exact within
      · exact fun within => ⟨0, _, ⟨rfl, rfl⟩, within⟩
  · refine iff_of_false ?_ fun both => inTable both.1
    rintro ⟨_, _, isNone, _⟩
    simp only [ext2Read, fsCacheGetFile, if_pos (Nat.le_of_not_lt inTable)] at isNone
    cases isNone

/-- The cached files of the examples: one file of one byte at address 4096. The byte after it
belongs to the kernel. -/
def oneByte : Kernel where
  memory := fun address => if address = 4096 then 1 else 77
  reads := []
  fileTable := fun _ => ⟨4096, 1, 5⟩
  inodes := fun _ => ⟨1, 4, 0, 0⟩
  errorNo := 0

/-- A process that may read the file and has it open. -/
def reader : Process where
  uid := 1
  gid := 1
  fdTable := fun _ => ⟨0, 5, 0⟩

/-- The byte of the file is read. -/
theorem ext2_read_within_one : ReadsWithin oneByte 65536 1 ⟨0, 5, 0⟩ :=
  (ext2_read_within_iff oneByte ⟨0, 5, 0⟩ 65536 1 (by decide)).mpr (by decide)

/-- A process reads two bytes of a file of one byte: the second byte is not one of the file, and
the process finds it in its buffer. -/
theorem ext2_read_discloses :
    ∃ after,
      (∀ keyboardRead, sysRead keyboardRead oneByte reader 3 65536 2 = some (0, after)) ∧
      ext2Read oneByte 65536 2 (reader.fdTable 0) = some (0, after) ∧
      after.reads = [4096, 4097] ∧ after.memory 65537 = 77 ∧
      ¬ OnlyWithin ⟨4096, 1, 5⟩ 0 2 oneByte after := by
  refine ⟨readData oneByte 4096 65536 0 2, fun _ => rfl, rfl, rfl, rfl, fun within => ?_⟩
  exact absurd ((readData_within (by decide)).mp within) (by decide)

end Balrog.FileReads
