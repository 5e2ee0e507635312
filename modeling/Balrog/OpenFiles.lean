import Balrog.Runs
import Mathlib.Algebra.Group.Nat.Defs

/-!
# The open-file table under `ext2_open` and `ext2_close`

A descriptor names a slot of the open-file table. Which file a slot belongs to is
kept in three places: the slot itself, which is taken as free while its size is
zero, the reference count of the slot, and the cached inode with its `open` flag and
slot index.

The path of an `ext2_open` has already been resolved here to an inode number, zero
when it did not resolve; whether the file could be read is part of the call. The
buffers behind the slots, and the name and protection fields, are not modelled: no
function below branches on them. A slot index past the table is an access past the
table, which the model keeps apart instead of hiding.
-/

namespace Balrog.OpenFiles

open Runs List

/-- `FS_MAX_FILE` -/
def fsMaxFile : Nat := 100

/-- A slot of `file_table`. -/
structure FsFile where
  size : Nat
  reference : Nat
  inodeNbr : Nat
deriving DecidableEq, Repr

/-- A cached inode: `ext2_idata`. -/
structure Idata where
  size : Nat
  isOpen : Bool
  fileId : Nat
deriving DecidableEq, Repr

/-- A file descriptor: `fs_fd`. -/
structure FsFd where
  ftableIdx : Nat
  inodeNbr : Nat
deriving DecidableEq, Repr

/-- The table, what lies past its end, and the inode cache. -/
structure FileTable where
  slots : Nat → FsFile
  inodes : Nat → Option Idata

/-- The table with another slot at an index. -/
def FileTable.setSlot (files : FileTable) (index : Nat) (slot : FsFile) : FileTable :=
  { files with slots := fun probe => if probe = index then slot else files.slots probe }

/-- The table with another record for an inode. -/
def FileTable.setInode (files : FileTable) (inode : Nat) (data : Idata) : FileTable :=
  { files with inodes := fun probe => if probe = inode then some data else files.inodes probe }

section Table

variable (files : FileTable) (index inode probe : Nat) (slot : FsFile) (data : Idata)

@[simp] theorem set_slot_slots : (files.setSlot index slot).slots probe =
    if probe = index then slot else files.slots probe := rfl

@[simp] theorem set_inode_slots : (files.setInode inode data).slots = files.slots := rfl

@[simp] theorem set_inode_inodes : (files.setInode inode data).inodes probe =
    if probe = inode then some data else files.inodes probe := rfl

end Table

/-- The loop of `_fs_cache_add_file_array`: the first slot of size zero. -/
def freeSlot (slots : Nat → FsFile) : Nat → Nat → Nat
  | 0, index => index
  | remaining + 1, index =>
    if (slots index).size = 0 then index else freeSlot slots remaining (index + 1)

/-- `ext2_cache_search_inode`: the cached inode, read from the device when it is not
cached yet. `sizes` is what the inode table on the device says. -/
def searchInode (sizes : Nat → Nat) (files : FileTable) (inode : Nat) : Idata :=
  (files.inodes inode).getD { size := sizes inode, isOpen := false, fileId := 0 }

/-- `ext2_add_file_to_cache` with `fs_cache_add_file`: the slot index is stored in the
inode whether or not the table had room. -/
def addFileToCache (files : FileTable) (inode : Nat) (data : Idata) : FileTable × Idata :=
  let index := freeSlot files.slots fsMaxFile 0
  let files :=
    if index < fsMaxFile then
      files.setSlot index
        { size := data.size, reference := (files.slots index).reference, inodeNbr := inode }
    else files
  (files, { data with fileId := index, isOpen := true })

/-- `fs_cache_increase_ref` -/
def increaseRef (files : FileTable) (index : Nat) : FileTable :=
  files.setSlot index
    { files.slots index with reference := ((files.slots index).reference + 1) % 2 ^ 32 }

/-- `ext2_open` behind the path lookup. -/
def ext2Open (sizes : Nat → Nat) (files : FileTable) (inode : Nat) (readable : Bool) :
    Option FsFd × FileTable :=
  if inode = 0 then (none, files)
  else
    let data := searchInode sizes files inode
    if data.isOpen = false then
      if readable = false then (none, files.setInode inode data)
      else
        let (files, data) := addFileToCache files inode data
        (some { ftableIdx := data.fileId, inodeNbr := inode },
          increaseRef (files.setInode inode data) data.fileId)
    else
      (some { ftableIdx := data.fileId, inodeNbr := inode },
        increaseRef (files.setInode inode data) data.fileId)

/-- `ext2_close` with `fs_cache_close_file`: the last reference frees the slot and
marks the inode closed. -/
def ext2Close (sizes : Nat → Nat) (files : FileTable) (fd : FsFd) : FileTable :=
  let data := searchInode sizes files fd.inodeNbr
  let slot := files.slots fd.ftableIdx
  let reference := (slot.reference + (2 ^ 32 - 1)) % 2 ^ 32
  if reference = 0 then
    (files.setSlot fd.ftableIdx { slot with reference := 0, size := 0 }).setInode fd.inodeNbr
      { data with isOpen := false }
  else
    (files.setSlot fd.ftableIdx { slot with reference := reference }).setInode fd.inodeNbr data

/-- The kernel's tables and the descriptors currently open. -/
structure System where
  files : FileTable
  fds : List FsFd

/-- The calls that use the table of open files. -/
inductive Call where
  | openFile (inode : Nat) (readable : Bool)
  | close (fd : FsFd)

/-- One call; a close takes a descriptor that was returned and not yet closed. -/
def step (sizes : Nat → Nat) (system : System) : Call → Option System
  | .openFile inode readable =>
    let (fd, files) := ext2Open sizes system.files inode readable
    some { files := files, fds := fd.toList ++ system.fds }
  | .close fd =>
    some { files := ext2Close sizes system.files fd, fds := system.fds.erase fd }

/-- Only open descriptors are closed; `condition` restricts the opens. -/
def allowed (condition : System → Nat → Bool → Prop) (system : System) : Call → Prop
  | .openFile inode readable => condition system inode readable
  | .close fd => fd ∈ system.fds

/-- The runs from an empty table and an empty inode cache. -/
def machine (sizes : Nat → Nat) (condition : System → Nat → Bool → Prop) : Machine System Call where
  initial system := system = { files := { slots := fun _ => ⟨0, 0, 0⟩, inodes := fun _ => none },
                               fds := [] }
  allowed := allowed condition
  step := step sizes

/-- Different open files have different slots, and every slot index is in the table. -/
def SlotsSound (system : System) : Prop :=
  (∀ first ∈ system.fds, ∀ second ∈ system.fds, first.inodeNbr ≠ second.inodeNbr →
    first.ftableIdx ≠ second.ftableIdx) ∧
  ∀ fd ∈ system.fds, fd.ftableIdx < fsMaxFile

/-- Every slot of the table belongs to an open file. -/
def Full (system : System) : Prop :=
  ∀ index < fsMaxFile, ∃ fd ∈ system.fds, fd.ftableIdx = index

/-- Some descriptor of the file is open. -/
def IsOpen (system : System) (inode : Nat) : Prop := ∃ fd ∈ system.fds, fd.inodeNbr = inode

/-- Opening one more file fails and leaves the table alone. -/
def Refuses (sizes : Nat → Nat) (system : System) (inode : Nat) (readable : Bool) : Prop :=
  (ext2Open sizes system.files inode readable).1 = none ∧
    (ext2Open sizes system.files inode readable).2.slots = system.files.slots

/-- When an open keeps the table sound: the lookup or the read fails, or the file is
open already and its reference count does not wrap, or the file is not empty and a
slot is left. -/
def Fits (sizes : Nat → Nat) (system : System) (inode : Nat) (readable : Bool) : Prop :=
  inode = 0 ∨
  (IsOpen system inode ∧
    system.fds.countP (fun fd => fd.inodeNbr = inode) + 1 < 2 ^ 32) ∨
  (¬ IsOpen system inode ∧ (readable = false ∨ (sizes inode ≠ 0 ∧ ¬ Full system)))

/-- How many open descriptors refer to a slot. -/
def users (fds : List FsFd) (index : Nat) : Nat := fds.countP (fun fd => fd.ftableIdx = index)

@[simp] theorem users_cons (fd : FsFd) (fds : List FsFd) (index : Nat) :
    users (fd :: fds) index = users fds index + if fd.ftableIdx = index then 1 else 0 := by
  simp [users, countP_cons]

variable {fds : List FsFd} {fd other : FsFd}

/-- A slot has users when a descriptor names it. -/
theorem users_positive {index : Nat} : 0 < users fds index ↔ ∃ fd ∈ fds, fd.ftableIdx = index := by
  simp [users, countP_pos_iff]

/-- Closing a descriptor takes one user from its slot. -/
theorem users_erase (member : fd ∈ fds) (index : Nat) :
    users fds index = users (fds.erase fd) index + if fd.ftableIdx = index then 1 else 0 := by
  rw [← users_cons]
  exact (perm_cons_erase member).countP_eq _

/-- The three accounts of who owns a slot agree. -/
structure Invariant (sizes : Nat → Nat) (system : System) : Prop where
  descriptor : ∀ fd ∈ system.fds, ∃ data, system.files.inodes fd.inodeNbr = some data ∧
    data.isOpen = true ∧ data.fileId = fd.ftableIdx
  cached : ∀ inode data, system.files.inodes inode = some data →
    data.size = sizes inode ∧ (data.isOpen = true → IsOpen system inode)
  slot : ∀ fd ∈ system.fds, fd.ftableIdx < fsMaxFile ∧
    (system.files.slots fd.ftableIdx).size ≠ 0 ∧
    (system.files.slots fd.ftableIdx).inodeNbr = fd.inodeNbr
  counted : ∀ index, (system.files.slots index).reference = users system.fds index
  small : ∀ index, users system.fds index < 2 ^ 32
  used : ∀ index < fsMaxFile, (system.files.slots index).size ≠ 0 →
    ∃ fd ∈ system.fds, fd.ftableIdx = index

/-- The search ends at a free slot when there is one. -/
theorem free_slot_spec (slots : Nat → FsFile) (remaining index target : Nat)
    (lower : index ≤ target) (upper : target < index + remaining)
    (free : (slots target).size = 0) :
    freeSlot slots remaining index ≤ target ∧ (slots (freeSlot slots remaining index)).size = 0 := by
  induction remaining generalizing index with
  | zero => omega
  | succ remaining ih =>
    rw [freeSlot]
    split
    · next empty => exact ⟨lower, empty⟩
    · next taken =>
      have further : index ≠ target := by
        rintro rfl
        exact taken free
      exact ih (index + 1) (by omega) (by omega)

section Steps

variable {sizes : Nat → Nat} {system : System} {inode : Nat}

/-- An open inode is cached, and some descriptor refers to it. -/
theorem search_open (invariant : Invariant sizes system) (isOpen : IsOpen system inode) :
    ∃ data fd, fd ∈ system.fds ∧ fd.inodeNbr = inode ∧ system.files.inodes inode = some data ∧
      searchInode sizes system.files inode = data ∧ data.isOpen = true ∧
      data.fileId = fd.ftableIdx := by
  obtain ⟨fd, member, rfl⟩ := isOpen
  obtain ⟨data, cached, opened, index⟩ := invariant.descriptor fd member
  exact ⟨data, fd, member, rfl, cached, by rw [searchInode, cached, Option.getD_some], opened,
    index⟩

/-- An inode that is not open is found closed. -/
theorem search_closed (invariant : Invariant sizes system) (closed : ¬ IsOpen system inode) :
    (searchInode sizes system.files inode).isOpen = false ∧
      (searchInode sizes system.files inode).size = sizes inode := by
  cases cached : system.files.inodes inode with
  | none => simp [searchInode, cached]
  | some data =>
    obtain ⟨size, opened⟩ := invariant.cached inode data cached
    rw [searchInode, cached, Option.getD_some]
    exact ⟨Bool.eq_false_iff.mpr (mt opened closed), size⟩

/-- Two descriptors share a slot when they are open on the same file. -/
theorem Invariant.index_eq_iff (invariant : Invariant sizes system) (member : fd ∈ system.fds)
    (inside : other ∈ system.fds) :
    other.ftableIdx = fd.ftableIdx ↔ other.inodeNbr = fd.inodeNbr := by
  constructor
  · intro same
    have owner := (invariant.slot other inside).2.2
    rw [same] at owner
    exact owner.symm.trans (invariant.slot fd member).2.2
  · intro same
    obtain ⟨data, cached, _, index⟩ := invariant.descriptor fd member
    obtain ⟨otherData, otherCached, _, otherIndex⟩ := invariant.descriptor other inside
    rw [same, cached] at otherCached
    obtain rfl := Option.some.inj otherCached
    exact otherIndex.symm.trans index

section

variable (invariant : Invariant sizes system)
include invariant

/-- While the table is not full, the search ends at a slot that no descriptor names. -/
theorem free_slot_unused (room : ¬ Full system) :
    freeSlot system.files.slots fsMaxFile 0 < fsMaxFile ∧
    (∀ fd ∈ system.fds, fd.ftableIdx ≠ freeSlot system.files.slots fsMaxFile 0) ∧
    users system.fds (freeSlot system.files.slots fsMaxFile 0) = 0 := by
  obtain ⟨target, inTable, unused⟩ : ∃ target < fsMaxFile,
      ∀ fd ∈ system.fds, fd.ftableIdx ≠ target := by
    simpa [Full] using room
  have free : (system.files.slots target).size = 0 := by
    by_contra taken
    obtain ⟨fd, member, same⟩ := invariant.used target inTable taken
    exact unused fd member same
  obtain ⟨below, empty⟩ := free_slot_spec system.files.slots fsMaxFile 0 target (Nat.zero_le _)
    (by omega) free
  have noUser : ∀ fd ∈ system.fds, fd.ftableIdx ≠ freeSlot system.files.slots fsMaxFile 0 := by
    intro fd member same
    have taken := (invariant.slot fd member).2.1
    rw [same] at taken
    exact taken empty
  refine ⟨by omega, noUser, Nat.eq_zero_of_not_pos fun some => ?_⟩
  obtain ⟨fd, member, same⟩ := users_positive.mp some
  exact noUser fd member same

/-- A call that opens or closes a descriptor writes the inode and the slot of its file. They keep
their account if they count the descriptors that are left. -/
theorem Invariant.touch {files : FileTable} {left : List FsFd} {file : FsFile}
    (inodes : ∀ probe, files.inodes probe =
      if probe = fd.inodeNbr then
        some ⟨sizes fd.inodeNbr, decide (0 < users left fd.ftableIdx), fd.ftableIdx⟩
      else system.files.inodes probe)
    (slots : ∀ probe, files.slots probe =
      if probe = fd.ftableIdx then file else system.files.slots probe)
    (change : left = fd :: system.fds ∨ fd ∈ system.fds ∧ left = system.fds.erase fd)
    (pair : ∀ other ∈ system.fds,
      other.ftableIdx = fd.ftableIdx ↔ other.inodeNbr = fd.inodeNbr)
    (inside : fd.ftableIdx < fsMaxFile) (owner : file.inodeNbr = fd.inodeNbr)
    (taken : file.size ≠ 0 ↔ 0 < users left fd.ftableIdx)
    (counted : file.reference = users left fd.ftableIdx)
    (small : users left fd.ftableIdx < 2 ^ 32) : Invariant sizes ⟨files, left⟩ := by
  have kept {other : FsFd} (different : other.ftableIdx ≠ fd.ftableIdx) :
      other ∈ left ↔ other ∈ system.fds := by
    have notFd : other ≠ fd := fun same => different (congrArg FsFd.ftableIdx same)
    rcases change with rfl | ⟨_, rfl⟩
    · rw [mem_cons, or_iff_right notFd]
    · exact mem_erase_of_ne notFd
  have same {probe : Nat} (different : probe ≠ fd.ftableIdx) :
      users left probe = users system.fds probe := by
    rcases change with rfl | ⟨member, rfl⟩
    · rw [users_cons, if_neg (Ne.symm different), Nat.add_zero]
    · rw [users_erase member, if_neg (Ne.symm different), Nat.add_zero]
  have paired {other : FsFd} (member : other ∈ left) :
      other.ftableIdx = fd.ftableIdx ↔ other.inodeNbr = fd.inodeNbr := by
    rcases change with rfl | ⟨_, rfl⟩
    · rcases mem_cons.mp member with rfl | old
      · exact iff_of_true rfl rfl
      · exact pair other old
    · exact pair other (mem_of_mem_erase member)
  refine ⟨?_, ?_, ?_, ?_, ?_, ?_⟩
  · intro other member
    rw [inodes]
    by_cases own : other.ftableIdx = fd.ftableIdx
    · rw [if_pos ((paired member).mp own)]
      exact ⟨_, rfl, decide_eq_true (users_positive.mpr ⟨other, member, own⟩), own.symm⟩
    · rw [if_neg (mt (paired member).mpr own)]
      exact invariant.descriptor other ((kept own).mp member)
  · intro probe data found
    rw [inodes] at found
    split at found
    · next here =>
      obtain rfl := Option.some.inj found
      refine ⟨by rw [here], fun flag => ?_⟩
      obtain ⟨other, member, own⟩ := users_positive.mp (of_decide_eq_true flag)
      exact ⟨other, member, ((paired member).mp own).trans here.symm⟩
    · next elsewhere =>
      obtain ⟨size, isOpen⟩ := invariant.cached probe data found
      refine ⟨size, fun flag => ?_⟩
      obtain ⟨other, member, rfl⟩ := isOpen flag
      exact ⟨other, (kept (mt (pair other member).mp elsewhere)).mpr member, rfl⟩
  · intro other member
    rw [slots]
    split
    · next own =>
      exact ⟨own ▸ inside, taken.mpr (users_positive.mpr ⟨other, member, own⟩),
        owner.trans ((paired member).mp own).symm⟩
    · next different => exact invariant.slot other ((kept different).mp member)
  · intro probe
    rw [slots]
    split
    · next here => rw [here, counted]
    · next elsewhere => rw [invariant.counted, same elsewhere]
  · intro probe
    by_cases here : probe = fd.ftableIdx
    · rw [here]
      exact small
    · rw [same here]
      exact invariant.small probe
  · intro probe bound isTaken
    rw [slots] at isTaken
    split at isTaken
    · next here =>
      obtain ⟨other, member, own⟩ := users_positive.mp (taken.mp isTaken)
      exact ⟨other, member, own.trans here.symm⟩
    · next elsewhere =>
      obtain ⟨other, member, rfl⟩ := invariant.used probe bound isTaken
      exact ⟨other, (kept elsewhere).mpr member, rfl⟩

/-- A second open succeeds and keeps the table sound. -/
theorem open_again (readable : Bool) (positive : inode ≠ 0) (isOpen : IsOpen system inode)
    (few : system.fds.countP (fun fd => fd.inodeNbr = inode) + 1 < 2 ^ 32) :
    ∃ after, step sizes system (.openFile inode readable) = some after ∧
      Invariant sizes after := by
  obtain ⟨data, fd, member, rfl, cached, searched, opened, index⟩ := search_open invariant isOpen
  obtain ⟨inTable, taken, owner⟩ := invariant.slot fd member
  have sameUsers : users system.fds fd.ftableIdx =
      system.fds.countP (fun other => other.inodeNbr = fd.inodeNbr) := by
    refine countP_congr fun other inside => ?_
    rw [decide_eq_true_eq, decide_eq_true_eq]
    exact invariant.index_eq_iff member inside
  have more : users (fd :: system.fds) fd.ftableIdx = users system.fds fd.ftableIdx + 1 := by
    rw [users_cons, if_pos rfl]
  rw [← sameUsers, ← more] at few
  refine ⟨⟨increaseRef (system.files.setInode fd.inodeNbr data) fd.ftableIdx, fd :: system.fds⟩,
    ?_, invariant.touch (fun probe => ?_) (fun _ => rfl) (.inl rfl)
      (fun other inside => invariant.index_eq_iff member inside) inTable owner ?_ ?_ few⟩
  · simp [step, ext2Open, positive, searched, opened, index]
  · have size := (invariant.cached _ data cached).1
    rw [more, decide_eq_true (Nat.succ_pos _), ← size, ← index, ← opened]
    rfl
  · exact iff_of_true taken (more ▸ Nat.succ_pos _)
  · rw [more] at few ⊢
    rw [set_inode_slots, invariant.counted, Nat.mod_eq_of_lt few]

/-- A failed open of a closed file at most caches its inode. -/
theorem open_unreadable (closed : ¬ IsOpen system inode) :
    Invariant sizes
      { files := system.files.setInode inode (searchInode sizes system.files inode),
        fds := system.fds } := by
  obtain ⟨notOpen, size⟩ := search_closed invariant closed
  refine ⟨?_, ?_, invariant.slot, invariant.counted, invariant.small, invariant.used⟩
  · intro fd member
    have different : fd.inodeNbr ≠ inode := fun same => closed ⟨fd, member, same⟩
    rw [set_inode_inodes, if_neg different]
    exact invariant.descriptor fd member
  · intro probe data found
    rw [set_inode_inodes] at found
    split at found
    · next same =>
      obtain rfl := Option.some.inj found
      refine ⟨same ▸ size, fun flag => ?_⟩
      rw [notOpen] at flag
      cases flag
    · exact invariant.cached probe data found

/-- The first open of a file that is not empty takes a free slot. -/
theorem open_first (positive : inode ≠ 0) (closed : ¬ IsOpen system inode)
    (notEmpty : sizes inode ≠ 0) (room : ¬ Full system) :
    ∃ after, step sizes system (.openFile inode true) = some after ∧ Invariant sizes after := by
  obtain ⟨notOpen, size⟩ := search_closed invariant closed
  obtain ⟨inside, noUser, noCount⟩ := free_slot_unused invariant room
  generalize indexIs : freeSlot system.files.slots fsMaxFile 0 = index at inside noUser noCount
  have fresh := invariant.counted index
  rw [noCount] at fresh
  have one : users (⟨index, inode⟩ :: system.fds) index = 1 := by
    rw [users_cons, noCount, if_pos rfl]
  refine ⟨⟨increaseRef ((system.files.setSlot index ⟨sizes inode, 0, inode⟩).setInode inode
      ⟨sizes inode, true, index⟩) index, ⟨index, inode⟩ :: system.fds⟩, ?_,
    @Invariant.touch ⟨index, inode⟩ _ _ invariant _ _ ⟨sizes inode, 1, inode⟩ (fun probe => ?_)
      (fun probe => ?_) (.inl rfl) (fun other member => ?_) inside rfl ?_ one.symm ?_⟩
  · simp [step, ext2Open, addFileToCache, positive, notOpen, size, indexIs, inside, fresh]
  · rw [one]
    rfl
  · simp only [increaseRef, set_slot_slots, set_inode_slots]
    split
    · rfl
    · rfl
  · exact iff_of_false (noUser other member) fun same => closed ⟨other, member, same⟩
  · rw [one]
    exact iff_of_true notEmpty Nat.one_pos
  · rw [one]
    decide

end

end Steps

/-- Every close of an open descriptor, and every open under the condition, keeps the
invariant. -/
theorem machine_invariant (sizes : Nat → Nat) :
    Inductive (machine sizes (Fits sizes)) (Invariant sizes) where
  starts := by
    rintro system rfl
    exact ⟨by simp, by simp, by simp, by simp [users], by simp [users], by simp⟩
  preserved := by
    rintro system call invariant permitted
    cases call with
    | openFile inode readable =>
      by_cases positive : inode = 0
      · exact ⟨system, by simp [machine, step, ext2Open, positive], invariant⟩
      rcases permitted with absent | ⟨isOpen, few⟩ | ⟨closed, failed | ⟨notEmpty, room⟩⟩
      · exact absurd absent positive
      · exact open_again invariant readable positive isOpen few
      · obtain ⟨notOpen, _⟩ := search_closed invariant closed
        refine ⟨_, ?_, open_unreadable invariant closed⟩
        simp [machine, step, ext2Open, positive, notOpen, failed]
      · cases readable with
        | true => exact open_first invariant positive closed notEmpty room
        | false =>
          obtain ⟨notOpen, _⟩ := search_closed invariant closed
          refine ⟨_, ?_, open_unreadable invariant closed⟩
          simp [machine, step, ext2Open, positive, notOpen]
    | close fd =>
      obtain ⟨data, cached, opened, index⟩ := invariant.descriptor fd permitted
      obtain ⟨inside, taken, owner⟩ := invariant.slot fd permitted
      have size := (invariant.cached _ data cached).1
      have counted := invariant.counted fd.ftableIdx
      have small := invariant.small fd.ftableIdx
      rw [users_erase permitted, if_pos rfl] at counted small
      have rest : ((system.files.slots fd.ftableIdx).reference + (2 ^ 32 - 1)) % 2 ^ 32 =
          users (system.fds.erase fd) fd.ftableIdx := by
        omega
      refine ⟨_, rfl, ?_⟩
      simp only [ext2Close, searchInode, cached, rest, Option.getD_some]
      split
      · next last =>
        refine invariant.touch (fun probe => ?_) (fun _ => rfl) (.inr ⟨permitted, rfl⟩)
          (fun other member => invariant.index_eq_iff permitted member) inside owner ?_ last.symm
          (Nat.lt_of_succ_lt small)
        · rw [last, ← size, ← index]
          rfl
        · rw [last]
          exact iff_of_false (absurd rfl) (Nat.lt_irrefl 0)
      · next shared =>
        have positive := Nat.pos_of_ne_zero shared
        refine invariant.touch (fun probe => ?_) (fun _ => rfl) (.inr ⟨permitted, rfl⟩)
          (fun other member => invariant.index_eq_iff permitted member) inside owner
          (iff_of_true taken positive) rfl (Nat.lt_of_succ_lt small)
        rw [decide_eq_true positive, ← size, ← index, ← opened]
        rfl

/-- In every run whose opens all meet the condition, different open files have
different slots, every slot index is in the table, and opening one file more than the
table holds fails and leaves the table alone. -/
theorem open_files_sound (sizes : Nat → Nat) (system : System)
    (reached : Reachable (machine sizes (Fits sizes)) system) :
    SlotsSound system ∧
      ∀ inode readable, Full system → ¬ IsOpen system inode → Fits sizes system inode readable →
        Refuses sizes system inode readable := by
  have invariant := (machine_invariant sizes).holds reached
  refine ⟨⟨?_, fun fd member => (invariant.slot fd member).1⟩, ?_⟩
  · intro first firstMember second secondMember different same
    have here := (invariant.slot first firstMember).2.2
    have there := (invariant.slot second secondMember).2.2
    rw [same] at here
    exact different (here.symm.trans there)
  · rintro inode readable full closed (absent | ⟨isOpen, _⟩ | ⟨_, failed | ⟨_, room⟩⟩)
    · simp [Refuses, ext2Open, absent]
    · exact absurd isOpen closed
    · obtain ⟨notOpen, _⟩ := search_closed invariant closed
      by_cases positive : inode = 0
      · simp [Refuses, ext2Open, positive]
      · simp [Refuses, ext2Open, positive, notOpen, failed]
    · exact absurd full room

/-- The empty table. -/
def noneOpen : System :=
  { files := { slots := fun _ => ⟨0, 0, 0⟩, inodes := fun _ => none }, fds := [] }

/-- A file of one block is opened. -/
def opened (system : System) (inode : Nat) : System :=
  let (fd, files) := ext2Open (fun _ => 4096) system.files inode true
  { files := files, fds := fd.toList ++ system.fds }

/-- Files 12 and 13 are opened, and 12 once more. -/
def threeOpen : System := opened (opened (opened noneOpen 12) 13) 12

/-- A descriptor of file 12 is closed again. -/
def twoOpen : System :=
  { files := ext2Close (fun _ => 4096) threeOpen.files ⟨0, 12⟩, fds := threeOpen.fds.erase ⟨0, 12⟩ }

theorem twoOpen_reachable :
    Reachable (machine (fun _ => 4096) (Fits (fun _ => 4096))) twoOpen := by
  have room (system : System) (free : ∀ fd ∈ system.fds, fd.ftableIdx ≠ 5) : ¬ Full system := by
    intro full
    obtain ⟨fd, member, isLast⟩ := full 5 (by decide)
    exact free fd member isLast
  have one : Reachable (machine (fun _ => 4096) (Fits (fun _ => 4096))) (opened noneOpen 12) :=
    (Reachable.initial rfl).call (.openFile 12 true)
      (.inr (.inr ⟨by unfold IsOpen; decide, .inr ⟨by decide, room _ (by decide)⟩⟩)) rfl
  have two : Reachable (machine (fun _ => 4096) (Fits (fun _ => 4096)))
      (opened (opened noneOpen 12) 13) :=
    one.call (.openFile 13 true)
      (.inr (.inr ⟨by unfold IsOpen; decide, .inr ⟨by decide, room _ (by decide)⟩⟩)) rfl
  have three : Reachable (machine (fun _ => 4096) (Fits (fun _ => 4096))) threeOpen :=
    two.call (.openFile 12 true) (.inr (.inl ⟨by unfold IsOpen; decide, by decide⟩)) rfl
  exact three.call (.close ⟨0, 12⟩) (show _ ∈ threeOpen.fds by decide) rfl

/-- Two files are open. -/
theorem open_files_sound_two : SlotsSound twoOpen ∧ twoOpen.fds = [⟨1, 13⟩, ⟨0, 12⟩] :=
  ⟨(open_files_sound (fun _ => 4096) twoOpen twoOpen_reachable).1, by decide⟩

/-- A slot has as many references as descriptors, and is free without any. -/
theorem slots_referenced {sizes : Nat → Nat} {system : System}
    (reached : Reachable (machine sizes (Fits sizes)) system) {index : Nat}
    (inside : index < fsMaxFile) :
    (system.files.slots index).reference = users system.fds index ∧
      ((system.files.slots index).size ≠ 0 ↔ 0 < users system.fds index) := by
  have invariant := (machine_invariant sizes).holds reached
  rw [users_positive]
  refine ⟨invariant.counted index, invariant.used index inside, ?_⟩
  rintro ⟨fd, member, rfl⟩
  exact (invariant.slot fd member).2.1

/-- The slot of file 12, which one of two descriptors still names. -/
theorem slots_referenced_two : (twoOpen.files.slots 0).reference = 1 ∧ users twoOpen.fds 0 = 1 := by
  have one : users twoOpen.fds 0 = 1 := by decide
  have referenced := (slots_referenced twoOpen_reachable (show 0 < fsMaxFile by decide)).1
  exact ⟨referenced.trans one, one⟩

/-- Two empty files opened one after the other get the same slot: a slot of size zero
counts as free. -/
theorem empty_files_share_slot :
    ∃ system, Reachable (machine (fun _ => 0) (fun _ _ _ => True)) system ∧
      ¬ SlotsSound system := by
  refine ⟨_, ((Reachable.initial rfl).call (.openFile 12 true) trivial rfl).call
    (.openFile 13 true) trivial rfl, ?_⟩
  intro sound
  exact sound.1 ⟨0, 13⟩ (by decide) ⟨0, 12⟩ (by decide) (by decide) rfl

end Balrog.OpenFiles
