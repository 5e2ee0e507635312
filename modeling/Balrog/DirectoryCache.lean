import Balrog.OpenFiles
import Balrog.PathActions

/-!
# Directories in the open-file cache

A directory that is opened is read into the buffer of a slot of the open-file table, and every
further open gets that slot. `ext2_create` and `ext2_mkdir` ask `fs_cache_invalidate` to forget
the slot of the directory they change; `__ext2_remove` does not. `fs_cache_invalidate` refuses
when the slot has no references, and also when it has some.

Paths have been resolved to the directory and the name in it, so that the directories on the way
are not put in the inode cache. A buffer is the list of entries that it holds. A cached inode
has the size that the image has for it; its blocks are left out, and so are writes to the
buffers, with which no directory is changed.
-/

namespace Balrog.DirectoryCache

open Runs Function OpenFiles PathActions List Option

/-- The image with the sizes of its inodes, the open files, and what the buffers of the slots
hold. -/
structure System where
  image : Image
  sizes : Nat → Nat
  table : OpenFiles.System
  data : Nat → List Entry

/-- `ext2_open`: a file that is not open is read into the buffer of its slot. -/
def ext2Open (system : System) (inode : Nat) : Option FsFd × System :=
  let (fd, files) := OpenFiles.ext2Open system.sizes system.table.files inode
    (system.image.readFile inode).isSome
  let data := match fd, system.image.readFile inode with
    | some fd, some entries =>
      if (searchInode system.sizes system.table.files inode).isOpen = false ∧
          fd.ftableIdx < fsMaxFile then
        update system.data fd.ftableIdx entries
      else system.data
    | _, _ => system.data
  (fd, { system with table := { files := files, fds := fd.toList ++ system.table.fds },
                     data := data })

/-- `ext2_read` of a whole directory; nothing stands for the result -1, and for the null
pointer that `fs_cache_get_file` returns past the table. -/
def ext2Read (system : System) (fd : FsFd) : Option (List Entry) :=
  if fsMaxFile ≤ fd.ftableIdx then none
  else if (searchInode system.sizes system.table.files
      (system.table.files.slots fd.ftableIdx).inodeNbr).isOpen = false then none
  else some (system.data fd.ftableIdx)

/-- `fs_cache_invalidate`: whether it returns 0, and the table. -/
def fsCacheInvalidate (files : FileTable) (index : Nat) : Bool × FileTable :=
  if fsMaxFile ≤ index ∨ (files.slots index).reference = 0 then (false, files)
  else if (files.slots index).reference ≠ 0 then (false, files)
  else (true, files.setSlot index { files.slots index with size := 0 })

/-- `ext2_invalidate_cache` -/
def ext2InvalidateCache (files : FileTable) (inode : Nat) (data : Idata) : FileTable :=
  if data.isOpen then
    let (invalidated, files) := fsCacheInvalidate files data.fileId
    files.setInode inode { data with isOpen := !invalidated }
  else files

/-- What `ext2_cache_search_inode` leaves in the cache. -/
def cacheInode (sizes : Nat → Nat) (files : FileTable) (inode : Nat) : FileTable :=
  files.setInode inode (searchInode sizes files inode)

/-- `ext2_cache_delete_inode` -/
def ext2CacheDeleteInode (files : FileTable) (inode : Nat) : FileTable :=
  { files with inodes := update files.inodes inode none }

/-- What a lookup in the directory on the volume gives. -/
def found (image : Image) (directory : Nat) (filename : String) : Option Entry :=
  (image.readFile directory).bind fun entries => readDirEntry entries filename

/-- `__ext2_remove` in a directory. -/
def ext2Remove (system : System) (operation : Operation) (supply : Supply) (type directory : Nat)
    (filename : String) : System :=
  let (done, image) := act operation supply system.image directory filename
  let files := cacheInode system.sizes system.table.files directory
  match found system.image directory filename with
  | none => { system with image := image, table := { system.table with files := files } }
  | some entry =>
    if done then
      { system with
        image := image
        sizes := update system.sizes entry.inode 0
        table := { system.table with files := ext2CacheDeleteInode files entry.inode } }
    else
      { system with
        image := image
        table := { system.table with
          files := if entry.type = type then cacheInode system.sizes files entry.inode
            else files } }

/-- An operation on a name in a directory; `size` is the size of a file that is created. -/
def change (system : System) (operation : Operation) (supply : Supply) (size directory : Nat)
    (filename : String) : System :=
  match operation with
  | .create =>
    let (done, image) := act operation supply system.image directory filename
    let files := cacheInode system.sizes system.table.files directory
    { system with
      image := image
      sizes := if done then update system.sizes supply.inode size else system.sizes
      table := { system.table with
        files := if (system.image.readFile directory).isSome then
            ext2InvalidateCache files directory
              (searchInode system.sizes system.table.files directory)
          else files } }
  | .mkdir =>
    let (done, image) := act operation supply system.image directory filename
    let files := cacheInode system.sizes system.table.files directory
    if done then
      let sizes := update system.sizes supply.inode 4096
      { system with
        image := image
        sizes := sizes
        table := { system.table with
          files := ext2InvalidateCache (cacheInode sizes files supply.inode) directory
            (searchInode system.sizes system.table.files directory) } }
    else { system with image := image, table := { system.table with files := files } }
  | .unlink => ext2Remove system .unlink supply regularFile directory filename
  | .rmdir => ext2Remove system .rmdir supply directoryType directory filename

/-- The calls on the table of open files and on the directories. -/
inductive Call where
  | openFile (inode : Nat)
  | close (fd : FsFd)
  | change (operation : Operation) (supply : Supply) (size directory : Nat) (filename : String)

/-- One call, on the volume and on the table of open files together. -/
def step (system : System) : Call → Option System
  | .openFile inode => some (ext2Open system inode).2
  | .close fd =>
    some { system with
      table := { files := ext2Close system.sizes system.table.files fd
                 fds := system.table.fds.erase fd } }
  | .change operation supply size directory filename =>
    some (change system operation supply size directory filename)

/-- Only open descriptors are closed; `condition` restricts the other calls. -/
def allowed (condition : System → Call → Prop) (system : System) : Call → Prop
  | .close fd => fd ∈ system.table.fds
  | call => condition system call

/-- The runs from empty tables, on any image. -/
def machine (condition : System → Call → Prop) : Machine System Call where
  initial system := system.table =
    { files := { slots := fun _ => ⟨0, 0, 0⟩, inodes := fun _ => none }, fds := [] }
  allowed := allowed condition
  step := step

/-- Whoever opens the directory reads what the volume holds of it. -/
def ReadsCurrent (system : System) (directory : Nat) : Prop :=
  ∀ entries, system.image.readFile directory = some entries →
    ∃ fd after, ext2Open system directory = (some fd, after) ∧ ext2Read after fd = some entries

/-- When the table stays sound: opens fit in it, a new inode is not in the cache, and a file that
is removed is not open. -/
def Tidy (system : System) : Call → Prop
  | .openFile inode =>
    Fits system.sizes system.table inode (system.image.readFile inode).isSome
  | .close _ => True
  | .change operation supply _ directory filename =>
    match operation with
    | .create | .mkdir =>
      supply.inode ≠ directory ∧ system.table.files.inodes supply.inode = none
    | .unlink | .rmdir =>
      ∀ entry, found system.image directory filename = some entry →
        ¬ IsOpen system.table entry.inode

/-- When a directory stays current as well: it is not open when it is changed. -/
def Quiet (watched : Nat) (system : System) (call : Call) : Prop :=
  Tidy system call ∧
    match call with
    | .change _ _ _ directory _ => directory = watched → ¬ IsOpen system.table watched
    | _ => True

/-- The table is sound, and an open directory that is watched has its entries in its buffer. -/
structure Invariant (watched : Nat) (system : System) : Prop where
  table : OpenFiles.Invariant system.sizes system.table
  current : ∀ fd ∈ system.table.fds, fd.inodeNbr = watched →
    system.image.readFile watched = some (system.data fd.ftableIdx)

/-- A slot is never invalidated: it is refused with references and without. -/
theorem fsCacheInvalidate_refuses (files : FileTable) (index : Nat) :
    fsCacheInvalidate files index = (false, files) := by
  unfold fsCacheInvalidate
  split
  · rfl
  · next referenced => exact if_pos fun none => referenced (.inr none)

variable {files : FileTable} {data : Idata} {directory size watched inode probe : Nat}
  {filename : String} {supply : Supply} {operation : Operation}

theorem setInode_same (cached : files.inodes inode = some data) :
    files.setInode inode data = files := by
  have same : (fun probe => if probe = inode then some data else files.inodes probe) =
      files.inodes := by
    funext probe
    split
    · next isInode => rw [isInode, cached]
    · rfl
  rw [FileTable.setInode, same]

/-- Invalidating a cached inode with its own data changes nothing. -/
theorem ext2InvalidateCache_eq (cached : files.inodes inode = some data) :
    ext2InvalidateCache files inode data = files := by
  rw [ext2InvalidateCache]
  split
  · next isOpen =>
    simp only [fsCacheInvalidate_refuses, Bool.not_false]
    rw [← isOpen]
    exact setInode_same cached
  · rfl

section Table

variable {sizes : Nat → Nat} {table : OpenFiles.System}

section

variable (sound : OpenFiles.Invariant sizes table)
include sound

/-- Caching an inode keeps the table sound. -/
theorem cacheInode_sound (inode : Nat) :
    OpenFiles.Invariant sizes { table with files := cacheInode sizes table.files inode } := by
  by_cases isOpen : IsOpen table inode
  · obtain ⟨data, _, _, _, cached, searched, _⟩ := search_open sound isOpen
    rw [cacheInode, searched, setInode_same cached]
    exact sound
  · exact open_unreadable sound isOpen

/-- An inode that is not cached may get another size. -/
theorem resize_sound (size : Nat) (absent : table.files.inodes inode = none) :
    OpenFiles.Invariant (update sizes inode size) table := by
  refine { sound with cached := fun probe data cached => ?_ }
  have different : probe ≠ inode := by
    rintro rfl
    rw [absent] at cached
    cases cached
  rw [update_of_ne different]
  exact sound.cached probe data cached

/-- An inode that is not open may be taken out of the cache. -/
theorem delete_sound (closed : ¬ IsOpen table inode) :
    OpenFiles.Invariant sizes
      { table with files := ext2CacheDeleteInode table.files inode } := by
  refine { sound with
    descriptor := fun fd member => ?_
    cached := fun probe data cached => ?_ }
  · have different : fd.inodeNbr ≠ inode := fun same => closed ⟨fd, member, same⟩
    simp only [ext2CacheDeleteInode, update_of_ne different]
    exact sound.descriptor fd member
  · have different : probe ≠ inode := by
      rintro rfl
      simp [ext2CacheDeleteInode] at cached
    simp only [ext2CacheDeleteInode, update_of_ne different] at cached
    exact sound.cached probe data cached

/-- An inode that is not cached is not open. -/
theorem closed_of_absent (absent : table.files.inodes inode = none) : ¬ IsOpen table inode := by
  rintro ⟨fd, member, rfl⟩
  obtain ⟨data, cached, _⟩ := sound.descriptor fd member
  rw [absent] at cached
  cases cached

end

end Table

/-- The inodes that an operation may write: the directory, and the file that it makes or removes. -/
def Touched (operation : Operation) (supply : Supply) (image : Image) (directory : Nat)
    (filename : String) (probe : Nat) : Prop :=
  probe = directory ∨
    match operation with
    | .create | .mkdir => probe = supply.inode
    | .unlink | .rmdir => ∃ entry, found image directory filename = some entry ∧
        probe = entry.inode

variable (image : Image) {entries : List Entry}

/-- A removal writes the directory and the removed file only. -/
theorem remove_untouched (isRead : image.readFile directory = some entries) (type probe : Nat)
    (other : probe ≠ directory)
    (apart : ∀ entry, found image directory filename = some entry → probe ≠ entry.inode) :
    (remove image directory entries filename type).2.readFile probe = image.readFile probe := by
  rw [remove]
  cases isFound : readDirEntry entries filename with
  | none => rfl
  | some entry =>
    have different : probe ≠ entry.inode := apart entry (by rw [found, isRead]; exact isFound)
    simp only
    split
    · rfl
    · split
      · rfl
      · simp [updateDir, update_of_ne other, update_of_ne different]

/-- A new entry writes the directory and the new file only. -/
theorem createNewDirEntry_untouched (entries : List Entry) (filename : String)
    (type mode probe : Nat) (other : probe ≠ directory) (apart : probe ≠ supply.inode) :
    (createNewDirEntry image supply directory entries filename type mode).2.readFile probe =
      image.readFile probe := by
  rw [createNewDirEntry]
  split
  · rfl
  · split
    · rfl
    · split
      · simp [updateDir, update_of_ne other, update_of_ne apart]
      · rfl

/-- A creation that succeeds returns the inode that it was supplied with. -/
theorem createNewDirEntry_inode (supply : Supply) (directory : Nat) (entries : List Entry)
    (filename : String) (type mode : Nat)
    (nonzero : (createNewDirEntry image supply directory entries filename type mode).1 ≠ 0) :
    (createNewDirEntry image supply directory entries filename type mode).1 = supply.inode := by
  revert nonzero
  rw [createNewDirEntry]
  split
  · exact fun nonzero => absurd rfl nonzero
  · split
    · exact fun nonzero => absurd rfl nonzero
    · split
      · exact fun _ => rfl
      · exact fun nonzero => absurd rfl nonzero

/-- An operation changes no file but those that it touches. -/
theorem act_untouched {image : Image}
    (untouched : ¬ Touched operation supply image directory filename probe) :
    (act operation supply image directory filename).2.readFile probe = image.readFile probe := by
  obtain ⟨other, apart⟩ := not_or.mp untouched
  rw [act]
  cases isRead : image.readFile directory with
  | none => rfl
  | some entries =>
    cases operation with
    | create =>
      exact createNewDirEntry_untouched image entries filename _ _ probe other
        apart
    | mkdir =>
      have created := createNewDirEntry_untouched image entries filename
        directoryType (0x4000 ||| 0o770) probe other apart
      have isInode := createNewDirEntry_inode image supply directory entries filename
        directoryType (0x4000 ||| 0o770)
      simp only
      split
      · exact created
      · next nonzero =>
        split
        · exact created
        · have different : probe ≠ (createNewDirEntry image supply directory entries filename
              directoryType (0x4000 ||| 0o770)).1 := by
            rw [isInode nonzero]
            exact apart
          simp only [updateDir, update_of_ne different]
          exact created
    | unlink =>
      exact remove_untouched image isRead _ probe other
        fun entry isFound same => apart ⟨entry, isFound, same⟩
    | rmdir =>
      exact remove_untouched image isRead _ probe other
        fun entry isFound same => apart ⟨entry, isFound, same⟩

/-- A change acts on the volume, and leaves the descriptors and the cached data alone. -/
theorem change_effect (system : System) (operation : Operation) (supply : Supply)
    (size directory : Nat) (filename : String) :
    let after := change system operation supply size directory filename
    after.image = (act operation supply system.image directory filename).2 ∧
      after.table.fds = system.table.fds ∧ after.data = system.data := by
  have removed (operation : Operation) (type : Nat) :
      let after := ext2Remove system operation supply type directory filename
      after.image = (act operation supply system.image directory filename).2 ∧
        after.table.fds = system.table.fds ∧ after.data = system.data := by
    rw [ext2Remove]
    cases found system.image directory filename with
    | none => exact ⟨rfl, rfl, rfl⟩
    | some entry =>
      simp only
      split <;> exact ⟨rfl, rfl, rfl⟩
  cases operation with
  | create => exact ⟨rfl, rfl, rfl⟩
  | mkdir =>
    rw [change]
    simp only
    split <;> exact ⟨rfl, rfl, rfl⟩
  | unlink => exact removed .unlink regularFile
  | rmdir => exact removed .rmdir directoryType

variable {system : System}

section

variable (sound : OpenFiles.Invariant system.sizes system.table)
include sound

/-- A removal of a file that is not open keeps the table sound. -/
theorem ext2Remove_sound (operation : Operation) (supply : Supply) (type directory : Nat)
    (closed : ∀ entry, found system.image directory filename = some entry →
      ¬ IsOpen system.table entry.inode) :
    OpenFiles.Invariant (ext2Remove system operation supply type directory filename).sizes
      (ext2Remove system operation supply type directory filename).table := by
  have cached := cacheInode_sound sound directory
  rw [ext2Remove]
  cases isFound : found system.image directory filename with
  | none => exact cached
  | some entry =>
    simp only
    split
    · refine resize_sound (delete_sound cached ?_) 0 ?_
      · exact closed entry isFound
      · exact update_self _ _ _
    · split
      · exact cacheInode_sound cached entry.inode
      · exact cached

/-- A tidy change keeps the table sound. -/
theorem change_sound (condition : Tidy system (.change operation supply size directory filename)) :
    OpenFiles.Invariant (change system operation supply size directory filename).sizes
      (change system operation supply size directory filename).table := by
  have cached := cacheInode_sound sound directory
  have isCached : (cacheInode system.sizes system.table.files directory).inodes directory =
      some (searchInode system.sizes system.table.files directory) := if_pos rfl
  cases operation with
  | create =>
    obtain ⟨apart, absent⟩ := condition
    have stillAbsent :
        (cacheInode system.sizes system.table.files directory).inodes supply.inode = none := by
      rw [cacheInode, set_inode_inodes, if_neg apart, absent]
    rw [change]
    simp only [ext2InvalidateCache_eq isCached, ite_self]
    split
    · exact resize_sound cached size stillAbsent
    · exact cached
  | mkdir =>
    obtain ⟨apart, absent⟩ := condition
    have stillAbsent :
        (cacheInode system.sizes system.table.files directory).inodes supply.inode = none := by
      rw [cacheInode, set_inode_inodes, if_neg apart, absent]
    rw [change]
    simp only
    split
    · have resized := cacheInode_sound (resize_sound cached 4096 stillAbsent) supply.inode
      rwa [ext2InvalidateCache_eq]
      rw [cacheInode, set_inode_inodes, if_neg (Ne.symm apart), isCached]
    · exact cached
  | unlink => exact ext2Remove_sound sound .unlink supply regularFile directory condition
  | rmdir => exact ext2Remove_sound sound .rmdir supply directoryType directory condition

/-- An open file is not touched by an operation under the condition, unless it is the directory
itself. -/
theorem untouched_of_open
    (quiet : Quiet watched system (.change operation supply size directory filename))
    (isOpen : IsOpen system.table watched) :
    ¬ Touched operation supply system.image directory filename watched := by
  obtain ⟨condition, apart⟩ := quiet
  rintro (same | touched)
  · exact apart same.symm isOpen
  · cases operation with
    | create => exact closed_of_absent sound condition.2 (touched ▸ isOpen)
    | mkdir => exact closed_of_absent sound condition.2 (touched ▸ isOpen)
    | unlink =>
      obtain ⟨entry, isFound, same⟩ := touched
      exact condition entry isFound (same ▸ isOpen)
    | rmdir =>
      obtain ⟨entry, isFound, same⟩ := touched
      exact condition entry isFound (same ▸ isOpen)

end

/-- An operation under the condition keeps the invariant. -/
theorem Invariant.change (invariant : Invariant watched system)
    (quiet : Quiet watched system (.change operation supply size directory filename)) :
    Invariant watched (change system operation supply size directory filename) := by
  refine ⟨change_sound invariant.table quiet.1, fun fd member watches => ?_⟩
  obtain ⟨image, fds, data⟩ := change_effect system operation supply size directory filename
  rw [fds] at member
  have untouched := untouched_of_open invariant.table quiet ⟨fd, member, watches⟩
  rw [image, data, act_untouched untouched]
  exact invariant.current fd member watches

/-- An open keeps the table sound. -/
theorem open_sound (sound : OpenFiles.Invariant system.sizes system.table)
    (fits : Tidy system (.openFile inode)) :
    OpenFiles.Invariant system.sizes (ext2Open system inode).2.table := by
  obtain ⟨after, result, opened⟩ := (machine_invariant system.sizes).preserved system.table
    (.openFile inode (system.image.readFile inode).isSome) sound fits
  obtain rfl := Option.some.inj result
  exact opened

/-- A second open of a file shares the data of the first. -/
theorem ext2Open_again (nonzero : inode ≠ 0)
    (isOpen : (searchInode system.sizes system.table.files inode).isOpen = true) :
    (ext2Open system inode).2.data = system.data ∧
      (ext2Open system inode).2.table.fds =
        ⟨(searchInode system.sizes system.table.files inode).fileId, inode⟩ ::
          system.table.fds := by
  simp only [ext2Open, OpenFiles.ext2Open, if_neg nonzero, isOpen, Bool.true_eq_false, if_false,
    false_and, toList_some]
  refine ⟨?_, rfl⟩
  split <;> rfl

/-- An open that fails changes neither descriptors nor buffers. -/
theorem ext2Open_failed {system : System}
    (fails : inode = 0 ∨ ((searchInode system.sizes system.table.files inode).isOpen = false ∧
      system.image.readFile inode = none)) :
    (ext2Open system inode).2.data = system.data ∧
      (ext2Open system inode).2.table.fds = system.table.fds := by
  rcases fails with zero | ⟨closed, unreadable⟩
  · simp [ext2Open, OpenFiles.ext2Open, zero]
  · by_cases zero : inode = 0
    · simp [ext2Open, OpenFiles.ext2Open, zero]
    · simp [ext2Open, OpenFiles.ext2Open, zero, closed, unreadable]

/-- The first open of a file reads it into the buffer of its slot. -/
theorem ext2Open_first (nonzero : inode ≠ 0)
    (closed : (searchInode system.sizes system.table.files inode).isOpen = false)
    (isRead : system.image.readFile inode = some entries) :
    ∃ fd : FsFd, fd.inodeNbr = inode ∧
      (ext2Open system inode).2.table.fds = fd :: system.table.fds ∧
      (fd.ftableIdx < fsMaxFile →
        (ext2Open system inode).2.data = update system.data fd.ftableIdx entries) := by
  simp only [ext2Open, OpenFiles.ext2Open, if_neg nonzero, isRead, closed, isSome_some,
    Bool.true_eq_false, if_true, if_false, true_and, toList_some]
  exact ⟨_, rfl, rfl, fun inside => if_pos inside⟩

/-- An open of a file that can be read returns a descriptor of it. -/
theorem ext2Open_fd (nonzero : inode ≠ 0) (isRead : system.image.readFile inode = some entries) :
    ∃ fd, (ext2Open system inode).1 = some fd ∧ fd.inodeNbr = inode ∧
      fd ∈ (ext2Open system inode).2.table.fds := by
  simp only [ext2Open, OpenFiles.ext2Open, if_neg nonzero, isRead, isSome_some,
    Bool.true_eq_false, if_false]
  split
  · exact ⟨_, rfl, rfl, mem_cons_self⟩
  · exact ⟨_, rfl, rfl, mem_cons_self⟩

/-- An open keeps the invariant of the watched directory. -/
theorem Invariant.openFile (invariant : Invariant watched system)
    (fits : Tidy system (.openFile inode)) : Invariant watched (ext2Open system inode).2 := by
  have sound := open_sound invariant.table fits
  refine ⟨sound, fun fd member watches => ?_⟩
  have kept (data : (ext2Open system inode).2.data = system.data) (old : fd ∈ system.table.fds) :
      system.image.readFile watched = some ((ext2Open system inode).2.data fd.ftableIdx) := by
    rw [data]
    exact invariant.current fd old watches
  by_cases zero : inode = 0
  · obtain ⟨data, fds⟩ := ext2Open_failed (.inl zero)
    exact kept data (fds ▸ member)
  cases isOpen : (searchInode system.sizes system.table.files inode).isOpen with
  | true =>
    obtain ⟨data, fds⟩ := ext2Open_again zero isOpen
    rcases mem_cons.mp (fds ▸ member) with rfl | old
    · -- the new descriptor shares the slot of an old one
      have holder : IsOpen system.table inode := by
        by_contra closed
        exact absurd ((search_closed invariant.table closed).1.symm.trans isOpen) (by decide)
      obtain ⟨found, other, inside, same, _, searched, _, index⟩ :=
        search_open invariant.table holder
      have current := invariant.current other inside (same.trans watches)
      rw [data, searched, index]
      exact current
    · exact kept data old
  | false =>
    cases isRead : system.image.readFile inode with
    | none =>
      obtain ⟨data, fds⟩ := ext2Open_failed (.inr ⟨isOpen, isRead⟩)
      exact kept data (fds ▸ member)
    | some entries =>
      obtain ⟨new, isInode, fds, loaded⟩ := ext2Open_first zero isOpen isRead
      have newMember : new ∈ (ext2Open system inode).2.table.fds := fds ▸ mem_cons_self
      have data := loaded (sound.slot new newMember).1
      by_cases same : fd.ftableIdx = new.ftableIdx
      · -- descriptors of one slot are of one file
        have owner := (sound.slot fd member).2.2
        rw [same, (sound.slot new newMember).2.2, isInode, watches] at owner
        rw [data, same, update_self]
        exact owner ▸ isRead
      · have old : fd ∈ system.table.fds := by
          rcases mem_cons.mp (fds ▸ member) with rfl | old
          · exact absurd rfl same
          · exact old
        rw [data, update_of_ne same]
        exact invariant.current fd old watches

/-- A close of an open descriptor keeps the table sound. -/
theorem close_sound (sound : OpenFiles.Invariant system.sizes system.table) {fd : FsFd}
    (member : fd ∈ system.table.fds) :
    OpenFiles.Invariant system.sizes
      { files := ext2Close system.sizes system.table.files fd
        fds := system.table.fds.erase fd } := by
  obtain ⟨after, result, closed⟩ := (machine_invariant system.sizes).preserved system.table
    (.close fd) sound member
  obtain rfl := Option.some.inj result
  exact closed

/-- The table is sound throughout a tidy run. -/
theorem table_inductive :
    Inductive (machine Tidy) fun system => OpenFiles.Invariant system.sizes system.table where
  starts := by
    intro system starts
    exact (machine_invariant system.sizes).starts system.table starts
  preserved := by
    rintro system call sound permitted
    cases call with
    | openFile inode => exact ⟨_, rfl, open_sound sound permitted⟩
    | close fd => exact ⟨_, rfl, close_sound sound permitted⟩
    | change operation supply size directory filename =>
      exact ⟨_, rfl, change_sound sound permitted⟩

/-- The invariant of the watched directory holds throughout a quiet run. -/
theorem invariant_inductive (watched : Nat) :
    Inductive (machine (Quiet watched)) (Invariant watched) where
  starts := by
    intro system starts
    refine ⟨table_inductive.starts system starts, fun fd member => ?_⟩
    rw [starts] at member
    cases member
  preserved := by
    rintro system call invariant permitted
    cases call with
    | openFile inode => exact ⟨_, rfl, invariant.openFile permitted.1⟩
    | close fd =>
      exact ⟨_, rfl, close_sound invariant.table permitted,
        fun other inside => invariant.current other (mem_of_mem_erase inside)⟩
    | change operation supply size directory filename =>
      exact ⟨_, rfl, invariant.change permitted⟩

/-- In every tidy run, an open and a read of a directory give the entries that it has, if it is
not open before, or has never been changed while it was open. -/
theorem directory_current {watched : Nat} (nonzero : watched ≠ 0) {system : System}
    (reached : Reachable (machine Tidy) system) (fits : Tidy system (.openFile watched))
    (quiet : ¬ IsOpen system.table watched ∨ Reachable (machine (Quiet watched)) system) :
    ReadsCurrent system watched := by
  have invariant : Invariant watched system := by
    rcases quiet with closed | quiet
    · exact ⟨table_inductive.holds reached,
        fun fd member watches => absurd ⟨fd, member, watches⟩ closed⟩
    · exact (invariant_inductive watched).holds quiet
  have opened := invariant.openFile fits
  intro entries isRead
  obtain ⟨fd, returned, isInode, member⟩ := ext2Open_fd nonzero isRead
  refine ⟨fd, (ext2Open system watched).2, Prod.ext returned rfl, ?_⟩
  obtain ⟨inside, _, owner⟩ := opened.table.slot fd member
  obtain ⟨data, cached, isOpen, _⟩ := opened.table.descriptor fd member
  have current : some entries = some ((ext2Open system watched).2.data fd.ftableIdx) :=
    isRead.symm.trans (opened.current fd member isInode)
  rw [ext2Read, if_neg (Nat.not_le.mpr inside), owner, searchInode, cached, getD_some,
    isOpen, if_neg (by decide), ← current]

/-- A volume whose root directory holds one file, with nothing open. -/
def oneNote : System where
  image :=
    { mode := fun inode => if inode = 2 then 0x41ed else 0x81a4
      readFile := fun inode => some (if inode = 2 then [⟨2, 2, "."⟩, ⟨11, 1, "note"⟩] else []) }
  sizes := fun _ => 4096
  table := { files := { slots := fun _ => ⟨0, 0, 0⟩, inodes := fun _ => none }, fds := [] }
  data := fun _ => []

/-- The same volume while the root directory is open. -/
def rootOpen : System := (ext2Open oneNote 2).2

/-- A file has been created since. -/
def created : System := change rootOpen .create ⟨true, 12, []⟩ 1 2 "new"

/-- The other file has been removed since. -/
def unlinked : System := change rootOpen .unlink ⟨true, 0, []⟩ 0 2 "note"

/-- The theorem applies to the root after a file has been created in it. -/
theorem directory_current_created :
    ReadsCurrent (change oneNote .create ⟨true, 12, []⟩ 1 2 "new") 2 := by
  have starts : Reachable (machine Tidy) oneNote := .initial rfl
  have closed : ¬ IsOpen (change oneNote .create ⟨true, 12, []⟩ 1 2 "new").table 2 :=
    fun ⟨fd, member, _⟩ => absurd member not_mem_nil
  refine directory_current (by decide)
    (starts.call (.change .create ⟨true, 12, []⟩ 1 2 "new") ⟨by decide, rfl⟩ rfl)
    (.inr (.inr ⟨closed, .inr ⟨by decide, fun full => ?_⟩⟩)) (.inl closed)
  obtain ⟨fd, member, _⟩ := full 0 (by decide)
  exact absurd member not_mem_nil

/-- An open directory is read as it was before a file was created in it, and as it was before
one was removed. -/
theorem stale_entries :
    (act .create ⟨true, 12, []⟩ rootOpen.image 2 "new").1 = true ∧
      (act .unlink ⟨true, 0, []⟩ rootOpen.image 2 "note").1 = true ∧
      ∀ system ∈ [created, unlinked],
        Reachable (machine fun _ _ => True) system ∧ ¬ ReadsCurrent system 2 := by
  have starts : Reachable (machine fun _ _ => True) oneNote := .initial rfl
  have isOpen : Reachable (machine fun _ _ => True) rootOpen :=
    starts.call (.openFile 2) trivial rfl
  have stale {system : System} {entries : List Entry}
      (returned : (ext2Open system 2).1 = some ⟨0, 2⟩)
      (old : ext2Read (ext2Open system 2).2 ⟨0, 2⟩ = some [⟨2, 2, "."⟩, ⟨11, 1, "note"⟩])
      (now : system.image.readFile 2 = some entries)
      (changed : entries ≠ [⟨2, 2, "."⟩, ⟨11, 1, "note"⟩]) : ¬ ReadsCurrent system 2 := by
    intro current
    obtain ⟨fd, after, opened, isRead⟩ := current entries now
    rw [opened] at returned old
    obtain rfl := Option.some.inj returned
    exact changed (Option.some.inj (isRead.symm.trans old))
  refine ⟨by decide +kernel, by decide +kernel, fun system member => ?_⟩
  rcases mem_cons.mp member with rfl | rest
  · exact ⟨isOpen.call (.change .create ⟨true, 12, []⟩ 1 2 "new") trivial rfl,
      @stale _ [⟨2, 2, "."⟩, ⟨11, 1, "note"⟩, ⟨12, 1, "new"⟩] (by decide +kernel)
        (by decide +kernel) (by decide +kernel) (by decide)⟩
  · obtain rfl := mem_singleton.mp rest
    exact ⟨isOpen.call (.change .unlink ⟨true, 0, []⟩ 0 2 "note") trivial rfl,
      @stale _ [⟨2, 2, "."⟩] (by decide +kernel) (by decide +kernel) (by decide +kernel)
        (by decide)⟩

end Balrog.DirectoryCache
