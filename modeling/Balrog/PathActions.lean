import Balrog.DirEntries
import Mathlib.Data.List.Basic
import Mathlib.Data.List.Find

/-!
# Creating and removing entries

What `ext2_create`, `ext2_mkdir`, `ext2_unlink` and `ext2_rmdir` do to the directory that a path has
been resolved to, on the level of entries: a directory is the list of its entries, in the order of
`__ext2_walk_next`, and reads may fail. In the bytes of a directory the walk finds the entry that is
looked up in the list, if only the first entry is deleted and the walk ends with the directory.

Whether a directory has room for another entry, the inode that `__ext2_create_new_inode`
returns and the content of its block are arguments. Left out: the blocks, times and counters
of inodes, the caches, and the length of the whole path, which `ext2_mkdir` checks.
-/

namespace Balrog.PathActions

open Function List

/-- A directory entry; type 0 marks one that is not in use. -/
structure Entry where
  inode : Nat
  type : Nat
  name : String
deriving DecidableEq

/-- The inodes of an image: their mode and, as far as they are read as directories, their
entries. Nothing stands for a read that fails. -/
structure Image where
  mode : Nat → Nat
  readFile : Nat → Option (List Entry)

/-- `__ext2_read_dir_entry` -/
def readDirEntry (entries : List Entry) (filename : String) : Option Entry :=
  entries.find? (fun entry => entry.type != 0 && entry.name == filename)

/-- The operations on a name in a directory. -/
inductive Operation where
  | create
  | mkdir
  | unlink
  | rmdir
deriving DecidableEq

/-- What the image has to offer for a new entry: room in the directory, an inode, and what
the block of the inode holds, read as a directory. -/
structure Supply where
  room : Bool
  inode : Nat
  stale : List Entry

/-- The values of `ext2_dir_entry_type`. -/
def regularFile : Nat := 1

/-- The type of a directory in an entry. -/
def directoryType : Nat := 2

/-- The volume after a directory's file has been rewritten. -/
def updateDir (image : Image) (directory : Nat) (entries : List Entry) : Image :=
  { image with readFile := update image.readFile directory (some entries) }

/-- `__ext2_create_new_dir_entry`: the inode of the entry, or 0. -/
def createNewDirEntry (image : Image) (supply : Supply) (directory : Nat) (entries : List Entry)
    (filename : String) (type mode : Nat) : Nat × Image :=
  if 255 < filename.length then (0, image)
  else if (readDirEntry entries filename).isSome then (0, image)
  else if supply.room then
    (supply.inode, updateDir
      (updateDir { image with mode := update image.mode supply.inode mode } supply.inode supply.stale)
      directory (entries ++ [⟨supply.inode, type, filename⟩]))
  else (0, image)

/-- `__ext2_remove_dir_entry`: the first entry of a directory is emptied, another one
joins the room of the entry before it. -/
def removeDirEntry (entries : List Entry) (filename : String) : List Entry :=
  match entries with
  | [] => []
  | first :: rest =>
    if first.type != 0 && first.name == filename then { first with inode := 0, type := 0 } :: rest
    else first :: rest.eraseP (fun entry => entry.type != 0 && entry.name == filename)

/-- `__ext2_dir_is_empty` -/
def dirIsEmpty (entries : List Entry) : Bool :=
  entries.all (fun entry => entry.type == 0 || entry.name == "." || entry.name == "..")

/-- `__ext2_remove` in a directory: whether the entry was removed, and the image. -/
def remove (image : Image) (directory : Nat) (entries : List Entry) (filename : String)
    (type : Nat) : Bool × Image :=
  match readDirEntry entries filename with
  | none => (false, image)
  | some entry =>
    if entry.type ≠ type then (false, image)
    else if type = directoryType ∧ ((image.readFile entry.inode).map dirIsEmpty).getD false = false
    then (false, image)
    else (true, updateDir (updateDir image entry.inode []) directory
      (removeDirEntry entries filename))

/-- An operation on a name in a directory: whether it returns 0, and the image. -/
def act (operation : Operation) (supply : Supply) (image : Image) (directory : Nat)
    (filename : String) : Bool × Image :=
  match image.readFile directory with
  | none => (false, image)
  | some entries =>
    match operation with
    | .create =>
      let (inode, after) :=
        createNewDirEntry image supply directory entries filename regularFile
          (0x8000 ||| 0o664)
      (inode != 0, after)
    | .mkdir =>
      let (inode, after) :=
        createNewDirEntry image supply directory entries filename directoryType
          (0x4000 ||| 0o770)
      if inode = 0 then (false, after)
      -- `__ext2_initialize_dir` leaves a block alone that looks like a directory
      else if (readDirEntry supply.stale ".").isSome then (true, after)
      else (true, updateDir after inode
        [⟨inode, directoryType, "."⟩, ⟨directory, directoryType, ".."⟩])
    | .unlink => remove image directory entries filename regularFile
    | .rmdir => remove image directory entries filename directoryType

section Bytes

open DirEntries (DirEntry WellFormed Walkable Ends isNamed isLive isNamed_live isNamed_proper
  lookup_result)

/-- The text of a name, one character for each byte. -/
def text (name : List UInt8) : String := String.ofList (name.map fun byte => Char.ofNat byte.toNat)

/-- An entry in the bytes of a directory, as an entry of the list. -/
def view (entry : DirEntry) : Entry := ⟨entry.inode, entry.type, text entry.name⟩

theorem text_injective : Function.Injective text := by
  intro left right same
  have lists := congrArg String.toList same
  simp only [text, String.toList_ofList] at lists
  refine (map_injective_iff.mpr fun one other isSame => ?_) lists
  have value (byte : UInt8) : (Char.ofNat byte.toNat).toNat = byte.toNat := by
    have small := byte.toNat_lt
    rw [Char.ofNat, dif_pos (.inl (by omega))]
    rfl
  have values := congrArg Char.toNat isSame
  rw [value, value] at values
  exact UInt8.toNat_inj.mp values

theorem find_congr {first second : DirEntry → Bool} {entries : List DirEntry}
    (same : ∀ entry ∈ entries, first entry = second entry) :
    entries.find? first = entries.find? second := by
  induction entries with
  | nil => rfl
  | cons entry rest ih =>
    obtain ⟨here, later⟩ := forall_mem_cons.mp same
    rw [find?_cons, find?_cons, here, ih later]

/-- The lookup in the list of entries is the walk over the bytes: it finds an entry exactly if the
walk does, and the same one. -/
theorem readDirEntry_bytes {bytes : ByteMemory.Bytes} {size : Nat} {entries : List DirEntry}
    {filename : List UInt8} (formed : WellFormed bytes size entries)
    (walkable : Walkable entries filename) (ends : Ends bytes size) :
    ((DirEntries.readDirEntry bytes filename).found = true ↔
      (readDirEntry (entries.map view) (text filename)).isSome) ∧
    ∀ entry, readDirEntry (entries.map view) (text filename) = some entry →
      view (DirEntries.entryAt bytes (DirEntries.readDirEntry bytes filename).entry) = entry := by
  have same : readDirEntry (entries.map view) (text filename) =
      (entries.find? (isLive filename)).map view := by
    rw [readDirEntry, find?_map]
    refine congrArg (Option.map view) (find_congr fun entry member => ?_)
    rw [← isNamed_live formed walkable member, isNamed_proper (formed.proper entry member).text]
    simp only [comp_apply, view]
    rw [Bool.eq_iff_iff]
    simp [text_injective.eq_iff]
  obtain ⟨found, isEntry⟩ := lookup_result formed walkable ends
  rw [same]
  refine ⟨by simpa using found, fun entry isMapped => ?_⟩
  obtain ⟨live, isLive', rfl⟩ := Option.map_eq_some_iff.mp isMapped
  rw [isEntry live isLive']

end Bytes

end Balrog.PathActions
