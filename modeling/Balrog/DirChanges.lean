import Balrog.DirEntries
import Balrog.Runs

/-!
# Adding and removing directory entries

`__ext2_create_new_dir_entry` splits the last entry that the walk visits and puts the new entry in
the room behind its name. `__ext2_remove_dir_entry` hands the room of an entry over to the one
visited before it; the very first entry is only emptied. Both treat the directory as one buffer,
whatever blocks it has.

The number that `__ext2_create_new_inode` returns is part of a creation; it is 0 if there is no
free inode, and then the entry is written all the same. Every operation reads the directory from the
device into a new buffer, so the bytes that follow the directory there are part of the operation
too. Device failures and messages are left out.
-/

namespace Balrog.DirChanges

open Runs ByteMemory DirEntries
open List hiding span

/-- `EXT2_DIR_ENTRY_SIZE` -/
def ext2DirEntrySize (nameLength : Nat) : Nat :=
  if nameLength % 4 ≠ 0 then (nameLength / 4 + 1) * 4 + 8 else nameLength / 4 * 4 + 8

/-- What `__ext2_create_new_dir_entry` writes: the new size of the last entry, and behind it the
new entry. -/
def splitEntry (bytes : Bytes) (entry size freeSize : Nat) (filename : List UInt8)
    (type inode : Nat) : Bytes :=
  let bytes := store 2 bytes (entry + 4) size
  let newEntry := entry + size
  let bytes := store 2 bytes (newEntry + 4) freeSize
  let bytes := store 1 bytes (newEntry + 6) filename.length
  let bytes := store 1 bytes (newEntry + 7) type
  let bytes := copy bytes (newEntry + 8) (filename ++ [0])
  store 4 bytes newEntry inode

/-- `__ext2_create_new_dir_entry`, with the number of the new inode. -/
def createNewDirEntry (bytes : Bytes) (filename : List UInt8) (type inode : Nat) : Nat × Bytes :=
  if 255 < filename.length then (0, bytes)
  else
    let entries := readDirEntry bytes filename
    if entries.found then (0, bytes)
    else
      let testLength := ext2DirEntrySize (nameLengthAt bytes entries.entry) % 2 ^ 16
      let freeSize := (sizeAt bytes entries.entry + 2 ^ 16 - testLength) % 2 ^ 16
      let newEntrySize := ext2DirEntrySize filename.length % 2 ^ 16
      if newEntrySize < freeSize then
        let size := (sizeAt bytes entries.entry + 2 ^ 16 - freeSize) % 2 ^ 16
        (inode, splitEntry bytes entries.entry size freeSize filename type inode)
      else (0, bytes)

/-- The three stores with which an entry is made empty; its size stays, so the walk goes on. -/
def emptyEntry (bytes : Bytes) (entry : Nat) : Bytes :=
  store 1 (store 1 (store 4 bytes entry 0) (entry + 6) 0) (entry + 7) 0

/-- `__ext2_remove_dir_entry` -/
def removeDirEntry (bytes : Bytes) (filename : List UInt8) : Nat × Bytes :=
  let (found, walk) := walkUntil bytes (isNamed filename) walkLimit (walkBegin 0)
  let entry := walk.entry.getD 0
  if found then
    match walk.previous with
    | some previous => (inodeAt bytes entry,
        store 2 bytes (previous + 4) (sizeAt bytes previous + sizeAt bytes entry))
    | none => (inodeAt bytes entry, emptyEntry bytes entry)
  else (0, bytes)

/-- The size of an entry has room for the name, is a multiple of four, and is the least such
number. -/
theorem entry_size_spec (length : Nat) : 8 + length ≤ ext2DirEntrySize length ∧
    ext2DirEntrySize length % 4 = 0 ∧
    ∀ size, 8 + length ≤ size → size % 4 = 0 → ext2DirEntrySize length ≤ size := by
  unfold ext2DirEntrySize
  split
  · refine ⟨by omega, by omega, fun size => by omega⟩
  · refine ⟨by omega, by omega, fun size => by omega⟩

variable {freeSize type inode size : Nat} {last previous other : DirEntry} {directory : Bytes}
  {entries front rest : List DirEntry}

section Writes

variable {bytes : Bytes}

variable {probe entry : Nat}

/-- A split writes the two headers and the new name only. -/
theorem splitEntry_outside (entry size freeSize : Nat) (filename : List UInt8) (type inode : Nat)
    (outside : probe < entry ∨ entry + size + 8 + filename.length < probe) :
    splitEntry bytes entry size freeSize filename type inode probe = bytes probe := by
  simp only [splitEntry]
  rw [store_outside (by omega),
    copy_outside (by rw [length_append, length_singleton]; omega),
    store_outside (by omega), store_outside (by omega),
    store_outside (by omega), store_outside (by omega)]

/-- Between the size of the old entry and the new entry nothing changes. -/
theorem splitEntry_inside (entry size freeSize : Nat) (filename : List UInt8) (type inode : Nat)
    (inside : entry ≤ probe ∧ probe < entry + size)
    (other : probe < entry + 4 ∨ entry + 6 ≤ probe) :
    splitEntry bytes entry size freeSize filename type inode probe = bytes probe := by
  simp only [splitEntry]
  rw [store_outside (by omega), copy_outside (by omega),
    store_outside (by omega), store_outside (by omega),
    store_outside (by omega), store_outside (by omega)]

variable {filename : List UInt8}

/-- The old entry has its new size and is otherwise as it was. -/
theorem splitEntry_old (room : 8 + nameLengthAt bytes entry ≤ size) (small : size < 2 ^ 16) :
    entryAt (splitEntry bytes entry size freeSize filename type inode) entry =
      { entryAt bytes entry with size := size } := by
  refine entryAt_resized (fun probe lower upper other => ?_) ?_
  · exact splitEntry_inside entry size freeSize filename type inode (by omega) other
  · simp only [sizeAt, splitEntry]
    rw [load_store_apart (by omega), load_copy_apart (by omega), load_store_apart (by omega),
      load_store_apart (by omega), load_store_apart (by omega), load_store_same]
    exact Nat.mod_eq_of_lt small

/-- The new entry that a split makes is read back. -/
theorem splitEntry_new (freeSmall : freeSize < 2 ^ 16) (short : filename.length ≤ 255)
    (typeSmall : type < 2 ^ 8) (inodeSmall : inode < 2 ^ 32) :
    entryAt (splitEntry bytes entry size freeSize filename type inode) (entry + size) =
      { inode := inode, size := freeSize, type := type, name := filename } := by
  refine entryAt_fields ?_ ?_ ?_ ?_ fun index below => ?_
  · simp only [inodeAt, splitEntry]
    rw [load_store_same]
    exact Nat.mod_eq_of_lt inodeSmall
  · simp only [sizeAt, splitEntry]
    rw [load_store_apart (by omega), load_copy_apart (by omega), load_store_apart (by omega),
      load_store_apart (by omega), load_store_same]
    exact Nat.mod_eq_of_lt freeSmall
  · simp only [typeAt, splitEntry]
    rw [load_store_apart (by omega), load_copy_apart (by omega), load_store_same]
    exact Nat.mod_eq_of_lt typeSmall
  · simp only [nameLengthAt, splitEntry]
    rw [load_store_apart (by omega), load_copy_apart (by omega), load_store_apart (by omega),
      load_store_same, Nat.mod_eq_of_lt (by omega)]
  · simp only [splitEntry]
    rw [store_outside (by omega), copy_name below]

theorem resize_entry (small : size < 2 ^ 16) :
    entryAt (store 2 bytes (entry + 4) size) entry = { entryAt bytes entry with size := size } := by
  refine entryAt_resized (fun probe _ _ other => store_outside (by omega)) ?_
  rw [sizeAt, load_store_same]
  exact Nat.mod_eq_of_lt small

/-- An entry after it has been made empty. -/
def emptied (entry : DirEntry) : DirEntry :=
  { inode := 0, size := entry.size, type := 0, name := [] }

theorem emptyEntry_first (entry : Nat) :
    entryAt (emptyEntry bytes entry) entry = emptied (entryAt bytes entry) := by
  refine entryAt_fields ?_ ?_ ?_ ?_ fun index below => absurd below (Nat.not_lt_zero index)
  · simp only [inodeAt, emptyEntry]
    rw [load_store_apart (by omega), load_store_apart (by omega), load_store_same]
    rfl
  · simp only [sizeAt, emptyEntry]
    rw [load_store_apart (by omega), load_store_apart (by omega), load_store_apart (by omega)]
    rfl
  · simp only [typeAt, emptyEntry]
    rw [load_store_same]
    rfl
  · simp only [nameLengthAt, emptyEntry]
    rw [load_store_apart (by omega), load_store_same]
    rfl

/-- Emptying an entry writes its header only. -/
theorem emptyEntry_outside (entry : Nat) (outside : probe < entry ∨ entry + 8 ≤ probe) :
    emptyEntry bytes entry probe = bytes probe := by
  rw [emptyEntry, store_outside (by omega), store_outside (by omega),
    store_outside (by omega)]

end Writes

section Layouts

variable {bytes : Bytes}

/-- An entry is shortened and a new one put behind it. -/
def shortened (entry : DirEntry) : DirEntry :=
  { entry with size := ext2DirEntrySize entry.name.length }

theorem entry_small (bytes : Bytes) (offset : Nat) : (entryAt bytes offset).size < 2 ^ 16 :=
  load_lt 2 bytes (offset + 4)

variable {filename : List UInt8}

/-- A split puts the new entry behind the one whose room it takes. -/
theorem layout_split (layout : Layout bytes 0 (front ++ last :: rest) size)
    (proper : ∀ entry ∈ front ++ last :: rest, Proper entry)
    (room : ext2DirEntrySize last.name.length + ext2DirEntrySize filename.length < last.size)
    (short : filename.length ≤ 255) (typeSmall : type < 2 ^ 8) (inodeSmall : inode < 2 ^ 32) :
    Layout (splitEntry bytes (span front) (ext2DirEntrySize last.name.length)
        (last.size - ext2DirEntrySize last.name.length) filename type inode) 0
      (front ++ shortened last ::
        ⟨inode, last.size - ext2DirEntrySize last.name.length, type, filename⟩ :: rest) size := by
  have isLast := layout_entry layout
  rw [Nat.zero_add] at isLast
  have small := entry_small bytes (span front)
  rw [isLast] at small
  have lastRoom := (entry_size_spec last.name.length).1
  have newRoom := (entry_size_spec filename.length).1
  have isLength : nameLengthAt bytes (span front) = last.name.length := by
    rw [← name_length, isLast]
  rw [layout_append, Nat.zero_add] at layout ⊢
  obtain ⟨before, _, behind⟩ := layout
  refine ⟨?_, ?_, ?_, ?_⟩
  · refine layout_congr before (fun entry member => (proper entry (by simp [member])).room) ?_
    intro probe _ below
    exact splitEntry_outside _ _ _ _ _ _ (.inl below)
  · rw [splitEntry_old (by omega) (by omega), isLast]
    rfl
  · exact splitEntry_new (by omega) short typeSmall inodeSmall
  · have place : span front + (shortened last).size +
        (last.size - ext2DirEntrySize last.name.length) = span front + last.size := by
      simp only [shortened]
      omega
    rw [place]
    refine layout_congr behind (fun entry member => (proper entry (by simp [member])).room) ?_
    intro probe lower _
    exact splitEntry_outside _ _ _ _ _ _ (.inr (by omega))

/-- The entry before takes over the room of an entry. -/
def merged (previous entry : DirEntry) : DirEntry :=
  { previous with size := previous.size + entry.size }

/-- A merge gives the room of an entry to the one before it. -/
theorem layout_merge {entry : DirEntry}
    (layout : Layout bytes 0 (front ++ previous :: entry :: rest) size)
    (proper : ∀ other ∈ front ++ previous :: entry :: rest, Proper other)
    (small : previous.size + entry.size < 2 ^ 16) :
    Layout (store 2 bytes (span front + 4) (previous.size + entry.size)) 0
      (front ++ merged previous entry :: rest) size := by
  have isPrevious := layout_entry layout
  have room := (proper previous (by simp)).room
  rw [Nat.zero_add] at isPrevious
  rw [layout_append, Nat.zero_add] at layout ⊢
  obtain ⟨before, _, _, behind⟩ := layout
  refine ⟨?_, ?_, ?_⟩
  · refine layout_congr before (fun other member => (proper other (by simp [member])).room) ?_
    intro probe _ below
    exact store_outside (by omega)
  · rw [resize_entry small, isPrevious]
    rfl
  · have place : span front + (merged previous entry).size =
        span front + previous.size + entry.size := (Nat.add_assoc _ _ _).symm
    rw [place]
    refine layout_congr behind (fun other member => (proper other (by simp [member])).room) ?_
    intro probe lower _
    exact store_outside (by omega)

/-- Emptying the first entry keeps the layout. -/
theorem layout_empty {entry : DirEntry} (layout : Layout bytes 0 (entry :: rest) size)
    (proper : ∀ other ∈ entry :: rest, Proper other) :
    Layout (emptyEntry bytes 0) 0 (emptied entry :: rest) size := by
  obtain ⟨isEntry, behind⟩ := layout
  have room := (proper entry mem_cons_self).room
  refine ⟨?_, ?_⟩
  · rw [emptyEntry_first, isEntry]
  · refine layout_congr behind
      (fun other member => (proper other (mem_cons_of_mem _ member)).room) ?_
    intro probe lower _
    exact emptyEntry_outside 0 (.inr (by
      have same : (emptied entry).size = entry.size := rfl
      omega))

end Layouts

section Outcomes

variable {bytes : Bytes} {visible : List DirEntry}

/-- A creation fails and changes nothing, or splits the last entry that the walk sees, which has the
room for it. -/
theorem create_outcome (formed : WellFormed bytes size entries)
    (seen : Visible bytes entries visible rest) (filename : List UInt8) (type inode : Nat) :
    createNewDirEntry bytes filename type inode = (0, bytes) ∨
    ∃ front last, visible = front ++ [last] ∧
      (∀ entry ∈ visible, isNamed filename entry = false) ∧ filename.length ≤ 255 ∧
      ext2DirEntrySize last.name.length + ext2DirEntrySize filename.length < last.size ∧
      createNewDirEntry bytes filename type inode = (inode, splitEntry bytes (span front)
        (ext2DirEntrySize last.name.length) (last.size - ext2DirEntrySize last.name.length)
        filename type inode) := by
  by_cases long : 255 < filename.length
  · exact .inl (if_pos long)
  rcases walk_outcome (isNamed filename) formed.layout formed.large seen formed.few with
    ⟨front, entry, others, _, _, _, outcome⟩ | ⟨goes, outcome⟩
  · refine .inl ?_
    rw [createNewDirEntry, if_neg long, readDirEntry, outcome]
    rfl
  · obtain ⟨front, last, rfl⟩ : ∃ front last, visible = front ++ [last] :=
      ⟨_, _, (dropLast_concat_getLast seen.some).symm⟩
    have whole : entries = front ++ last :: rest := by
      rw [seen.split, append_assoc, singleton_append]
    have isLast := layout_entry (whole ▸ formed.layout)
    rw [Nat.zero_add] at isLast
    have proper := formed.proper last (by simp [whole])
    have isSize : sizeAt bytes (span front) = last.size := congrArg DirEntry.size isLast
    have isLength : nameLengthAt bytes (span front) = last.name.length := by
      rw [← name_length, isLast]
    have small := entry_small bytes (span front)
    rw [isLast] at small
    have need := (entry_size_spec last.name.length).2.2 last.size proper.room proper.aligned
    have newNeed : ext2DirEntrySize filename.length < 2 ^ 16 := by
      unfold ext2DirEntrySize
      split <;> omega
    have place : (readDirEntry bytes filename).entry = span front := by
      rw [readDirEntry, outcome, passed_snoc]
      exact Nat.zero_add _
    have missing : (readDirEntry bytes filename).found = false := by
      rw [readDirEntry, outcome]
    have free : (last.size + 2 ^ 16 - ext2DirEntrySize last.name.length % 2 ^ 16) % 2 ^ 16 =
        last.size - ext2DirEntrySize last.name.length := by
      omega
    have left : (last.size + 2 ^ 16 - (last.size - ext2DirEntrySize last.name.length)) % 2 ^ 16 =
        ext2DirEntrySize last.name.length := by
      omega
    by_cases room : ext2DirEntrySize filename.length <
        last.size - ext2DirEntrySize last.name.length
    · refine .inr ⟨front, last, rfl, goes, Nat.le_of_not_lt long, by omega, ?_⟩
      rw [createNewDirEntry, if_neg long]
      simp only [missing, place, isSize, isLength, free, Nat.mod_eq_of_lt newNeed, if_pos room,
        left, Bool.false_eq_true, if_false]
    · refine .inl ?_
      rw [createNewDirEntry, if_neg long]
      simp only [missing, place, isSize, isLength, free, Nat.mod_eq_of_lt newNeed, if_neg room,
        Bool.false_eq_true, if_false]

/-- What a removal does: nothing, or it empties the first entry, or it gives the room of an entry
to the one before. -/
theorem remove_outcome (formed : WellFormed bytes size entries)
    (seen : Visible bytes entries visible rest) (filename : List UInt8) :
    ((∀ entry ∈ visible, isNamed filename entry = false) ∧
      removeDirEntry bytes filename = (0, bytes)) ∨
    (∃ entry others, visible = entry :: others ∧ isNamed filename entry = true ∧
      removeDirEntry bytes filename = (entry.inode, emptyEntry bytes 0)) ∨
    ∃ front previous entry others, visible = front ++ previous :: entry :: others ∧
      isNamed filename entry = true ∧
      removeDirEntry bytes filename = (entry.inode,
        store 2 bytes (span front + 4) (previous.size + entry.size)) := by
  rcases walk_outcome (isNamed filename) formed.layout formed.large seen formed.few with
    ⟨before, entry, others, divided, accepts, _, outcome⟩ | ⟨goes, outcome⟩
  · have whole : entries = before ++ entry :: (others ++ rest) := by
      rw [seen.split, divided, append_assoc, cons_append]
    have isEntry := layout_entry (whole ▸ formed.layout)
    rw [Nat.zero_add] at isEntry
    have isInode : inodeAt bytes (span before) = entry.inode := congrArg DirEntry.inode isEntry
    have isSize : sizeAt bytes (span before) = entry.size := congrArg DirEntry.size isEntry
    rw [passed_snoc] at outcome
    have begins : (walkBegin 0).ptr = 0 := rfl
    rcases eq_nil_or_concat before with rfl | ⟨front, previous, rfl⟩
    · refine .inr (.inl ⟨entry, others, divided, accepts, ?_⟩)
      rw [removeDirEntry, outcome]
      exact congrArg (·, emptyEntry bytes 0) isInode
    · rw [concat_eq_append] at divided whole isInode isSize outcome
      refine .inr (.inr ⟨front, previous, entry, others, ?_, accepts, ?_⟩)
      · rw [divided, append_assoc, singleton_append]
      · have reshaped : entries = front ++ previous :: (entry :: (others ++ rest)) := by
          rw [whole, append_assoc, singleton_append]
        have isPrevious := layout_entry (reshaped ▸ formed.layout)
        rw [Nat.zero_add] at isPrevious
        have previousSize : sizeAt bytes (span front) = previous.size :=
          congrArg DirEntry.size isPrevious
        rw [removeDirEntry, outcome, passed_snoc]
        simp only [begins, Nat.zero_add, Option.getD_some, if_true, isInode, isSize, previousSize]
  · refine .inl ⟨goes, ?_⟩
    rw [removeDirEntry, outcome]
    rfl

end Outcomes

section Blocks

variable {place : Nat}

variable {entry first second : DirEntry}

/-- An entry is divided in two; every other cut of the directory stays. -/
theorem cut_split (sizes : first.size + second.size = entry.size)
    (cut : ∃ before behind, front ++ entry :: rest = before ++ behind ∧ span before = place) :
    ∃ before behind, front ++ first :: second :: rest = before ++ behind ∧ span before = place := by
  obtain ⟨before, behind, split, isPlace⟩ := cut
  rcases append_eq_append_iff.mp split with ⟨more, rfl, others⟩ | ⟨more, rfl, rfl⟩
  · cases more with
    | nil => exact ⟨front, first :: second :: rest, rfl, by rw [← isPlace, append_nil]⟩
    | cons head tail =>
      obtain ⟨rfl, rfl⟩ := List.cons.inj others
      refine ⟨front ++ first :: second :: tail, behind, by simp, ?_⟩
      rw [← isPlace]
      simp only [span_append, span_cons]
      omega
  · exact ⟨before, more ++ first :: second :: rest, by simp, isPlace⟩

/-- Two entries become one; every other cut of the directory stays. -/
theorem cut_merge (sizes : entry.size = first.size + second.size)
    (cut : ∃ before behind, front ++ first :: second :: rest = before ++ behind ∧
      span before = place) (elsewhere : span front + first.size ≠ place) :
    ∃ before behind, front ++ entry :: rest = before ++ behind ∧ span before = place := by
  obtain ⟨before, behind, split, isPlace⟩ := cut
  rcases append_eq_append_iff.mp split with ⟨more, rfl, others⟩ | ⟨more, rfl, rfl⟩
  · rcases more with _ | ⟨head, _ | ⟨next, tail⟩⟩
    · exact ⟨front, entry :: rest, rfl, by rw [← isPlace, append_nil]⟩
    · obtain ⟨rfl, _⟩ := List.cons.inj others
      refine absurd ?_ elsewhere
      rw [← isPlace]
      simp
    · obtain ⟨rfl, tails⟩ := List.cons.inj others
      obtain ⟨rfl, rfl⟩ := List.cons.inj tails
      refine ⟨front ++ entry :: tail, behind, by simp, ?_⟩
      rw [← isPlace]
      simp only [span_append, span_cons]
      omega
  · exact ⟨before, more ++ entry :: rest, by simp, isPlace⟩

theorem cut_replace (sizes : other.size = entry.size)
    (cut : ∃ before behind, entry :: rest = before ++ behind ∧ span before = place) :
    ∃ before behind, other :: rest = before ++ behind ∧ span before = place := by
  obtain ⟨before, behind, split, isPlace⟩ := cut
  cases before with
  | nil => exact ⟨[], other :: rest, rfl, isPlace⟩
  | cons head tail =>
    obtain ⟨rfl, rfl⟩ := List.cons.inj split
    refine ⟨other :: tail, behind, rfl, ?_⟩
    rw [← isPlace, span_cons, span_cons, sizes]

/-- A cut of the directory that is not between two entries is before or behind both. -/
theorem cut_apart (cut : ∃ before behind, front ++ first :: second :: rest = before ++ behind ∧
      span before = place) (elsewhere : span front + first.size ≠ place) :
    place ≤ span front ∨ span front + first.size + second.size ≤ place := by
  obtain ⟨before, behind, split, rfl⟩ := cut
  rcases append_eq_append_iff.mp split with ⟨more, rfl, others⟩ | ⟨more, rfl, rfl⟩
  · rcases more with _ | ⟨head, _ | ⟨next, tail⟩⟩
    · simp
    · obtain ⟨rfl, _⟩ := List.cons.inj others
      simp at elsewhere
    · obtain ⟨rfl, tails⟩ := List.cons.inj others
      obtain ⟨rfl, rfl⟩ := List.cons.inj tails
      refine .inr ?_
      simp only [span_append, span_cons]
      omega
  · refine .inl ?_
    rw [span_append]
    omega

end Blocks

section Formed

variable {bytes : Bytes} {filename : List UInt8}

/-- A split keeps the directory well formed. -/
theorem formed_split (formed : WellFormed bytes size (front ++ last :: rest))
    (room : ext2DirEntrySize last.name.length + ext2DirEntrySize filename.length < last.size)
    (short : filename.length ≤ 255) (text : 0 ∉ filename) (typeSmall : type < 2 ^ 8)
    (inodeSmall : inode < 2 ^ 32) :
    WellFormed (splitEntry bytes (span front) (ext2DirEntrySize last.name.length)
        (last.size - ext2DirEntrySize last.name.length) filename type inode) size
      (front ++ shortened last ::
        ⟨inode, last.size - ext2DirEntrySize last.name.length, type, filename⟩ :: rest) := by
  have lastProper := formed.proper last (by simp)
  obtain ⟨lastRoom, lastAligned, _⟩ := entry_size_spec last.name.length
  obtain ⟨newRoom, newAligned, _⟩ := entry_size_spec filename.length
  have aligned := lastProper.aligned
  refine ⟨layout_split formed.layout formed.proper room short typeSmall inodeSmall, ?_,
    formed.nonempty, formed.bound, fun index below => ?_, formed.whole⟩
  · intro entry member
    simp only [mem_append, mem_cons] at member
    rcases member with old | rfl | rfl | old
    · exact formed.proper entry (by simp [old])
    · exact ⟨lastRoom, lastAligned, lastProper.text⟩
    · refine ⟨?_, ?_, text⟩
      · simp only
        omega
      · simp only
        omega
    · exact formed.proper entry (by simp [old])
  · have sizes : (shortened last).size + (last.size - ext2DirEntrySize last.name.length) =
        last.size := by
      simp only [shortened]
      omega
    exact cut_split sizes (formed.blocks index below)

/-- A removal keeps a directory well-formed, if no block begins with the entry. -/
theorem formed_merge {entry : DirEntry}
    (formed : WellFormed bytes size (front ++ previous :: entry :: rest))
    (small : previous.size + entry.size < 2 ^ 16)
    (inner : ∀ index ≤ size / 4096, span front + previous.size ≠ 4096 * index) :
    WellFormed (store 2 bytes (span front + 4) (previous.size + entry.size)) size
      (front ++ merged previous entry :: rest) := by
  have proper := formed.proper previous (by simp)
  have entryProper := formed.proper entry (by simp)
  have room := proper.room
  have aligned := proper.aligned
  have entryAligned := entryProper.aligned
  refine ⟨layout_merge formed.layout formed.proper small, ?_, formed.nonempty, formed.bound,
    fun index below => cut_merge rfl (formed.blocks index below) (inner index below), formed.whole⟩
  intro other member
  simp only [mem_append, mem_cons] at member
  rcases member with old | rfl | old
  · exact formed.proper other (by simp [old])
  · refine ⟨?_, ?_, proper.text⟩
    · simp only [merged]
      omega
    · simp only [merged]
      omega
  · exact formed.proper other (by simp [old])

/-- Emptying the first entry keeps the directory well formed. -/
theorem formed_empty {entry : DirEntry} (formed : WellFormed bytes size (entry :: rest)) :
    WellFormed (emptyEntry bytes 0) size (emptied entry :: rest) := by
  have proper := formed.proper entry mem_cons_self
  have room := proper.room
  have same : (emptied entry).size = entry.size := rfl
  refine ⟨layout_empty formed.layout formed.proper, ?_, formed.nonempty, formed.bound,
    fun index below => cut_replace same (formed.blocks index below), formed.whole⟩
  refine forall_mem_cons.mpr
    ⟨⟨?_, proper.aligned, not_mem_nil⟩, (forall_mem_cons.mp formed.proper).2⟩
  simp only [emptied, length_nil]
  omega

end Formed

/-- An operation on a directory, with the bytes that follow the directory in its buffer. -/
inductive Call where
  | create (filename : List UInt8) (type inode : Nat) (after : Bytes)
  | remove (filename : List UInt8) (after : Bytes)

/-- The name an operation is about. -/
def Call.filename : Call → List UInt8
  | .create filename _ _ _ | .remove filename _ => filename

/-- What follows the directory in the buffer of an operation. -/
def Call.after : Call → Bytes
  | .create _ _ _ after | .remove _ after => after

/-- The buffer of an operation on a directory of a number of bytes. -/
def buffer (size : Nat) (directory : Bytes) (call : Call) : Bytes := fun offset =>
  if offset < size then directory offset else call.after (offset - size)

/-- One change of the directory, with the value that it returns. -/
def apply (size : Nat) (directory : Bytes) (call : Call) : Nat × Bytes :=
  match call with
  | .create filename type inode _ =>
    createNewDirEntry (buffer size directory call) filename type inode
  | .remove filename _ => removeDirEntry (buffer size directory call) filename

/-- Names are strings, and new entries are files or directories with an inode number of 32 bits. -/
def Sensible : Call → Prop
  | .create filename type inode _ => 0 ∉ filename ∧ (type = 1 ∨ type = 2) ∧ inode < 2 ^ 32
  | .remove filename _ => 0 ∉ filename

/-- The runs of operations on a directory of a number of bytes. `start` restricts the directory,
and `condition` the operations. -/
def machine (size : Nat) (start : List DirEntry → Prop) (condition : Bytes → Call → Prop) :
    Machine Bytes Call where
  initial directory := ∃ entries, WellFormed directory size entries ∧ start entries
  allowed directory call := Sensible call ∧ condition directory call
  step directory call := some (apply size directory call).2

section Operations

variable {call : Call}

theorem buffer_formed (formed : WellFormed directory size entries) (call : Call) :
    WellFormed (buffer size directory call) size entries :=
  formed.congr fun _ below => if_pos below

theorem buffer_ends (ends : Ends call.after 0) : Ends (buffer size directory call) size := by
  have field (width shift : Nat) :
      load width (buffer size directory call) (size + shift) = load width call.after shift := by
    rw [← load_window]
    refine load_congr _ _ _ _ fun probe _ _ => ?_
    simp only [buffer]
    rw [if_neg (by omega), Nat.add_sub_cancel_left]
  rcases ends with dead | small
  · exact .inl ((field 4 0).trans dead)
  · exact .inr (Nat.lt_of_le_of_lt (Nat.le_of_eq (field 2 4)) small)

/-- Two entries of one block are not larger than the block. -/
theorem merge_small {entry : DirEntry}
    (formed : WellFormed directory size (front ++ previous :: entry :: rest))
    (inner : ∀ index ≤ size / 4096, span front + previous.size ≠ 4096 * index) :
    previous.size + entry.size ≤ 4096 := by
  have ends := layout_finish formed.layout
  have large := formed.large entry (by simp)
  have whole := formed.whole
  simp only [span_append, span_cons] at ends
  have below : (span front + previous.size) / 4096 + 1 ≤ size / 4096 := by omega
  have lower := cut_apart (formed.blocks _ (Nat.le_of_succ_le below)) (inner _
    (Nat.le_of_succ_le below))
  have upper := cut_apart (formed.blocks _ below) (inner _ below)
  omega

end Operations

/-- The walk ends behind the directory, and no block but the first begins with an entry that is
removed. -/
def Inner (size : Nat) (directory : Bytes) (call : Call) : Prop :=
  Ends call.after 0 ∧
    match call with
    | .create _ _ _ _ => True
    | .remove filename _ => ∀ index, 0 < index → index < size / 4096 →
      isNamed filename (entryAt directory (4096 * index)) = false

/-- Each block is exactly filled by entries of its own, whose sizes fit their 16 bits. -/
def Tiled (directory : Bytes) (blocks : Nat) : Prop :=
  ∀ index < blocks, ∃ entries,
    Layout directory (4096 * index) entries (4096 * index + 4096) ∧
      ∀ entry ∈ entries, Proper entry ∧ entry.size ≤ 4096

/-- The entries of a well formed directory tile its blocks. -/
theorem formed_tiled (formed : WellFormed directory size entries) :
    Tiled directory (size / 4096) := by
  intro index below
  obtain ⟨before, behind, split, start⟩ := formed.blocks index (Nat.le_of_lt below)
  obtain ⟨before', behind', split', finish⟩ := formed.blocks (index + 1) below
  obtain ⟨block, rfl⟩ : ∃ block, before' = before ++ block := by
    rcases append_eq_append_iff.mp (split.symm.trans split') with ⟨block, whole, _⟩ |
      ⟨block, whole, _⟩
    · exact ⟨block, whole⟩
    · rw [whole, span_append] at start
      omega
  have layout := formed.layout
  rw [span_append] at finish
  have block4096 : span block = 4096 := by omega
  rw [split', layout_append, layout_append] at layout
  simp only [Nat.zero_add, span_append, start, block4096] at layout
  refine ⟨block, layout.1.2, fun entry member =>
    ⟨formed.proper entry (by simp [split', member]), ?_⟩⟩
  obtain ⟨front, rest, rfl⟩ := append_of_mem member
  simp only [span_append, span_cons] at block4096
  omega

/-- An operation that stays within the blocks keeps the directory well-formed. -/
theorem apply_formed {call : Call} (formed : WellFormed directory size entries)
    (sensible : Sensible call) (inner : Inner size directory call) :
    ∃ entries', WellFormed (apply size directory call).2 size entries' := by
  have buffered := buffer_formed formed call
  have ends : Ends (buffer size directory call) size := buffer_ends inner.1
  obtain ⟨visible, rest, seen⟩ := visible_exists buffered.layout buffered.some ends
  cases call with
  | create filename type inode after =>
    obtain ⟨text, isType, inodeSmall⟩ := sensible
    have typeSmall : type < 2 ^ 8 := by omega
    rcases create_outcome buffered seen filename type inode with same |
      ⟨front, last, isVisible, _, short, room, result⟩
    · rw [apply, same]
      exact ⟨entries, buffered⟩
    · rw [apply, result]
      have whole : entries = front ++ last :: rest := by
        rw [seen.split, isVisible, append_assoc, singleton_append]
      exact ⟨_, formed_split (whole ▸ buffered) room short text typeSmall inodeSmall⟩
  | remove filename after =>
    rcases remove_outcome buffered seen filename with ⟨_, same⟩ |
      ⟨entry, others, isVisible, _, result⟩ |
      ⟨front, previous, entry, others, isVisible, named, result⟩
    · rw [apply, same]
      exact ⟨entries, buffered⟩
    · rw [apply, result]
      have whole : entries = entry :: (others ++ rest) := by
        rw [seen.split, isVisible, cons_append]
      exact ⟨_, formed_empty (whole ▸ buffered)⟩
    · rw [apply, result]
      have whole : entries = front ++ previous :: entry :: (others ++ rest) := by
        rw [seen.split, isVisible, append_assoc, cons_append, cons_append]
      subst whole
      have isEntry : entryAt directory (span front + previous.size) = entry := by
        have reshaped : front ++ previous :: entry :: (others ++ rest) =
            (front ++ [previous]) ++ entry :: (others ++ rest) := by simp
        have found := layout_entry (reshaped ▸ formed.layout)
        simpa using found
      have finish := layout_finish formed.layout
      have multiple := formed.whole
      have large := formed.large previous (by simp)
      have entryLarge := formed.large entry (by simp)
      simp only [span_append, span_cons] at finish
      have elsewhere : ∀ index ≤ size / 4096, span front + previous.size ≠ 4096 * index := by
        intro index _ same
        have accepted := inner.2 index (by omega) (by omega)
        rw [← same, isEntry, named] at accepted
        cases accepted
      have small := merge_small buffered elsewhere
      exact ⟨_, formed_merge buffered (by omega) elsewhere⟩

/-- In every run that removes no entry at the beginning of a later block, the blocks of a directory
stay exactly filled by their own entries. -/
theorem blocks_tiled (size : Nat) (directory : Bytes)
    (reached : Reachable (machine size (fun _ => True) (Inner size)) directory) :
    Tiled directory (size / 4096) := by
  have obligation : Inductive (machine size (fun _ => True) (Inner size))
      (fun directory => ∃ entries, WellFormed directory size entries) :=
    { starts := by
        rintro directory ⟨entries, formed, _⟩
        exact ⟨entries, formed⟩
      preserved := by
        rintro directory call ⟨entries, formed⟩ ⟨sensible, inner⟩
        exact ⟨_, rfl, apply_formed formed sensible inner⟩ }
  obtain ⟨entries, formed⟩ := obligation.holds reached
  exact formed_tiled formed

/-- The second block of a directory, with an entry `a` in front of another one. -/
def secondBlock : List UInt8 := [14, 0, 0, 0, 12, 0, 1, 1, 97, 0, 0, 0] ++ lastEntry

@[inherit_doc secondBlock] def secondEntries : List DirEntry :=
  [⟨14, 12, 1, [97]⟩, ⟨13, 4084, 1, [98]⟩]

theorem formed_two : WellFormed (bufferOf newDirectory secondBlock) 8192
    (newEntries ++ secondEntries) :=
  formed_pair (by decide +kernel) (by decide) (by decide)

/-- Removing the second entry of the second block. -/
theorem blocks_tiled_two :
    Tiled (apply 8192 (bufferOf newDirectory secondBlock) (.remove [98] fun _ => 0)).2 2 := by
  have starts : Reachable (machine 8192 (fun _ => True) (Inner 8192))
      (bufferOf newDirectory secondBlock) := .initial ⟨_, formed_two, trivial⟩
  refine blocks_tiled 8192 _ (starts.call (.remove [98] fun _ => 0) ?_ rfl)
  refine ⟨(by decide : (0 : UInt8) ∉ [98]), .inl rfl, fun index positive below => ?_⟩
  obtain rfl : index = 1 := by omega
  decide +kernel

/-- Removing the first entry of the second block makes the last entry of the first block cross into
the second. -/
theorem entry_crosses : ∃ directory,
    Reachable (machine 8192 (fun _ => True) (fun _ call => Ends call.after 0)) directory ∧
    ¬ Tiled directory 2 := by
  have starts : Reachable (machine 8192 (fun _ => True) (fun _ call => Ends call.after 0))
      (bufferOf newDirectory secondBlock) := .initial ⟨_, formed_two, trivial⟩
  refine ⟨_, starts.call (.remove [97] fun _ => 0) ⟨(by decide : (0 : UInt8) ∉ [97]), .inl rfl⟩ rfl,
    fun tiled => ?_⟩
  obtain ⟨entries, layout, proper⟩ := tiled 0 (by decide)
  have first : entryAt (apply 8192 (bufferOf newDirectory secondBlock)
      (.remove [97] fun _ => 0)).2 0 = ⟨12, 12, 2, [46]⟩ := by decide +kernel
  have second : entryAt (apply 8192 (bufferOf newDirectory secondBlock)
      (.remove [97] fun _ => 0)).2 12 = ⟨2, 4096, 2, [46, 46]⟩ := by decide +kernel
  have finish := layout_finish layout
  rcases entries with _ | ⟨one, _ | ⟨two, others⟩⟩
  · simp at finish
  · obtain ⟨isOne, _⟩ := layout
    rw [Nat.mul_zero, first] at isOne
    rw [← isOne] at finish
    simp at finish
  · obtain ⟨isOne, isTwo, _⟩ := layout
    rw [Nat.mul_zero, first] at isOne
    rw [Nat.mul_zero, ← isOne, Nat.zero_add, second] at isTwo
    rw [← isOne, ← isTwo] at finish
    simp only [span_cons] at finish
    omega

end Balrog.DirChanges
