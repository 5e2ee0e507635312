import Balrog.ByteMemory
import Mathlib.Algebra.GroupWithZero.Nat
import Mathlib.Data.List.TakeWhile

/-!
# Directory entries in a buffer

An ext2 directory is a chain of entries of varying size. `__ext2_walk_next` goes from one to the
next by the size an entry has, and knows no end: it stops in front of an inode number that is 0,
the first entry excepted, and of a size that is too small for an entry. So the walk misses what
lies behind a deleted entry, and if nothing stops it at the end of the directory it goes on in
whatever the buffer has there. The buffers that directories are read into are longer than the
directory, and what follows is not cleared.

A buffer is a function from offsets to bytes, so that the bytes that follow a directory are part
of it. `Layout` says which entries lie in a range of it. Names are the bytes of the entry;
`strcmp` sees them up to the first zero. The other readers of a path (`__ext2_find_file` and
`__ext2_get_start_inode`) look their components up with `readDirEntry`.
-/

namespace Balrog.DirEntries

open ByteMemory List

/-- An entry: `inode`, `entry_size`, `type`, and `name_length` bytes of `name`. -/
structure DirEntry where
  inode : Nat
  size : Nat
  type : Nat
  name : List UInt8
deriving DecidableEq

/-- `entry->inode` -/
def inodeAt (bytes : Bytes) (offset : Nat) : Nat := load 4 bytes offset

/-- `entry->entry_size` -/
def sizeAt (bytes : Bytes) (offset : Nat) : Nat := load 2 bytes (offset + 4)

/-- `entry->name_length` -/
def nameLengthAt (bytes : Bytes) (offset : Nat) : Nat := load 1 bytes (offset + 6)

/-- `entry->type` -/
def typeAt (bytes : Bytes) (offset : Nat) : Nat := load 1 bytes (offset + 7)

/-- The bytes that `__ext2_entry_name` copies. -/
def nameAt (bytes : Bytes) (offset : Nat) : List UInt8 :=
  (List.range (nameLengthAt bytes offset)).map fun index => bytes (offset + 8 + index)

/-- The entry that the bytes at an offset spell. -/
def entryAt (bytes : Bytes) (offset : Nat) : DirEntry :=
  { inode := inodeAt bytes offset, size := sizeAt bytes offset, type := typeAt bytes offset,
    name := nameAt bytes offset }

/-- `EXT2_DIR_ENTRY_MIN` -/
def ext2DirEntryMin : Nat := 8

/-- `ext2_dir_walk_t`; the name is read off the entry. -/
structure Walk where
  ptr : Nat
  entry : Option Nat
  previous : Option Nat
deriving DecidableEq

/-- `__ext2_walk_begin` -/
def walkBegin (dir : Nat) : Walk := { ptr := dir, entry := none, previous := none }

/-- `__ext2_walk_next` -/
def walkNext (bytes : Bytes) (walk : Walk) : Option Walk :=
  if walk.entry ≠ none ∧ inodeAt bytes walk.ptr = 0 then none
  else if sizeAt bytes walk.ptr < ext2DirEntryMin then none
  else some
    { ptr := walk.ptr + sizeAt bytes walk.ptr, entry := some walk.ptr, previous := walk.entry }

/-- The loops over `__ext2_walk_next`, left at an entry that `stop` accepts: whether there is one,
and the walk. Every entry takes at least 8 bytes of a 64-bit address space, so no walk has more
than `walkLimit` rounds. -/
def walkUntil (bytes : Bytes) (stop : DirEntry → Bool) : Nat → Walk → Bool × Walk
  | 0, walk => (false, walk)
  | fuel + 1, walk =>
    match walkNext bytes walk with
    | none => (false, walk)
    | some next =>
      if stop (entryAt bytes walk.ptr) then (true, next) else walkUntil bytes stop fuel next

@[inherit_doc walkUntil] def walkLimit : Nat := 2 ^ 61

/-- `entry->type != 0 && strcmp(name, filename) == 0` -/
def isNamed (filename : List UInt8) (entry : DirEntry) : Bool :=
  entry.type ≠ 0 ∧ entry.name.takeWhile (· ≠ 0) = filename

/-- What `__ext2_read_dir_entry` returns and stores in `read_entries`. -/
structure ReadDirEntries where
  found : Bool
  entry : Nat
  nextEntry : Nat

/-- `__ext2_read_dir_entry` -/
def readDirEntry (bytes : Bytes) (filename : List UInt8) : ReadDirEntries :=
  let (found, walk) := walkUntil bytes (isNamed filename) walkLimit (walkBegin 0)
  { found := found, entry := walk.entry.getD 0, nextEntry := walk.ptr }

/-- `__ext2_get_entry_inode_idx` -/
def getEntryInodeIdx (bytes : Bytes) (filename : List UInt8) : Nat :=
  if 255 < filename.length then 0
  else
    let (found, walk) := walkUntil bytes (isNamed filename) walkLimit (walkBegin 0)
    if found then inodeAt bytes (walk.entry.getD 0) else 0

/-- The entries lie one after another in the range. -/
def Layout (bytes : Bytes) : Nat → List DirEntry → Nat → Prop
  | offset, [], finish => offset = finish
  | offset, entry :: rest, finish =>
    entryAt bytes offset = entry ∧ Layout bytes (offset + entry.size) rest finish

instance decideLayout (bytes : Bytes) (finish : Nat) :
    ∀ offset entries, Decidable (Layout bytes offset entries finish)
  | offset, [] => inferInstanceAs (Decidable (offset = finish))
  | offset, entry :: rest =>
    have := decideLayout bytes finish (offset + entry.size) rest
    inferInstanceAs (Decidable (entryAt bytes offset = entry ∧
      Layout bytes (offset + entry.size) rest finish))

/-- The bytes that some entries take. -/
def span (entries : List DirEntry) : Nat := (entries.map DirEntry.size).sum

/-- What the format asks of an entry: its size is a multiple of four and leaves room for the name,
and the name has no zero byte. -/
structure Proper (entry : DirEntry) : Prop where
  room : 8 + entry.name.length ≤ entry.size
  aligned : entry.size % 4 = 0
  text : 0 ∉ entry.name

/-- A well-formed directory of a number of bytes: entries of the format fill its blocks, and none
crosses the end of a block. -/
structure WellFormed (bytes : Bytes) (size : Nat) (entries : List DirEntry) : Prop where
  layout : Layout bytes 0 entries size
  proper : ∀ entry ∈ entries, Proper entry
  nonempty : 0 < size
  bound : size < 2 ^ 32
  blocks : ∀ index ≤ size / 4096, ∃ front rest, entries = front ++ rest ∧ span front = 4096 * index
  whole : size % 4096 = 0

/-- Where the walk over the entries stops: at inode zero, or at a size below the least one. -/
def Ends (bytes : Bytes) (offset : Nat) : Prop :=
  inodeAt bytes offset = 0 ∨ sizeAt bytes offset < ext2DirEntryMin

/-- Only the first entry may be deleted, entries in use have a type, and a deleted one does not
pass for the name. -/
structure Walkable (entries : List DirEntry) (filename : List UInt8) : Prop where
  alive : ∀ entry ∈ entries.tail, entry.inode ≠ 0
  typed : ∀ entry ∈ entries, entry.inode ≠ 0 → entry.type ≠ 0
  gone : ∀ entry ∈ entries, entry.inode = 0 → entry.type = 0 ∨ entry.name ≠ filename

variable {front entries : List DirEntry} {finish : Nat} {bytes other : Bytes}

section Layouts

variable {offset : Nat}

@[simp] theorem span_nil : span [] = 0 := rfl

@[simp] theorem span_cons (entry : DirEntry) (rest : List DirEntry) :
    span (entry :: rest) = entry.size + span rest := by
  simp [span]

@[simp] theorem span_append (first second : List DirEntry) :
    span (first ++ second) = span first + span second := by
  simp [span]

/-- The entries end where their sizes add up to. -/
theorem layout_finish (layout : Layout bytes offset entries finish) :
    finish = offset + span entries := by
  induction entries generalizing offset with
  | nil => exact layout.symm
  | cons entry rest ih =>
    rw [ih layout.2, span_cons, Nat.add_assoc]

/-- A layout is split at the end of its first entries. -/
theorem layout_append (first second : List DirEntry) :
    Layout bytes offset (first ++ second) finish ↔
      Layout bytes offset first (offset + span first) ∧
        Layout bytes (offset + span first) second finish := by
  induction first generalizing offset with
  | nil => simp [Layout]
  | cons entry rest ih =>
    rw [cons_append, Layout, Layout, ih, span_cons, Nat.add_assoc]
    exact and_assoc.symm

variable {entry : DirEntry}

/-- The entry that stands behind the first ones. -/
theorem layout_entry {rest : List DirEntry}
    (layout : Layout bytes offset (front ++ entry :: rest) finish) :
    entryAt bytes (offset + span front) = entry :=
  ((layout_append _ _).mp layout).2.1

/-- Bytes that agree on an entry but for its size hold the same entry with another size. -/
theorem entryAt_resized {size : Nat} (same : ∀ probe, offset ≤ probe →
      probe < offset + 8 + nameLengthAt bytes offset → probe < offset + 4 ∨ offset + 6 ≤ probe →
      other probe = bytes probe) (isSize : sizeAt other offset = size) :
    entryAt other offset = { entryAt bytes offset with size := size } := by
  have field (width at' : Nat) (inside : offset ≤ at' ∧ at' + width ≤ offset + 4 ∨
      offset + 6 ≤ at' ∧ at' + width ≤ offset + 8) : load width other at' = load width bytes at' :=
    load_congr width other bytes at' fun probe lower upper =>
      same probe (by omega) (by omega) (by omega)
  have length : nameLengthAt other offset = nameLengthAt bytes offset :=
    field 1 (offset + 6) (by omega)
  have name : nameAt other offset = nameAt bytes offset := by
    rw [nameAt, nameAt, length]
    refine map_congr_left fun index inside => ?_
    have below := mem_range.mp inside
    exact same _ (by omega) (by omega) (by omega)
  have inode : inodeAt other offset = inodeAt bytes offset := field 4 offset (by omega)
  have type : typeAt other offset = typeAt bytes offset := field 1 (offset + 7) (by omega)
  rw [entryAt, entryAt, inode, isSize, type, name]

/-- An entry depends on its own bytes only. -/
theorem entryAt_congr (same : ∀ probe, offset ≤ probe →
      probe < offset + 8 + nameLengthAt bytes offset → other probe = bytes probe) :
    entryAt other offset = entryAt bytes offset :=
  entryAt_resized (fun probe lower upper _ => same probe lower upper)
    (load_congr 2 other bytes _ fun probe lower upper => same probe (by omega) (by omega))

/-- The entry that is read from its fields. -/
theorem entryAt_fields (inode : inodeAt bytes offset = entry.inode)
    (size : sizeAt bytes offset = entry.size) (type : typeAt bytes offset = entry.type)
    (length : nameLengthAt bytes offset = entry.name.length)
    (name : ∀ index < entry.name.length, bytes (offset + 8 + index) = entry.name.getD index 0) :
    entryAt bytes offset = entry := by
  have isName : nameAt bytes offset = entry.name := by
    rw [nameAt, length]
    refine (map_congr_left fun index inside => name index (mem_range.mp inside)).trans ?_
    apply ext_getElem
    · simp
    · intro index _ below
      simp [below]
  rw [entryAt, inode, size, type, isName]

/-- The copy of a name with its terminator. -/
theorem copy_name {name : List UInt8} {index : Nat} (below : index < name.length) :
    copy bytes offset (name ++ [0]) (offset + index) = name.getD index 0 := by
  rw [copy_inside (by rw [length_append]; omega), getD_eq_getElem?_getD,
    getElem?_append_left below, ← getD_eq_getElem?_getD]

theorem name_length (bytes : Bytes) (offset : Nat) :
    (entryAt bytes offset).name.length = nameLengthAt bytes offset := by
  simp [entryAt, nameAt]

/-- A layout depends on the bytes that it covers only. -/
theorem layout_congr (layout : Layout bytes offset entries finish)
    (proper : ∀ entry ∈ entries, 8 + entry.name.length ≤ entry.size)
    (same : ∀ probe, offset ≤ probe → probe < finish → other probe = bytes probe) :
    Layout other offset entries finish := by
  induction entries generalizing offset with
  | nil => exact layout
  | cons entry rest ih =>
    obtain ⟨isEntry, tail⟩ := layout
    have room := proper entry mem_cons_self
    have ends := layout_finish tail
    refine ⟨?_, ih tail (forall_mem_cons.mp proper).2 fun probe lower upper => same probe (by omega) upper⟩
    rw [entryAt_congr, isEntry]
    intro probe lower upper
    rw [← name_length, isEntry] at upper
    exact same probe lower (by omega)

end Layouts

section Walks

variable {stop : DirEntry → Bool} {walk : Walk}

/-- The walk after it has gone past the given entries. -/
def passed (walk : Walk) : List DirEntry → Walk
  | [] => walk
  | entry :: rest =>
    passed { ptr := walk.ptr + entry.size, entry := some walk.ptr, previous := walk.entry } rest

/-- The walk has passed as many bytes as the entries have. -/
theorem passed_ptr (walk : Walk) (entries : List DirEntry) :
    (passed walk entries).ptr = walk.ptr + span entries := by
  induction entries generalizing walk with
  | nil => rfl
  | cons entry rest ih =>
    rw [passed, ih, span_cons, Nat.add_assoc]

theorem passed_snoc (walk : Walk) (front : List DirEntry) (last : DirEntry) :
    passed walk (front ++ [last]) =
      { ptr := walk.ptr + span front + last.size, entry := some (walk.ptr + span front),
        previous := (passed walk front).entry } := by
  induction front generalizing walk with
  | nil => rfl
  | cons entry rest ih =>
    rw [cons_append, passed, ih, span_cons, passed]
    simp only [Nat.add_assoc]

variable {entry : DirEntry}

/-- One step of the walk goes past an entry that is in use, and past the first in any case. -/
theorem walkNext_entry (isEntry : entryAt bytes walk.ptr = entry) (large : 8 ≤ entry.size)
    (visible : walk.entry = none ∨ entry.inode ≠ 0) :
    walkNext bytes walk = some
      { ptr := walk.ptr + entry.size, entry := some walk.ptr, previous := walk.entry } := by
  have size : sizeAt bytes walk.ptr = entry.size := congrArg DirEntry.size isEntry
  have inode : inodeAt bytes walk.ptr = entry.inode := congrArg DirEntry.inode isEntry
  rw [walkNext, size, inode, if_neg, if_neg]
  · exact Nat.not_lt.mpr large
  · rintro ⟨later, dead⟩
    rcases visible with first | live
    · exact later first
    · exact live dead

/-- Entries that the loop does not stop at. The first one may be deleted if the walk begins with
it. -/
theorem walkUntil_pass (fuel : Nat) {rest : List DirEntry}
    (layout : Layout bytes walk.ptr (front ++ rest) finish)
    (large : ∀ entry ∈ front, 8 ≤ entry.size) (goes : ∀ entry ∈ front, stop entry = false)
    (alive : ∀ entry ∈ front.tail, entry.inode ≠ 0)
    (first : walk.entry = none ∨ ∀ entry ∈ front, entry.inode ≠ 0) :
    walkUntil bytes stop (fuel + front.length) walk =
      walkUntil bytes stop fuel (passed walk front) := by
  induction front generalizing walk with
  | nil => rfl
  | cons entry others ih =>
    obtain ⟨isEntry, tail⟩ := layout
    have visible : walk.entry = none ∨ entry.inode ≠ 0 :=
      first.imp_right fun all => all entry mem_cons_self
    rw [length_cons, ← Nat.add_assoc, walkUntil,
      walkNext_entry isEntry (large entry mem_cons_self) visible]
    simp only [isEntry, goes entry mem_cons_self, Bool.false_eq_true, if_false]
    rw [passed]
    refine ih tail
      (forall_mem_cons.mp large).2
      (forall_mem_cons.mp goes).2
      (fun other member => alive other (mem_of_mem_tail member)) (.inr alive)

/-- The walk stops at the first entry that it is looking for. The induction is on the entries in
front of it. -/
theorem walkUntil_stops (fuel : Nat) {walk : Walk} {rest : List DirEntry}
    (layout : Layout bytes walk.ptr (front ++ entry :: rest) finish)
    (large : ∀ other ∈ front ++ [entry], 8 ≤ other.size)
    (goes : ∀ other ∈ front, stop other = false) (accepts : stop entry = true)
    (alive : ∀ other ∈ (front ++ [entry]).tail, other.inode ≠ 0) (begins : walk.entry = none) :
    walkUntil bytes stop (fuel + 1 + front.length) walk =
      (true, passed walk (front ++ [entry])) := by
  have isEntry : entryAt bytes (passed walk front).ptr = entry := by
    rw [passed_ptr]
    exact layout_entry layout
  have visible : (passed walk front).entry = none ∨ entry.inode ≠ 0 := by
    cases front with
    | nil => exact .inl begins
    | cons other others => exact .inr (alive entry (by simp))
  rw [walkUntil_pass (fuel + 1) layout
    (fun other member => large other (mem_append_left _ member)) goes
    (fun other member => alive other ?_) (.inl begins), walkUntil,
    walkNext_entry isEntry (large entry (by simp)) visible]
  · simp only [isEntry, accepts, if_true]
    rw [passed_snoc, passed_ptr]
  · cases front with
    | nil => cases member
    | cons first others => exact mem_append_left _ member

/-- Where no entry is the one looked for, the walk passes all of them. -/
theorem walkUntil_ends (fuel : Nat) {walk : Walk} (layout : Layout bytes walk.ptr entries finish)
    (some : entries ≠ []) (large : ∀ entry ∈ entries, 8 ≤ entry.size)
    (goes : ∀ entry ∈ entries, stop entry = false) (alive : ∀ entry ∈ entries.tail, entry.inode ≠ 0)
    (begins : walk.entry = none) (ends : Ends bytes finish) :
    walkUntil bytes stop (fuel + entries.length) walk = (false, passed walk entries) := by
  obtain ⟨front, last, rfl⟩ : ∃ front last, entries = front ++ [last] :=
    ⟨_, _, (dropLast_concat_getLast some).symm⟩
  have stays : walkNext bytes (passed walk (front ++ [last])) = none := by
    have place : (passed walk (front ++ [last])).ptr = finish := by
      rw [passed_ptr, ← layout_finish layout]
    rw [walkNext, place, passed_snoc]
    rcases ends with dead | small
    · rw [if_pos ⟨by simp, dead⟩]
    · rw [if_pos small, ite_self]
  have whole : Layout bytes walk.ptr (front ++ [last] ++ []) finish := by
    rw [append_nil]
    exact layout
  rw [walkUntil_pass fuel whole large goes alive (.inl begins)]
  cases fuel with
  | zero => rfl
  | succ fuel => rw [walkUntil, stays]

end Walks

/-- The entries that a walk visits: the first one, and those in use behind it. -/
structure Visible (bytes : Bytes) (entries visible rest : List DirEntry) : Prop where
  split : entries = visible ++ rest
  some : visible ≠ []
  alive : ∀ entry ∈ visible.tail, entry.inode ≠ 0
  ends : Ends bytes (span visible)

/-- What a loop over the entries from the start comes to. -/
theorem walk_outcome {visible rest : List DirEntry} {size : Nat} (stop : DirEntry → Bool)
    (layout : Layout bytes 0 entries size) (large : ∀ entry ∈ entries, 8 ≤ entry.size)
    (seen : Visible bytes entries visible rest) (few : entries.length < walkLimit) :
    (∃ front entry others, visible = front ++ entry :: others ∧ stop entry = true ∧
      (∀ other ∈ front, stop other = false) ∧
      walkUntil bytes stop walkLimit (walkBegin 0) =
        (true, passed (walkBegin 0) (front ++ [entry]))) ∨
    ((∀ entry ∈ visible, stop entry = false) ∧
      walkUntil bytes stop walkLimit (walkBegin 0) = (false, passed (walkBegin 0) visible)) := by
  have split := seen.split
  rw [split, layout_append] at layout
  have fewer : visible.length < walkLimit := by
    rw [split, length_append] at few
    omega
  have large : ∀ entry ∈ visible, 8 ≤ entry.size := fun entry member =>
    large entry (split ▸ mem_append_left _ member)
  cases found : visible.find? stop with
  | some entry =>
    obtain ⟨accepted, front, others, divided, before⟩ := find?_eq_some_iff_append.mp found
    have goes : ∀ other ∈ front, stop other = false := fun other inside => by
      simpa using before other inside
    refine .inl ⟨front, entry, others, divided, accepted, goes, ?_⟩
    have rounds : walkLimit = walkLimit - 1 - front.length + 1 + front.length := by
      rw [divided, length_append] at fewer
      omega
    have alive := seen.alive
    rw [divided] at layout alive large
    rw [rounds]
    refine walkUntil_stops _ layout.1 (fun other inside => large other ?_) goes
      accepted (fun other inside => alive other ?_) rfl
    · simp only [mem_append, mem_cons, not_mem_nil, or_false] at inside ⊢
      tauto
    · cases front with
      | nil => cases inside
      | cons first more =>
        simp only [cons_append, tail_cons, mem_append, mem_cons,
          not_mem_nil, or_false] at inside ⊢
        tauto
  | none =>
    have goes : ∀ entry ∈ visible, stop entry = false := fun entry member => by
      simpa using find?_eq_none.mp found entry member
    refine .inr ⟨goes, ?_⟩
    have rounds : walkLimit = walkLimit - visible.length + visible.length := by omega
    have ends := seen.ends
    rw [← Nat.zero_add (span visible)] at ends
    rw [rounds]
    exact walkUntil_ends _ layout.1 seen.some large goes seen.alive rfl ends

/-- The entries that the walk sees are the first ones, up to one that ends it. -/
theorem visible_exists {size : Nat} (layout : Layout bytes 0 entries size) (some : entries ≠ [])
    (ends : Ends bytes size) : ∃ visible rest, Visible bytes entries visible rest := by
  obtain ⟨first, others, rfl⟩ := exists_cons_of_ne_nil some
  refine ⟨first :: others.takeWhile (·.inode ≠ 0), others.dropWhile (·.inode ≠ 0), ?_, by simp, ?_,
    ?_⟩
  · rw [cons_append, takeWhile_append_dropWhile]
  · intro entry member
    have live := mem_takeWhile_imp member
    exact of_decide_eq_true live
  · have whole : first :: others = (first :: others.takeWhile (·.inode ≠ 0)) ++
        others.dropWhile (·.inode ≠ 0) := by
      rw [cons_append, takeWhile_append_dropWhile]
    rw [whole, layout_append, Nat.zero_add] at layout
    cases rest : others.dropWhile (·.inode ≠ 0) with
    | nil =>
      rw [rest] at layout
      rw [show span _ = size from layout.2]
      exact ends
    | cons dead more =>
      rw [rest] at layout
      refine .inl ((congrArg DirEntry.inode layout.2.1).trans ?_)
      have head :=
        head?_dropWhile_not (fun entry : DirEntry => decide (entry.inode ≠ 0)) others
      rw [rest] at head
      simpa using head

/-- Whether an entry is in use and has the name that is looked for. -/
def isLive (filename : List UInt8) (entry : DirEntry) : Bool :=
  entry.inode ≠ 0 ∧ entry.name = filename

variable {entry : DirEntry}

/-- `strcmp` sees the whole name. -/
theorem isNamed_proper (text : 0 ∉ entry.name) (filename : List UInt8) :
    isNamed filename entry = decide (entry.type ≠ 0 ∧ entry.name = filename) := by
  have whole : entry.name.takeWhile (· ≠ 0) = entry.name := by
    rw [takeWhile_eq_self_iff]
    intro byte member
    exact decide_eq_true fun zero => text (zero ▸ member)
  rw [isNamed, whole]

section Lookup

variable {size : Nat} {filename : List UInt8}

/-- Entries take at least eight bytes each. -/
theorem length_le_span (large : ∀ entry ∈ entries, 8 ≤ entry.size) :
    8 * entries.length ≤ span entries := by
  induction entries with
  | nil => exact Nat.le_refl _
  | cons entry rest ih =>
    have first := large entry mem_cons_self
    have others :=
      ih (forall_mem_cons.mp large).2
    rw [length_cons, span_cons]
    omega

section

variable (formed : WellFormed bytes size entries)
include formed

theorem WellFormed.large :
    ∀ entry ∈ entries, 8 ≤ entry.size :=
  fun entry member => Nat.le_of_add_right_le (formed.proper entry member).room

/-- A directory has fewer entries than the loops have rounds. -/
theorem WellFormed.few : entries.length < walkLimit := by
  have least := length_le_span formed.large
  have ends := layout_finish formed.layout
  have bound := formed.bound
  unfold walkLimit
  omega

theorem WellFormed.some : entries ≠ [] := by
  rintro rfl
  have ends := layout_finish formed.layout
  have positive := formed.nonempty
  rw [span_nil] at ends
  omega

/-- Where no entry but the first is empty, the walk sees them all. -/
theorem WellFormed.visible (alive : ∀ entry ∈ entries.tail, entry.inode ≠ 0)
    (ends : Ends bytes size) :
    Visible bytes entries entries [] := by
  refine ⟨(append_nil _).symm, formed.some, alive, ?_⟩
  have finish := layout_finish formed.layout
  rw [Nat.zero_add] at finish
  rw [← finish]
  exact ends

/-- What passes for the name is what is in use under the name. -/
theorem isNamed_live (walkable : Walkable entries filename) (member : entry ∈ entries) :
    isNamed filename entry = isLive filename entry := by
  rw [isNamed_proper (formed.proper entry member).text, isLive, decide_eq_decide]
  constructor
  · rintro ⟨type, name⟩
    refine ⟨fun dead => ?_, name⟩
    rcases walkable.gone entry member dead with untyped | other
    · exact type untyped
    · exact other name
  · rintro ⟨live, name⟩
    exact ⟨walkable.typed entry member live, name⟩

/-- The loop of a lookup, over the entries of the directory. -/
theorem lookup_outcome (walkable : Walkable entries filename) (ends : Ends bytes size) :
    (∃ front entry rest, entries = front ++ entry :: rest ∧
      entries.find? (isLive filename) = some entry ∧
      walkUntil bytes (isNamed filename) walkLimit (walkBegin 0) =
        (true, passed (walkBegin 0) (front ++ [entry]))) ∨
    (entries.find? (isLive filename) = none ∧
      walkUntil bytes (isNamed filename) walkLimit (walkBegin 0) =
        (false, passed (walkBegin 0) entries)) := by
  have named : ∀ entry ∈ entries, isNamed filename entry = isLive filename entry :=
    fun entry member => isNamed_live formed walkable member
  rcases walk_outcome (isNamed filename) formed.layout formed.large
    (formed.visible walkable.alive ends) formed.few with
    ⟨front, entry, rest, split, accepts, goes, outcome⟩ | ⟨goes, outcome⟩
  · refine .inl ⟨front, entry, rest, split, find?_eq_some_iff_append.mpr ⟨?_, front, rest,
      split, fun other inside => ?_⟩, outcome⟩
    · rw [← named entry (by simp [split])]
      exact accepts
    · rw [← named other (by simp [split, inside]), goes other inside]
      rfl
  · refine .inr ⟨find?_eq_none.mpr fun entry member => ?_, outcome⟩
    rw [← named entry member, goes entry member]
    exact Bool.false_ne_true

theorem WellFormed.congr (same : ∀ probe < size, other probe = bytes probe) :
    WellFormed other size entries :=
  { formed with
    layout := layout_congr formed.layout (fun entry member => (formed.proper entry member).room)
      fun probe _ below => same probe below }

/-- The lookup finds the first live entry of the name, and nothing where there is none. -/
theorem lookup_result (walkable : Walkable entries filename) (ends : Ends bytes size) :
    ((readDirEntry bytes filename).found = true ↔ (entries.find? (isLive filename)).isSome) ∧
    ∀ entry, entries.find? (isLive filename) = some entry →
      entryAt bytes (readDirEntry bytes filename).entry = entry := by
  rcases lookup_outcome formed walkable ends with ⟨front, entry, rest, split, found, outcome⟩ |
    ⟨missing, outcome⟩
  · rw [readDirEntry, outcome, found, passed_snoc]
    refine ⟨by simp, fun other isOther => ?_⟩
    obtain rfl := Option.some.inj isOther
    exact layout_entry (split ▸ formed.layout)
  · rw [readDirEntry, outcome, missing]
    refine ⟨by simp, fun other isOther => ?_⟩
    cases isOther

end

end Lookup

/-- Entries of the format fill a number of bytes, whatever the size of the blocks. -/
structure Formed (bytes : Bytes) (size : Nat) (entries : List DirEntry) : Prop where
  layout : Layout bytes 0 entries size
  proper : ∀ entry ∈ entries, Proper entry
  nonempty : 0 < size
  bound : size < 2 ^ 32

/-- Whatever follows the directory in the buffer, an entry is found exactly if one within the
directory is in use under the name. -/
def LooksUp (bytes : Bytes) (size : Nat) (entries : List DirEntry) (filename : List UInt8) : Prop :=
  ∀ buffer, (∀ probe < size, buffer probe = bytes probe) →
    ((readDirEntry buffer filename).found = true ↔
      ∃ entry ∈ entries, entry.inode ≠ 0 ∧ entry.name = filename)

/-- The entries that the walk comes to before it leaves the directory: the first one, and those in
front of the next deleted one. -/
def seen : List DirEntry → List DirEntry
  | [] => []
  | first :: rest => first :: rest.takeWhile (·.inode ≠ 0)

/-- When what follows the directory does not matter, and deleted entries do not hide the name or pass
for it: an entry that the walk comes to passes for the name, and one is in use under it; or none
does, none is in use under it, and a deleted entry ends the walk or no entry can have the name. -/
def Settled (entries : List DirEntry) (filename : List UInt8) : Prop :=
  ((∃ entry ∈ seen entries, isNamed filename entry = true) ∧
    ∃ entry ∈ entries, entry.inode ≠ 0 ∧ entry.name = filename) ∨
  (∀ entry ∈ seen entries, isNamed filename entry = false) ∧
    (¬ ∃ entry ∈ entries, entry.inode ≠ 0 ∧ entry.name = filename) ∧
    (seen entries ≠ entries ∨ 255 < filename.length ∨ 0 ∈ filename)

section Settling

variable {size : Nat} {filename : List UInt8}

theorem Formed.large (formed : Formed bytes size entries) : ∀ entry ∈ entries, 8 ≤ entry.size :=
  fun entry member => Nat.le_of_add_right_le (formed.proper entry member).room

/-- A directory has fewer than `2 ^ 32` entries. -/
theorem Formed.few (formed : Formed bytes size entries) : entries.length < 2 ^ 32 := by
  have least := length_le_span formed.large
  have ends := layout_finish formed.layout
  have bound := formed.bound
  omega

theorem Formed.congr (formed : Formed bytes size entries)
    (same : ∀ probe < size, other probe = bytes probe) : Formed other size entries :=
  { formed with
    layout := layout_congr formed.layout (fun entry member => (formed.proper entry member).room)
      fun probe _ below => same probe below }

/-- The directory is what the walk comes to, and what a deleted entry hides. -/
theorem seen_split (entries : List DirEntry) : ∃ rest, entries = seen entries ++ rest ∧
    (∀ entry ∈ (seen entries).tail, entry.inode ≠ 0) ∧
    ∀ dead others, rest = dead :: others → dead.inode = 0 := by
  cases entries with
  | nil => exact ⟨[], rfl, by simp [seen], by simp⟩
  | cons first others =>
    refine ⟨others.dropWhile (·.inode ≠ 0), ?_, fun entry member => ?_, fun dead more rest => ?_⟩
    · rw [seen, cons_append, takeWhile_append_dropWhile]
    · have live := mem_takeWhile_imp (show entry ∈ others.takeWhile (·.inode ≠ 0) from member)
      exact of_decide_eq_true live
    · have head := head?_dropWhile_not (fun entry : DirEntry => decide (entry.inode ≠ 0)) others
      rw [rest] at head
      simpa using head

/-- A walk stops at the first entry it comes to that passes for the name. -/
theorem found_of_seen {front rest : List DirEntry} {entry : DirEntry} {finish : Nat}
    (layout : Layout bytes 0 (front ++ entry :: rest) finish)
    (large : ∀ other ∈ front ++ [entry], 8 ≤ other.size) (few : front.length < 2 ^ 32)
    (goes : ∀ other ∈ front, isNamed filename other = false)
    (accepts : isNamed filename entry = true)
    (alive : ∀ other ∈ (front ++ [entry]).tail, other.inode ≠ 0) :
    (readDirEntry bytes filename).found = true := by
  have rounds : walkLimit = walkLimit - 1 - front.length + 1 + front.length := by
    unfold walkLimit
    omega
  have outcome := walkUntil_stops (walkLimit - 1 - front.length)
    (show Layout bytes (walkBegin 0).ptr _ _ from layout) large goes accepts alive rfl
  rw [← rounds] at outcome
  rw [readDirEntry, outcome]

/-- A walk that a deleted entry ends finds nothing behind it. -/
theorem missing_of_seen (formed : Formed bytes size entries)
    (goes : ∀ entry ∈ seen entries, isNamed filename entry = false)
    (ends : seen entries ≠ entries ∨ Ends bytes size) :
    (readDirEntry bytes filename).found = false := by
  obtain ⟨rest, split, alive, dead⟩ := seen_split entries
  have layout := formed.layout
  rw [split, layout_append, Nat.zero_add] at layout
  have some : seen entries ≠ [] := by
    intro none
    cases entries with
    | nil => exact absurd formed.layout (Nat.ne_of_lt formed.nonempty)
    | cons first others => cases none
  have stops : Ends bytes (0 + span (seen entries)) := by
    rw [Nat.zero_add]
    cases rest with
    | nil =>
      rw [append_nil] at split
      rw [show span (seen entries) = size from layout.2]
      exact ends.resolve_left fun apart => apart split.symm
    | cons entry others =>
      exact .inl ((congrArg DirEntry.inode layout.2.1).trans (dead entry others rfl))
  have few := formed.few
  have rounds : walkLimit = walkLimit - (seen entries).length + (seen entries).length := by
    rw [split, length_append] at few
    unfold walkLimit
    omega
  have whole : Layout bytes 0 (seen entries) (0 + span (seen entries)) := by
    rw [Nat.zero_add]
    exact layout.1
  have outcome := walkUntil_ends (walkLimit - (seen entries).length)
    (show Layout bytes (walkBegin 0).ptr _ _ from whole) some
    (fun entry member => formed.large entry (split ▸ mem_append_left _ member)) goes alive rfl stops
  rw [← rounds] at outcome
  rw [readDirEntry, outcome]

/-- A name that no entry can have is not found. -/
theorem missing_of_long (wrong : 255 < filename.length ∨ 0 ∈ filename) (bytes : Bytes) :
    (readDirEntry bytes filename).found = false := by
  have never (offset : Nat) : isNamed filename (entryAt bytes offset) = false := by
    refine decide_eq_false ?_
    rintro ⟨_, rfl⟩
    rcases wrong with long | zero
    · have short := ( takeWhile_prefix (· ≠ (0 : UInt8)) (l := (entryAt bytes offset).name)).length_le
      have length := name_length bytes offset
      have byte := UInt8.toNat_lt (bytes (offset + 6))
      simp only [nameLengthAt, load] at length
      omega
    · have nonzero := mem_takeWhile_imp zero
      exact of_decide_eq_true nonzero rfl
  have walks (fuel : Nat) (walk : Walk) :
      (walkUntil bytes (isNamed filename) fuel walk).1 = false := by
    induction fuel generalizing walk with
    | zero => rfl
    | succ fuel ih =>
      rw [walkUntil]
      split
      · rfl
      · simp only [never, Bool.false_eq_true, if_false]
        exact ih _
  exact walks walkLimit (walkBegin 0)

/-- A buffer with the directory and an entry of some name behind it. -/
def followed (bytes : Bytes) (size : Nat) (filename : List UInt8) : Bytes := fun probe =>
  if probe < size then bytes probe
  else ([1, 0, 0, 0, 8, 1, UInt8.ofNat filename.length, 1] ++ filename).getD (probe - size) 0

theorem followed_entry (bytes : Bytes) (size : Nat) (short : filename.length ≤ 255) :
    entryAt (followed bytes size filename) size = ⟨1, 264, 1, filename⟩ := by
  have byte (index : Nat) : followed bytes size filename (size + index) =
      ([1, 0, 0, 0, 8, 1, UInt8.ofNat filename.length, 1] ++ filename).getD index 0 := by
    rw [followed, if_neg (by omega), Nat.add_sub_cancel_left]
  have first := byte 0
  rw [Nat.add_zero] at first
  refine entryAt_fields ?_ ?_ ?_ ?_ fun index below => ?_
  · simp [inodeAt, load, first, byte, Nat.add_assoc]
  · simp [sizeAt, load, byte, Nat.add_assoc]
  · simp [typeAt, load, byte]
  · simp [nameLengthAt, load, byte]
    omega
  · rw [Nat.add_assoc, byte, getD_eq_getElem?_getD, getElem?_append_right (by simp),
      ← getD_eq_getElem?_getD]
    congr 1
    simp

/-- An entry of the name among those seen is found. -/
theorem found_of_named (formed : Formed bytes size entries)
    (named : ∃ entry ∈ seen entries, isNamed filename entry = true) :
    (readDirEntry bytes filename).found = true := by
  obtain ⟨rest, split, alive, _⟩ := seen_split entries
  obtain ⟨entry, isFirst⟩ : ∃ entry, (seen entries).find? (isNamed filename) = some entry := by
    refine Option.isSome_iff_exists.mp (find?_isSome.mpr ?_)
    exact named
  obtain ⟨accepts, front, others, divided, before⟩ := find?_eq_some_iff_append.mp isFirst
  have goes : ∀ other ∈ front, isNamed filename other = false := fun other inside => by
    simpa using before other inside
  have layout := formed.layout
  have large := formed.large
  have few := formed.few
  rw [split, divided] at layout large few
  rw [append_assoc, cons_append] at layout
  refine found_of_seen layout (fun other inside => large other ?_) ?_ goes accepts
    fun other inside => alive other ?_
  · simp only [mem_append, mem_cons, not_mem_nil, or_false] at inside ⊢
    tauto
  · simp only [length_append, length_cons] at few
    omega
  · rw [divided]
    cases front with
    | nil => cases inside
    | cons first more =>
      simp only [cons_append, tail_cons, mem_append, mem_cons, not_mem_nil, or_false] at inside ⊢
      tauto

/-- A lookup that is right whatever follows the directory is settled inside it. -/
theorem settled_of_looksUp (formed : Formed bytes size entries)
    (exactly : LooksUp bytes size entries filename) : Settled entries filename := by
  by_cases named : ∃ entry ∈ seen entries, isNamed filename entry = true
  · exact .inl ⟨named, (exactly bytes fun _ _ => rfl).mp (found_of_named formed named)⟩
  have goes : ∀ entry ∈ seen entries, isNamed filename entry = false := fun entry member =>
    Bool.eq_false_iff.mpr fun accepts => named ⟨entry, member, accepts⟩
  have absent (buffer : Bytes) (same : ∀ probe < size, buffer probe = bytes probe)
      (ends : seen entries ≠ entries ∨ Ends buffer size) :
      ¬ ∃ entry ∈ entries, entry.inode ≠ 0 ∧ entry.name = filename := by
    intro live
    have found := (exactly buffer same).mpr live
    rw [missing_of_seen (formed.congr same) goes ends] at found
    cases found
  by_cases hidden : seen entries ≠ entries
  · exact .inr ⟨goes, absent bytes (fun _ _ => rfl) (.inl hidden), .inl hidden⟩
  -- the walk leaves the directory: zeros end it, and an entry of the name is found
  have ends : Ends (fun probe => if probe < size then bytes probe else 0) size := by
    refine .inr ?_
    simp only [sizeAt, load]
    rw [if_neg (by omega), if_neg (by omega)]
    decide
  have nothing := absent _ (fun probe below => if_pos below) (.inr ends)
  refine .inr ⟨goes, nothing, .inr ?_⟩
  by_contra possible
  obtain ⟨short, text⟩ := not_or.mp possible
  have isEntry := followed_entry bytes size (Nat.le_of_not_lt short)
  have same : ∀ probe < size, followed bytes size filename probe = bytes probe :=
    fun probe below => if_pos below
  have formedAfter := formed.congr same
  have finish := layout_finish formedAfter.layout
  have longer : Layout (followed bytes size filename) 0 (entries ++ [⟨1, 264, 1, filename⟩])
      (size + 264) := by
    rw [layout_append, ← finish]
    exact ⟨formedAfter.layout, isEntry, rfl⟩
  have accepts : isNamed filename ⟨1, 264, 1, filename⟩ = true := by
    rw [isNamed_proper text]
    simp
  rw [not_not] at hidden
  obtain ⟨rest, split, alive, _⟩ := seen_split entries
  rw [hidden] at goes alive
  refine nothing ((exactly _ same).mp (found_of_seen longer (fun other inside => ?_) formed.few goes
    accepts fun other inside => ?_))
  · rcases mem_append.mp inside with old | new
    · exact formed.large other old
    · obtain rfl := mem_singleton.mp new
      simp
  · cases entries with
    | nil => cases inside
    | cons first more =>
      rcases mem_append.mp inside with old | new
      · exact alive other old
      · obtain rfl := mem_singleton.mp new
        simp

/-- A lookup that is settled inside the directory is right whatever follows it. -/
theorem Settled.looksUp (settled : Settled entries filename)
    (formed : Formed bytes size entries) : LooksUp bytes size entries filename := by
  intro buffer same
  have formed := formed.congr same
  rcases settled with ⟨named, live⟩ | ⟨goes, absent, hidden | wrong⟩
  · exact iff_of_true (found_of_named formed named) live
  · refine iff_of_false ?_ absent
    rw [missing_of_seen formed goes (.inl hidden)]
    exact Bool.false_ne_true
  · refine iff_of_false ?_ absent
    rw [missing_of_long wrong buffer]
    exact Bool.false_ne_true

end Settling

/-- Whatever follows the directory in the buffer, looking a name up finds an entry exactly if one is
in use under the name, if and only if the entries the walk comes to settle it. -/
theorem lookup_exact_iff (bytes : Bytes) (size : Nat) (entries : List DirEntry)
    (filename : List UInt8) (formed : Formed bytes size entries) :
    LooksUp bytes size entries filename ↔ Settled entries filename :=
  ⟨settled_of_looksUp formed, fun settled => settled.looksUp formed⟩

/-- The bytes of a new directory: an entry for itself and one for its parent. -/
def newDirectory : List UInt8 :=
  [12, 0, 0, 0, 12, 0, 1, 2, 46, 0, 0, 0, 2, 0, 0, 0, 244, 15, 2, 2, 46, 46, 0, 0]

/-- A buffer that begins with some bytes and has others at the start of the second block. -/
def bufferOf (first second : List UInt8) : Bytes := fun offset =>
  if offset < 4096 then first.getD offset 0 else second.getD (offset - 4096) 0

/-- The two entries of a new directory. -/
def newEntries : List DirEntry := [⟨12, 12, 2, [46]⟩, ⟨2, 4084, 2, [46, 46]⟩]

/-- An entry for inode 13 that takes the rest of a block after twelve bytes, with the name `b`. -/
def lastEntry : List UInt8 := [13, 0, 0, 0, 244, 15, 1, 1, 98]

instance (entry : DirEntry) : Decidable (Proper entry) :=
  decidable_of_iff (8 + entry.name.length ≤ entry.size ∧ entry.size % 4 = 0 ∧ 0 ∉ entry.name)
    ⟨fun ⟨room, aligned, text⟩ => ⟨room, aligned, text⟩,
      fun ⟨room, aligned, text⟩ => ⟨room, aligned, text⟩⟩

/-- A directory of one block. -/
theorem formed_one {bytes : Bytes} {entries : List DirEntry} (layout : Layout bytes 0 entries 4096)
    (proper : ∀ entry ∈ entries, Proper entry) : WellFormed bytes 4096 entries := by
  refine ⟨layout, proper, by decide, by decide, fun index below => ?_, by decide⟩
  have ends := layout_finish layout
  rcases Nat.le_one_iff_eq_zero_or_eq_one.mp below with rfl | rfl
  · exact ⟨[], entries, rfl, rfl⟩
  · exact ⟨entries, [], (append_nil _).symm, by omega⟩

/-- A directory of two blocks, each filled by its entries. -/
theorem formed_pair {bytes : Bytes} {first second : List DirEntry}
    (layout : Layout bytes 0 (first ++ second) 8192) (filled : span first = 4096)
    (proper : ∀ entry ∈ first ++ second, Proper entry) :
    WellFormed bytes 8192 (first ++ second) := by
  refine ⟨layout, proper, by decide, by decide, fun index below => ?_, by decide⟩
  have ends := layout_finish layout
  have cases : index = 0 ∨ index = 1 ∨ index = 2 := by omega
  rcases cases with rfl | rfl | rfl
  · exact ⟨[], _, rfl, rfl⟩
  · exact ⟨first, second, rfl, filled⟩
  · exact ⟨_, [], (append_nil _).symm, by omega⟩

theorem newEntries_proper : ∀ entry ∈ newEntries, Proper entry := by decide

/-- The entry of a new directory for itself is found, whatever follows the directory. -/
theorem lookup_exact_new : LooksUp (bufferOf newDirectory []) 4096 newEntries [46] := by
  have layout : Layout (bufferOf newDirectory []) 0 newEntries 4096 := by
    decide +kernel
  refine (lookup_exact_iff _ 4096 _ _ ⟨layout, newEntries_proper, by decide, by decide⟩).mpr
    (.inl ⟨⟨⟨12, 12, 2, [46]⟩, by decide, by decide⟩, ⟨12, 12, 2, [46]⟩, by decide, by decide⟩)

/-- The second block of a directory begins with a deleted entry; the one behind it is not found. And
a directory of one block is followed in the buffer by an entry, which is found. -/
theorem lookup_fails :
    (∃ bytes size entries filename, WellFormed bytes size entries ∧ Ends bytes size ∧
      (∃ entry ∈ entries, entry.inode ≠ 0 ∧ entry.name = filename) ∧
      (readDirEntry bytes filename).found = false) ∧
    ∃ bytes buffer size entries filename, WellFormed bytes size entries ∧
      (∀ probe < size, buffer probe = bytes probe) ∧
      (∀ entry ∈ entries, entry.name ≠ filename) ∧
      (readDirEntry bytes filename).found = false ∧
      (readDirEntry buffer filename).found = true := by
  constructor
  · refine ⟨bufferOf newDirectory ([0, 0, 0, 0, 12, 0, 0, 0, 0, 0, 0, 0] ++ lastEntry), 8192,
      newEntries ++ [⟨0, 12, 0, []⟩, ⟨13, 4084, 1, [98]⟩], [98],
      formed_pair ?_ (by decide) (by decide), .inl (by decide +kernel),
      ⟨_, mem_of_getLast? rfl, by decide, rfl⟩, by decide +kernel⟩
    decide +kernel
  · refine ⟨bufferOf newDirectory [], bufferOf newDirectory lastEntry, 4096, newEntries, [98],
      formed_one ?_ newEntries_proper, ?_, by decide, by decide +kernel, by decide +kernel⟩
    · decide +kernel
    · intro probe below
      rw [bufferOf, bufferOf, if_pos below, if_pos below]

end Balrog.DirEntries
