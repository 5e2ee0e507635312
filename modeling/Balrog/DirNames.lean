import Balrog.DirChanges

/-!
# The names of a directory of one block

Creations and removals in a directory of one block, seen as changes of its list of names with their
inode and type. They are what their names say if a walk sees the whole directory and nothing else:
only the first entry may be deleted, the bytes behind the block end the walk, and a creation gets
an inode. Without an inode `__ext2_create_new_dir_entry` returns 0 and has changed the directory.
-/

namespace Balrog.DirNames

open Runs ByteMemory DirEntries DirChanges List

/-- Whether an entry is in use; a deleted one has inode zero. -/
def inUse (entry : DirEntry) : Bool := entry.inode ≠ 0

/-- The entries in use, in their order: name, inode and type. -/
def identities (entries : List DirEntry) : List (List UInt8 × Nat × Nat) :=
  (entries.filter inUse).map fun entry => (entry.name, entry.inode, entry.type)

/-- The names of the entries in use, in their order. -/
def names (entries : List DirEntry) : List (List UInt8) := (identities entries).map Prod.fst

/-- Only the first entry may be deleted, exactly the deleted entries have no type, and names occur
once. -/
structure Plain (entries : List DirEntry) : Prop where
  alive : ∀ entry ∈ entries.tail, entry.inode ≠ 0
  used : ∀ entry ∈ entries, entry.inode = 0 ↔ entry.type = 0
  unique : (names entries).Nodup

/-- The walk ends behind the block, and a creation gets an inode. -/
def Clean (_ : Bytes) (call : Call) : Prop :=
  Ends call.after 0 ∧
    match call with
    | .create _ _ inode _ => inode ≠ 0
    | .remove _ _ => True

/-- What an operation should do to a directory of one block with some entries. -/
def Effect (directory : Bytes) (entries : List DirEntry) (call : Call) : Prop :=
  match call with
  | .create filename type inode _ =>
    ((apply 4096 directory call).1 = 0 ∧
      ∀ probe < 4096, (apply 4096 directory call).2 probe = directory probe) ∨
    ((apply 4096 directory call).1 ≠ 0 ∧ filename ∉ names entries ∧
      ∃ after, WellFormed (apply 4096 directory call).2 4096 after ∧
        identities after = identities entries ++ [(filename, inode, type)])
  | .remove filename _ =>
    ∃ after, WellFormed (apply 4096 directory call).2 4096 after ∧
      identities after = (identities entries).filter (·.1 ≠ filename)

variable {entry previous : DirEntry} {front others entries rest entries' : List DirEntry}
  {after : Bytes} {call : Call}

section Identities

theorem identities_append (first second : List DirEntry) :
    identities (first ++ second) = identities first ++ identities second := by
  simp [identities]

theorem identities_cons (entry : DirEntry) (rest : List DirEntry) :
    identities (entry :: rest) = identities [entry] ++ identities rest :=
  identities_append [entry] rest

theorem identities_live (live : entry.inode ≠ 0) :
    identities [entry] = [(entry.name, entry.inode, entry.type)] := by
  simp [identities, inUse, live]

theorem identities_dead (dead : entry.inode = 0) : identities [entry] = [] := by
  simp [identities, inUse, dead]

theorem identities_size (entry : DirEntry) (size : Nat) :
    identities [{ entry with size := size }] = identities [entry] := by
  by_cases dead : entry.inode = 0 <;> simp [identities, inUse, dead]

variable {filename : List UInt8}

theorem mem_names :
    filename ∈ names entries ↔ ∃ entry ∈ entries, entry.inode ≠ 0 ∧ entry.name = filename := by
  simp [names, identities, inUse, and_assoc]

/-- Taking an entry in use out of a list whose names occur once. -/
theorem identities_without (live : entry.inode ≠ 0)
    (unique : (names (front ++ entry :: rest)).Nodup) :
    identities front ++ identities rest =
      (identities (front ++ entry :: rest)).filter (·.1 ≠ entry.name) := by
  rw [names, identities_append, identities_cons, identities_live live] at unique
  rw [identities_append, identities_cons, identities_live live]
  simp only [map_append, map_cons, map_nil, nodup_append, mem_append,
    mem_cons, not_mem_nil, or_false] at unique
  have others (identity : List UInt8 × Nat × Nat)
      (member : identity ∈ identities front ∨ identity ∈ identities rest) :
      identity.1 ≠ entry.name := by
    rcases member with inFront | inRest
    · exact unique.2.2 _ (mem_map_of_mem inFront) _ (.inl rfl)
    · exact fun same => unique.2.1.2.2 _ rfl _ (mem_map_of_mem inRest) same.symm
  have keepsFront : (identities front).filter (·.1 ≠ entry.name) = identities front :=
    filter_eq_self.mpr fun identity member => decide_eq_true (others identity (.inl member))
  have keepsRest : (identities rest).filter (·.1 ≠ entry.name) = identities rest :=
    filter_eq_self.mpr fun identity member => decide_eq_true (others identity (.inr member))
  rw [filter_append, filter_append, keepsFront, keepsRest]
  simp

end Identities

section Steps

variable {directory : Bytes}

/-- In a plain directory the name of an entry in use is found, and nothing else is. -/
theorem named_iff (formed : WellFormed directory 4096 entries) (plain : Plain entries)
    (member : entry ∈ entries) (filename : List UInt8) :
    isNamed filename entry = true ↔ entry.inode ≠ 0 ∧ entry.name = filename := by
  rw [isNamed_proper (formed.proper entry member).text, decide_eq_true_eq,
    Ne, ← plain.used entry member]

variable {filename : List UInt8}

theorem create_effect (formed : WellFormed directory 4096 entries) (plain : Plain entries)
    {type inode : Nat} (sensible : Sensible (.create filename type inode after))
    (ends : Ends after 0) (some : inode ≠ 0) :
    (apply 4096 directory (.create filename type inode after) =
      (0, buffer 4096 directory (.create filename type inode after))) ∨
    ((apply 4096 directory (.create filename type inode after)).1 = inode ∧
      filename ∉ names entries ∧
      ∃ entries', WellFormed (apply 4096 directory (.create filename type inode after)).2 4096
          entries' ∧ Plain entries' ∧
        identities entries' = identities entries ++ [(filename, inode, type)]) := by
  obtain ⟨text, isType, inodeSmall⟩ := sensible
  have buffered := buffer_formed formed (.create filename type inode after)
  have seen := buffered.visible plain.alive (buffer_ends ends)
  have typeSmall : type < 2 ^ 8 := by omega
  have typed : type ≠ 0 := by omega
  rcases create_outcome buffered seen filename type inode with same |
    ⟨front, last, rfl, goes, short, room, result⟩
  · exact .inl same
  · have result : apply 4096 directory (.create filename type inode after) = _ := result
    have missing : filename ∉ names (front ++ [last]) := by
      intro present
      obtain ⟨entry, member, live⟩ := mem_names.mp present
      have named := (named_iff formed plain member filename).mpr live
      rw [goes entry member] at named
      cases named
    have same : identities (front ++ shortened last ::
        ⟨inode, last.size - ext2DirEntrySize last.name.length, type, filename⟩ :: []) =
        identities (front ++ [last]) ++ [(filename, inode, type)] := by
      have added : identities [⟨inode, last.size - ext2DirEntrySize last.name.length, type,
          filename⟩] = [(filename, inode, type)] := identities_live some
      rw [identities_append, identities_cons, added, shortened, identities_size,
        identities_append, append_assoc]
    refine .inr ⟨congrArg Prod.fst result, missing, _, ?_, ⟨?_, ?_, ?_⟩, same⟩
    · rw [result]
      exact formed_split buffered room short text typeSmall inodeSmall
    · intro entry member
      cases front with
      | nil =>
        rw [mem_singleton.mp member]
        exact some
      | cons first others =>
        have alive := plain.alive
        simp only [cons_append, tail_cons, mem_append, mem_cons,
          not_mem_nil, or_false] at member alive
        rcases member with old | rfl | rfl
        · exact alive entry (.inl old)
        · exact alive last (.inr rfl)
        · exact some
    · intro entry member
      simp only [mem_append, mem_cons, not_mem_nil, or_false] at member
      rcases member with old | rfl | rfl
      · exact plain.used entry (by simp [old])
      · exact plain.used last (by simp)
      · exact ⟨fun dead => absurd dead some, fun untyped => absurd untyped typed⟩
    · rw [names, same, map_append]
      refine nodup_append.mpr ⟨plain.unique, by simp, fun name member other isOther => ?_⟩
      rintro rfl
      have isName : name = filename := mem_singleton.mp isOther
      rw [isName] at member
      exact missing member

/-- Names that are some of those before occur once. -/
theorem Plain.filtered (plain : Plain entries) (alive : ∀ entry ∈ entries'.tail, entry.inode ≠ 0)
    (used : ∀ entry ∈ entries', entry.inode = 0 ↔ entry.type = 0)
    (same : identities entries' = (identities entries).filter (·.1 ≠ filename)) :
    Plain entries' := by
  refine ⟨alive, used, ?_⟩
  rw [names, same]
  exact plain.unique.sublist (List.Sublist.map _ filter_sublist)

/-- An entry that takes over the room of the next one is still alone in being deleted. -/
theorem merged_alive
    (alive : ∀ other ∈ (front ++ previous :: entry :: others).tail, other.inode ≠ 0) :
    ∀ other ∈ (front ++ merged previous entry :: others).tail, other.inode ≠ 0 := by
  intro other member
  cases front with
  | nil => exact alive other (mem_cons_of_mem _ member)
  | cons first more =>
    simp only [cons_append, tail_cons, mem_append, mem_cons] at member alive
    rcases member with old | rfl | old
    · exact alive other (.inl old)
    · exact alive previous (.inr (.inl rfl))
    · exact alive other (.inr (.inr (.inr old)))

theorem merged_used
    (used : ∀ other ∈ front ++ previous :: entry :: others, other.inode = 0 ↔ other.type = 0) :
    ∀ other ∈ front ++ merged previous entry :: others, other.inode = 0 ↔ other.type = 0 := by
  intro other member
  simp only [mem_append, mem_cons] at member
  rcases member with old | rfl | old
  · exact used other (by simp [old])
  · exact used previous (by simp)
  · exact used other (by simp [old])

section

variable (formed : WellFormed directory 4096 entries)
include formed

/-- A removal takes exactly the name out. -/
theorem remove_effect (plain : Plain entries) (ends : Ends after 0) :
    ∃ entries', WellFormed (apply 4096 directory (.remove filename after)).2 4096 entries' ∧
      Plain entries' ∧ identities entries' = (identities entries).filter (·.1 ≠ filename) := by
  have buffered := buffer_formed formed (.remove filename after)
  have seen := buffered.visible plain.alive (buffer_ends ends)
  rcases remove_outcome buffered seen filename with ⟨goes, same⟩ |
    ⟨entry, others, rfl, named, result⟩ | ⟨front, previous, entry, others, rfl, named, result⟩
  · have same : apply 4096 directory (.remove filename after) = _ := same
    refine ⟨entries, by rw [same]; exact buffered, plain, ?_⟩
    rw [filter_eq_self.mpr]
    intro identity member
    refine decide_eq_true fun isName => ?_
    obtain ⟨entry, inside, live⟩ := mem_names.mp (mem_map.mpr ⟨identity, member, isName⟩)
    have named := (named_iff formed plain inside filename).mpr live
    rw [goes entry inside] at named
    cases named
  · have result : apply 4096 directory (.remove filename after) = _ := result
    obtain ⟨live, rfl⟩ := (named_iff formed plain mem_cons_self filename).mp named
    have dead : (emptied entry).inode = 0 := rfl
    have removed : identities [] ++ identities others = _ := identities_without live plain.unique
    have left : identities (emptied entry :: others) =
        (identities (entry :: others)).filter (·.1 ≠ entry.name) := by
      rw [identities_cons, identities_dead dead]
      exact removed
    refine ⟨emptied entry :: others, by rw [result]; exact formed_empty buffered,
      plain.filtered plain.alive ?_ left, left⟩
    exact forall_mem_cons.mpr ⟨⟨fun _ => rfl, fun _ => rfl⟩, (forall_mem_cons.mp plain.used).2⟩
  · have result : apply 4096 directory (.remove filename after) = _ := result
    obtain ⟨live, rfl⟩ := (named_iff formed plain (by simp) filename).mp named
    have total := layout_finish formed.layout
    have large := formed.large entry (by simp)
    have previousLarge := formed.large previous (by simp)
    simp only [span_append, span_cons] at total
    have inner : ∀ index ≤ 4096 / 4096, span front + previous.size ≠ 4096 * index := by
      intro index below
      omega
    have regroup : front ++ previous :: entry :: others =
        (front ++ [previous]) ++ entry :: others := by simp
    have left : identities (front ++ merged previous entry :: others) =
        (identities (front ++ previous :: entry :: others)).filter (·.1 ≠ entry.name) := by
      rw [regroup, ← identities_without live (regroup ▸ plain.unique), identities_append,
        identities_cons, merged, identities_size, identities_append, append_assoc]
    exact ⟨front ++ merged previous entry :: others,
      by rw [result]; exact formed_merge buffered (by omega) inner,
      plain.filtered (merged_alive plain.alive) (merged_used plain.used) left, left⟩

/-- Every operation of a clean run keeps a directory of one block plain. -/
theorem apply_plain (plain : Plain entries) (sensible : Sensible call)
    (clean : Clean directory call) :
    ∃ entries', WellFormed (apply 4096 directory call).2 4096 entries' ∧ Plain entries' := by
  cases call with
  | create filename type inode after =>
    rcases create_effect formed plain sensible clean.1 clean.2 with same |
      ⟨_, _, entries', formed', plain', _⟩
    · rw [same]
      exact ⟨entries, buffer_formed formed _, plain⟩
    · exact ⟨entries', formed', plain'⟩
  | remove filename after =>
    obtain ⟨entries', formed', plain', _⟩ := remove_effect formed plain clean.1
    exact ⟨entries', formed', plain'⟩

theorem apply_effect (plain : Plain entries) (sensible : Sensible call)
    (clean : Clean directory call) : Effect directory entries call := by
  cases call with
  | create filename type inode after =>
    rcases create_effect formed plain sensible clean.1 clean.2 with same |
      ⟨returned, missing, entries', formed', _, identity⟩
    · refine .inl ?_
      rw [same]
      exact ⟨rfl, fun probe below => if_pos below⟩
    · exact .inr ⟨fun zero => clean.2 (returned.symm.trans zero), missing, entries', formed',
        identity⟩
  | remove filename after =>
    obtain ⟨entries', formed', _, identity⟩ := remove_effect formed plain clean.1
    exact ⟨entries', formed', identity⟩

end

end Steps

/-- Over any clean run the entries fill the block, names stay unique, and every operation adds or
removes exactly its name. -/
theorem names_kept (directory : Bytes) (reached : Reachable (machine 4096 Plain Clean) directory) :
    ∃ entries, WellFormed directory 4096 entries ∧ (names entries).Nodup ∧
      ∀ call, Sensible call → Clean directory call → Effect directory entries call := by
  have obligation : Inductive (machine 4096 Plain Clean)
      (fun directory => ∃ entries, WellFormed directory 4096 entries ∧ Plain entries) :=
    { starts := fun directory starts => starts
      preserved := by
        rintro directory call ⟨entries, formed, plain⟩ ⟨sensible, clean⟩
        exact ⟨_, rfl, apply_plain formed plain sensible clean⟩ }
  obtain ⟨entries, formed, plain⟩ := obligation.holds reached
  exact ⟨entries, formed, plain.unique, fun call => apply_effect formed plain⟩

theorem formed_new : WellFormed (bufferOf newDirectory []) 4096 newEntries :=
  formed_one (by decide +kernel) newEntries_proper

theorem plain_new : Plain newEntries := ⟨by decide, by decide, by decide⟩

/-- Creating a file in a new directory. -/
theorem names_kept_new :
    (apply 4096 (bufferOf newDirectory []) (.create [97] 1 14 fun _ => 0)).1 = 14 ∧
    ∃ entries, WellFormed
        (apply 4096 (bufferOf newDirectory []) (.create [97] 1 14 fun _ => 0)).2 4096 entries ∧
      (names entries).Nodup ∧
      ∀ call, Sensible call →
        Clean (apply 4096 (bufferOf newDirectory []) (.create [97] 1 14 fun _ => 0)).2 call →
        Effect (apply 4096 (bufferOf newDirectory []) (.create [97] 1 14 fun _ => 0)).2 entries
          call := by
  have starts : Reachable (machine 4096 Plain Clean) (bufferOf newDirectory []) :=
    .initial ⟨_, formed_new, plain_new⟩
  exact ⟨by decide +kernel, names_kept _ (starts.call (.create [97] 1 14 fun _ => 0)
    ⟨⟨by decide, .inl rfl, by decide⟩, .inl rfl, (by decide : (14 : Nat) ≠ 0)⟩ rfl)⟩

/-- Without a free inode a creation fails and has changed the directory: the entry of the parent has
lost the room behind its name. -/
theorem failed_creation : ∃ directory entries call, WellFormed directory 4096 entries ∧
    Plain entries ∧ Sensible call ∧ Ends call.after 0 ∧ ¬ Effect directory entries call := by
  refine ⟨bufferOf newDirectory [], newEntries, .create [97] 1 0 fun _ => 0, formed_new, plain_new,
    ⟨by decide, .inl rfl, by decide⟩, .inl rfl, ?_⟩
  rintro (⟨_, same⟩ | ⟨some, _⟩)
  · have byte := same 16 (by decide)
    revert byte
    decide +kernel
  · revert some
    decide +kernel

end Balrog.DirNames
