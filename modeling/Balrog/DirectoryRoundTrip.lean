import Balrog.Ext2Addresses

/-!
# Writing a directory and reading it back

`__ext2_update_dir_entry` and `__ext2_read_file` go through the pointers of an inode in the same
order and pass over those that are 0. If no two pointers name the same block, a buffer that was
written is read back as it was.

The array for the single indirect block has room for 4096 bytes. A block of 4096 bytes fills it.
With smaller blocks the rest of the array is whatever the stack held, and both functions follow it
as pointers: if it is not zero, the first one overwrites blocks that do not belong to the inode. The
sectors must
have numbers of 32 bits, and the single indirect block must not be one of the blocks of the
directory; otherwise distinct pointers may name the same bytes.
-/

namespace Balrog.DirectoryRoundTrip

open ByteMemory Ext2Volume Ext2Bitmaps Ext2Inodes Ext2Files Ext2Writes Ext2Addresses List

/-- Behind a block that is read into the array for pointers there are only zeros. A block of 4096
bytes leaves nothing behind it. -/
def Padded (fs : FsData) (stack : Bytes) : Prop :=
  ∀ index < 1024, 512 * fs.secPerBlock ≤ 4 * index → load 4 stack (4 * index) = 0

/-- The pointers that are not 0 name blocks of their own, in sectors that have numbers of 32 bits.
The single indirect block is none of them, and fills the arrays that it is read into, or what it
does not fill is zero. -/
structure Separate (volume : Volume) (stack other : Bytes) (inode : Inode) : Prop where
  distinct : ((visited volume stack inode).filter (· ≠ 0)).Nodup
  single : inode.sibp ∈ visited volume stack inode → inode.sibp = 0
  small : ∀ number ∈ pointers volume stack inode, number * volume.fs.secPerBlock < 2 ^ 32
  padded : inode.sibp ≠ 0 → Padded volume.fs stack ∧ Padded volume.fs other

/-- The blocks of the pointers hold the bytes of a buffer from a place on, one block after the
other. -/
def Holds (fs : FsData) (disk dir : Bytes) (position : Nat) (numbers : List Nat) : Prop :=
  ∀ index number, numbers[index]? = some number → ∀ offset < 512 * fs.secPerBlock,
    disk (512 * (number * fs.secPerBlock) + offset) =
      dir (position + 512 * fs.secPerBlock * index + offset)

section Writing

variable {fs : FsData} {dir : Bytes}

/-- Bytes of a block that is none of some others. -/
theorem beside_block {numbers : List Nat} {number : Nat} (absent : number ∉ numbers.filter (· ≠ 0))
    {offset : Nat} (inside : offset < 512 * fs.secPerBlock) :
    Beside fs numbers (512 * (number * fs.secPerBlock) + offset) := by
  intro other member nonzero
  refine blocks_apart ?_ inside
  rintro rfl
  exact absent (mem_filter.mpr ⟨member, decide_eq_true nonzero⟩)

/-- The loop over pointers writes the buffer to their blocks, one after the other. A later block is
not an earlier one, so what was written stays. -/
theorem writeDir_written (numbers : List Nat) (position : Nat) (device : Device)
    (small : ∀ number ∈ numbers, number * fs.secPerBlock < 2 ^ 32)
    (distinct : (numbers.filter (· ≠ 0)).Nodup)
    (success : (writeDir fs dir numbers position device).1 = true) :
    Holds fs (writeDir fs dir numbers position device).2.2.disk dir position
      (numbers.filter (· ≠ 0)) := by
  induction numbers generalizing position device with
  | nil => exact fun index number none => by simp at none
  | cons number rest ih =>
    obtain ⟨here, later⟩ := forall_mem_cons.mp small
    rw [writeDir] at success ⊢
    by_cases isZero : number = 0
    · rw [filter_cons_of_neg (by simp [isZero])] at distinct ⊢
      rw [if_pos isZero] at success ⊢
      exact ih position device later distinct success
    · rw [filter_cons_of_pos (by simp [isZero])] at distinct ⊢
      rw [nodup_cons] at distinct
      rw [if_neg isZero, sectorOf_exact here, Device.write] at success ⊢
      by_cases writable : device.writes (number * fs.secPerBlock) fs.secPerBlock = true
      · simp only [writable, if_true] at success ⊢
        intro index other isOther offset below
        cases index with
        | zero =>
          obtain rfl := Option.some.inj isOther
          rw [(writeDir_exact dir rest _ _ later).frame _ (beside_block distinct.1 below),
            Nat.mul_zero, Nat.add_zero]
          dsimp only
          rw [splice_inside _ _ _ below]
        | succ index =>
          rw [ih _ _ later distinct.2 success index other isOther offset below, Nat.mul_add,
            Nat.mul_one]
          congr 1
          omega
      · simp [writable] at success

/-- The loop goes on with more pointers. -/
theorem writeDir_append (numbers more : List Nat) (position : Nat) (device : Device)
    (done : (writeDir fs dir numbers position device).1 = true) :
    writeDir fs dir (numbers ++ more) position device =
      writeDir fs dir more (writeDir fs dir numbers position device).2.1
        (writeDir fs dir numbers position device).2.2 := by
  induction numbers generalizing position device with
  | nil => rfl
  | cons number rest ih =>
    rw [writeDir] at done
    rw [cons_append, writeDir, writeDir]
    by_cases isZero : number = 0
    · rw [if_pos isZero] at done
      rw [if_pos isZero, if_pos isZero]
      exact ih _ _ done
    · rw [if_neg isZero] at done
      rw [if_neg isZero, if_neg isZero]
      generalize device.write _ (sectorOf fs number) fs.secPerBlock = next at *
      obtain ⟨written, next⟩ := next
      cases written with
      | false => cases done
      | true => exact ih _ _ done

/-- Its result depends on the bytes and on which writes succeed. -/
theorem writeDir_same (numbers : List Nat) (position : Nat) {device other : Device}
    (disk : other.disk = device.disk) (writes : other.writes = device.writes) :
    (writeDir fs dir numbers position other).1 = (writeDir fs dir numbers position device).1 ∧
      (writeDir fs dir numbers position other).2.2.disk =
        (writeDir fs dir numbers position device).2.2.disk := by
  induction numbers generalizing position device other with
  | nil => exact ⟨rfl, disk⟩
  | cons number rest ih =>
    simp only [writeDir, Device.write, writes, disk]
    split
    · exact ih _ disk writes
    · by_cases writable : device.writes (sectorOf fs number) fs.secPerBlock = true
      · simp only [writable, if_true]
        exact ih _ rfl rfl
      · simp [writable]

end Writing

/-- What the functions take for pointers is the same for two stacks with zeros behind the block. -/
theorem indirect_padded {fs : FsData} {stack other : Bytes} (padded : Padded fs stack)
    (otherPadded : Padded fs other) (data : Bytes) :
    indirect fs stack data = indirect fs other data := by
  refine map_congr_left fun index member => ?_
  have below := mem_range.mp member
  by_cases inside : 4 * index < 512 * fs.secPerBlock
  · refine load_congr _ _ _ _ fun probe lower upper => ?_
    have inBlock : probe < 512 * fs.secPerBlock := by omega
    have first := splice_inside stack 0 data inBlock
    have second := splice_inside other 0 data inBlock
    rw [Nat.zero_add] at first second
    rw [first, second]
  · have behind (words : Bytes) : load 4 (splice words 0 (512 * fs.secPerBlock) data) (4 * index) =
        load 4 words (4 * index) :=
      load_congr _ _ _ _ fun probe lower upper => splice_outside (.inr (by omega))
    rw [behind, behind, padded index below (by omega), otherPadded index below (by omega)]

section RoundTrip

variable {volume : Volume} {stack other : Bytes} {inode : Inode}

/-- The pointers of the single indirect block, as the functions see them. -/
theorem visited_single (isSingle : inode.sibp ≠ 0) :
    visited volume stack inode = direct inode ++ indirect volume.fs stack fun offset =>
      volume.device.disk (512 * sectorOf volume.fs inode.sibp + offset) := by
  rw [visited, if_neg isSingle]

/-- `__ext2_update_dir_entry` that succeeds is one loop over the pointers. The single indirect block is
not one of the direct blocks, so its pointers are still those of the volume. -/
theorem updateDirEntry_loop (separate : Separate volume stack other inode) (dir : Bytes)
    (success : (updateDirEntry volume stack inode dir).1 = .done) :
    (writeDir volume.fs dir (visited volume stack inode) 0 volume.device).1 = true ∧
      (updateDirEntry volume stack inode dir).2.device.disk =
        (writeDir volume.fs dir (visited volume stack inode) 0 volume.device).2.2.disk := by
  obtain ⟨_, single, small, _⟩ := separate
  have append := fun more => @writeDir_append volume.fs dir (direct inode) more 0 volume.device
  obtain ⟨outcome, last, result, walk⟩ := updateDirEntry_walk volume stack inode dir
  rw [result] at success ⊢
  obtain rfl : outcome = .done := success
  cases walk with
  | short ran none =>
    have nothing := append [] (congrArg Prod.fst ran)
    rw [visited, if_pos none, nothing, ran]
    exact ⟨rfl, rfl⟩
  | stopped _ _ stops => simp at stops
  | @whole first _ done _ ran present _ again ends =>
    cases done with
    | false => simp at ends
    | true =>
      rw [visited_single present, append _ (congrArg Prod.fst ran)]
      have kept := direct_kept dir small
        (fun member => single (mem_append_left _ member)) present
      simp only at ran again
      rw [ran] at kept ⊢
      rw [indirect_congr _ _ kept] at again
      have same := @writeDir_same volume.fs dir (indirect volume.fs stack fun offset =>
          volume.device.disk (512 * sectorOf volume.fs inode.sibp + offset)) first.1 first.2
        (askSingle volume inode first.2) rfl rfl
      rw [again] at same
      simp only
      exact ⟨same.1.symm, same.2⟩

/-- `__ext2_update_dir_entry` that succeeds writes the buffer to the blocks of the inode, and leaves
every byte outside these blocks alone. -/
theorem updateDirEntry_written (separate : Separate volume stack other inode) (dir : Bytes)
    (success : (updateDirEntry volume stack inode dir).1 = .done) :
    Holds volume.fs (updateDirEntry volume stack inode dir).2.device.disk dir 0
        ((visited volume stack inode).filter (· ≠ 0)) ∧
      ∀ probe, Beside volume.fs (visited volume stack inode) probe →
        (updateDirEntry volume stack inode dir).2.device.disk probe = volume.device.disk probe := by
  have small : ∀ number ∈ visited volume stack inode, number * volume.fs.secPerBlock < 2 ^ 32 :=
    fun number member => separate.small number (mem_cons_of_mem _ member)
  obtain ⟨done, disk⟩ := updateDirEntry_loop separate dir success
  rw [disk]
  exact ⟨writeDir_written _ 0 _ small separate.distinct done,
    (writeDir_exact dir _ 0 volume.device small).frame⟩

/-- Two loops over pointers, one after the other. -/
theorem Filled.append {fs : FsData} {first second : List Nat} {before between next after : Progress}
    (one : Filled fs first before between) (two : Filled fs second next after)
    (disk : next.device.disk = between.device.disk) (buffer : next.buffer = between.buffer)
    (position : next.position = between.position) : Filled fs (first ++ second) before after := by
  refine ⟨two.disk.trans (disk.trans one.disk), ?_, fun probe early => ?_,
    fun index number isNumber offset below => ?_⟩
  · rw [two.position, position, one.position, length_append, Nat.mul_add, Nat.add_assoc]
  · rw [two.earlier probe (by rw [position, one.position]; omega), buffer, one.earlier probe early]
  · by_cases early : index < first.length
    · rw [getElem?_append_left early] at isNumber
      have next' := Nat.mul_le_mul_left (512 * fs.secPerBlock) (Nat.succ_le_of_lt early)
      rw [Nat.mul_succ] at next'
      rw [two.earlier _ (by rw [position, one.position]; omega), buffer]
      exact one.blocks index number isNumber offset below
    · rw [getElem?_append_right (Nat.le_of_not_lt early)] at isNumber
      have there := two.blocks _ number isNumber offset below
      rw [position, one.position, disk, one.disk, Nat.add_assoc before.position, ← Nat.mul_add,
        Nat.add_sub_cancel' (Nat.le_of_not_lt early)] at there
      exact there

/-- `__ext2_read_file` that succeeds fills the buffer with the blocks that it visits. -/
theorem readFile_visited {stack buffer : Bytes}
    (success : (readFile volume stack buffer inode).1 = .done) :
    Filled volume.fs ((visited volume stack inode).filter (· ≠ 0)) ⟨volume.device, buffer, 0⟩
      (readFile volume stack buffer inode).2 := by
  obtain ⟨first, filled, ⟨isZero, isFirst⟩ |
    ⟨isSingle, before, disk, sameBuffer, position, rest⟩⟩ := readFile_done success
  · rw [visited, if_pos isZero, append_nil, isFirst]
    exact filled
  · rw [visited_single isSingle, filter_append]
    exact Filled.append filled rest (disk.trans filled.disk.symm) sameBuffer position

/-- The pointers are the same after the directory was written. -/
theorem visited_written (separate : Separate volume stack other inode) (dir : Bytes)
    (success : (updateDirEntry volume stack inode dir).1 = .done) :
    visited (updateDirEntry volume stack inode dir).2 other inode =
      visited volume stack inode := by
  obtain ⟨_, frame⟩ := updateDirEntry_written separate dir success
  by_cases isZero : inode.sibp = 0
  · rw [visited, visited, if_pos isZero, if_pos isZero]
  · have same : (indirect volume.fs stack fun offset =>
        (updateDirEntry volume stack inode dir).2.device.disk
          (512 * sectorOf volume.fs inode.sibp + offset)) =
        indirect volume.fs stack fun offset =>
          volume.device.disk (512 * sectorOf volume.fs inode.sibp + offset) := by
      refine indirect_congr _ _ fun offset inside => ?_
      rw [sectorOf_exact (separate.small _ mem_cons_self)]
      refine frame _ (beside_block (fun member => isZero (separate.single ?_)) inside)
      exact (mem_filter.mp member).1
    obtain ⟨padded, otherPadded⟩ := separate.padded isZero
    rw [visited_single isZero, visited_single isZero, updateDirEntry_fs,
      indirect_padded otherPadded padded, same]

end RoundTrip

/-- A volume of blocks of 1024 bytes. -/
def smallFs : FsData :=
  ⟨store 4 (store 4 (store 2 (store 4 (fun _ => 0) 4 100) 56 ext2Signature) 1056 1024) 1060 2⟩

/-- An inode with a single indirect block and nothing else. -/
def singleInode (number : Nat) : Inode := ⟨store 4 (fun _ => 0) 88 number⟩

/-- A device without a byte that is set: there is no pointer in any block. -/
def emptyDevice : Device := { plainDevice with disk := fun _ => 0 }

/-- A stack that holds 7 in the word of the array behind a block of 1024 bytes. -/
def staleStack : Bytes := fun place => if place = 1024 then 7 else 0

end Balrog.DirectoryRoundTrip
