import Balrog.Ext2Inodes

/-!
# Reading a file

`__ext2_read_file` reads the blocks of an inode one after another into a buffer. It passes over
pointers that are 0 without moving on in the buffer, so the bytes behind a hole end up where the
hole should be. It knows direct and single indirect pointers only, and takes an indirect block for
1024 pointers: a smaller block leaves the rest of the array as it was, and a larger one does not
fit into the array.

How much is written depends on the pointers, and how large the buffer is on the size of the inode.
`__ext2_find_file` and the other functions that look into directories allocate the size rounded up
in 32 bits, and `ext2_open` gets whole pages. An inode with more blocks than its size needs
overflows both.

The array for the pointers is on the stack; `stack` is what it holds before. Allocations succeed.
-/

namespace Balrog.Ext2Files

open ByteMemory Ext2Volume Ext2Inodes List

/-- How an operation ends: with 0, with another result, or not at all, because the array on the
stack is overrun. -/
inductive Outcome where
  | done
  | failed
  | smashed
deriving DecidableEq, Repr

/-- The device, the buffer into which blocks are read, and how far it is filled. -/
structure Progress where
  device : Device
  buffer : Bytes
  position : Nat

/-- The sector of a block, as `uint32_t`. -/
def sectorOf (fs : FsData) (number : Nat) : Nat := number * fs.secPerBlock % 2 ^ 32

/-- The loops over pointers: whether all blocks were read, and what has been done. -/
def readBlocks (fs : FsData) : List Nat → Progress → Bool × Progress
  | [], progress => (true, progress)
  | number :: rest, progress =>
    if number = 0 then readBlocks fs rest progress
    else
      match progress.device.read (sectorOf fs number) fs.secPerBlock with
      | (none, device) => (false, { progress with device := device })
      | (some data, device) =>
        readBlocks fs rest
          { device := device
            buffer := splice progress.buffer progress.position (512 * fs.secPerBlock) data
            position := progress.position + 512 * fs.secPerBlock }

/-- The twelve direct block numbers of an inode. -/
def direct (inode : Inode) : List Nat := (List.range 12).map inode.dbp

/-- The pointers in the array after a block was read into it. -/
def indirect (fs : FsData) (stack data : Bytes) : List Nat :=
  (List.range 1024).map fun index => load 4 (splice stack 0 (512 * fs.secPerBlock) data) (4 * index)

/-- `__ext2_read_file` -/
def readFile (volume : Volume) (stack : Bytes) (buffer : Bytes) (inode : Inode) :
    Outcome × Progress :=
  let first := readBlocks volume.fs (direct inode) ⟨volume.device, buffer, 0⟩
  if first.1 = false then (.failed, first.2)
  else if inode.sibp = 0 then (.done, first.2)
  else
    match first.2.device.read (sectorOf volume.fs inode.sibp) volume.fs.secPerBlock with
    | (none, device) => (.failed, { first.2 with device := device })
    | (some data, device) =>
      if 8 < volume.fs.secPerBlock then (.smashed, { first.2 with device := device })
      else
        let second := readBlocks volume.fs (indirect volume.fs stack data)
          { first.2 with device := device }
        (if second.1 then .done else .failed, second.2)

/-- The size of the buffer for a directory: `size + (4096 - (size % 4096))` -/
def lookupSize (size : Nat) : Nat := (size + (4096 - size % 4096)) % 2 ^ 32

/-- The pages that `fs_cache_get_new_buffer` maps for a file, in bytes. -/
def openSize (size : Nat) : Nat := ((if size = 0 then 4096 else size) + 4095) / 4096 * 4096

section Format

variable (disk : Bytes) (fs : FsData)

/-- A pointer in a block of pointers; there is none in a missing block. -/
def pointerIn (number index : Nat) : Nat :=
  if number = 0 then 0 else load 4 disk (number * fs.blockSize + 4 * index)

/-- The pointer to a block of a file, through as many levels as it takes. -/
def blockOf (inode : Inode) (index : Nat) : Nat :=
  let per := fs.blockSize / 4
  if index < 12 then inode.dbp index
  else if index - 12 < per then pointerIn disk fs inode.sibp (index - 12)
  else if index - 12 - per < per * per then
    let rest := index - 12 - per
    pointerIn disk fs (pointerIn disk fs inode.dibp (rest / per)) (rest % per)
  else
    let rest := index - 12 - per - per * per
    pointerIn disk fs (pointerIn disk fs (pointerIn disk fs inode.tibp (rest / (per * per)))
      (rest / per % per)) (rest % per)

/-- A byte of a file; a hole has zeros. -/
def fileByte (inode : Inode) (place : Nat) : UInt8 :=
  let number := blockOf disk fs inode (place / fs.blockSize)
  if number = 0 then 0 else disk (number * fs.blockSize + place % fs.blockSize)

/-- The number of blocks that the size of a file asks for. -/
def blockCount (inode : Inode) : Nat := (inode.size + fs.blockSize - 1) / fs.blockSize

end Format

/-- A file without holes that has only direct and single indirect blocks, whose sectors have numbers
of 32 bits. -/
structure Dense (volume : Volume) (inode : Inode) : Prop where
  present : ∀ index < blockCount volume.fs inode,
    blockOf volume.device.disk volume.fs inode index ≠ 0
  short : blockCount volume.fs inode ≤ 12 + volume.fs.blockSize / 4
  sectors : ∀ index < blockCount volume.fs inode,
    blockOf volume.device.disk volume.fs inode index * volume.fs.secPerBlock < 2 ^ 32
  single : 12 < blockCount volume.fs inode → inode.sibp * volume.fs.secPerBlock < 2 ^ 32

section Loops

variable {fs : FsData}

/-- What the loop over pointers has done to the buffer when it ends. -/
structure Filled (fs : FsData) (numbers : List Nat) (before after : Progress) : Prop where
  disk : after.device.disk = before.device.disk
  position : after.position = before.position + 512 * fs.secPerBlock * numbers.length
  earlier : ∀ probe < before.position, after.buffer probe = before.buffer probe
  blocks : ∀ index number, numbers[index]? = some number → ∀ offset < 512 * fs.secPerBlock,
    after.buffer (before.position + 512 * fs.secPerBlock * index + offset) =
      before.device.disk (512 * sectorOf fs number + offset)

/-- The loop puts the blocks of the pointers that are not 0 one behind the other. -/
theorem readBlocks_filled (fs : FsData) (numbers : List Nat) (progress : Progress)
    (success : (readBlocks fs numbers progress).1 = true) :
    Filled fs (numbers.filter (· ≠ 0)) progress (readBlocks fs numbers progress).2 := by
  induction numbers generalizing progress with
  | nil => exact ⟨rfl, by simp [readBlocks], fun _ _ => rfl, by simp⟩
  | cons number rest ih =>
    rw [readBlocks] at success ⊢
    by_cases isZero : number = 0
    · rw [if_pos isZero] at success ⊢
      rw [filter_cons_of_neg (by simp [isZero])]
      exact ih progress success
    · rw [if_neg isZero, Device.read] at success ⊢
      rw [filter_cons_of_pos (by simp [isZero])]
      by_cases readable : progress.device.reads (sectorOf fs number) fs.secPerBlock = true
      · simp only [readable, if_true] at success ⊢
        obtain ⟨disk, position, earlier, blocks⟩ := ih _ success
        simp only at disk position earlier blocks
        refine ⟨disk, ?_, fun probe before => ?_, fun index other isOther offset below => ?_⟩
        · rw [position, length_cons, Nat.mul_add, Nat.mul_one]
          omega
        · rw [earlier probe (by omega), splice_outside (.inl before)]
        · cases index with
          | zero =>
            obtain rfl := Option.some.inj isOther
            rw [Nat.mul_zero, Nat.add_zero, earlier _ (by omega), splice_inside _ _ _ below]
          | succ index =>
            have later := blocks index other isOther offset below
            rw [Nat.mul_add, Nat.mul_one]
            rw [show progress.position + (512 * fs.secPerBlock * index + 512 * fs.secPerBlock) +
              offset = progress.position + 512 * fs.secPerBlock + 512 * fs.secPerBlock * index +
                offset by omega]
            exact later
      · simp [readable] at success

/-- A sector number that fits 32 bits does not wrap around. -/
theorem sectorOf_eq {number : Nat} (sectors : number * fs.secPerBlock < 2 ^ 32) :
    sectorOf fs number = number * fs.secPerBlock := Nat.mod_eq_of_lt sectors

end Loops

section Walks

variable (volume : Volume) (stack : Bytes) (inode : Inode) {State : Type}

/-- The device after the single indirect block was asked for. -/
def askSingle (device : Device) : Device :=
  (device.read (sectorOf volume.fs inode.sibp) volume.fs.secPerBlock).2

/-- How a function ends that goes over the blocks of an inode: `run` goes over pointers, first over
the direct ones, then over those of the single indirect block. `view` and `put` access the device
of a state. -/
inductive Walk (view : State → Device) (put : State → Device → State)
    (run : List Nat → State → Bool × State) (start : State) : Outcome → State → Prop where
  | cut {first : State} (ran : run (direct inode) start = (false, first)) :
    Walk view put run start .failed first
  | short {first : State} (ran : run (direct inode) start = (true, first))
    (none : inode.sibp = 0) : Walk view put run start .done first
  | stopped {first : State} {outcome : Outcome} (ran : run (direct inode) start = (true, first))
    (single : inode.sibp ≠ 0)
    (stops : outcome = .smashed ∨ outcome = .failed ∧
      ¬ (view first).reads (sectorOf volume.fs inode.sibp) volume.fs.secPerBlock = true) :
    Walk view put run start outcome (put first (askSingle volume inode (view first)))
  | whole {first last : State} {done : Bool} {outcome : Outcome}
    (ran : run (direct inode) start = (true, first)) (single : inode.sibp ≠ 0)
    (readable : (view first).reads (sectorOf volume.fs inode.sibp) volume.fs.secPerBlock = true)
    (again : run (indirect volume.fs stack fun offset =>
        (view first).disk (512 * sectorOf volume.fs inode.sibp + offset))
      (put first (askSingle volume inode (view first))) = (done, last))
    (ends : outcome = if done then .done else .failed) : Walk view put run start outcome last

/-- Reading a file is a walk over its blocks. -/
theorem readFile_walk (buffer : Bytes) :
    Walk volume stack inode Progress.device (fun state device => { state with device := device })
      (readBlocks volume.fs) ⟨volume.device, buffer, 0⟩ (readFile volume stack buffer inode).1
      (readFile volume stack buffer inode).2 := by
  rw [readFile]
  generalize ran : readBlocks volume.fs (direct inode) ⟨volume.device, buffer, 0⟩ = first
  obtain ⟨read, first⟩ := first
  cases read with
  | false => exact .cut ran
  | true =>
    simp only [Bool.true_eq_false, if_false]
    by_cases single : inode.sibp = 0
    · simp only [if_pos single]
      exact .short ran single
    · simp only [if_neg single, Device.read]
      by_cases readable :
          first.device.reads (sectorOf volume.fs inode.sibp) volume.fs.secPerBlock = true
      · simp only [if_pos readable]
        split
        · exact .stopped ran single (.inl rfl)
        · generalize again : readBlocks volume.fs (indirect volume.fs stack _) _ = second
          exact .whole ran single readable again rfl
      · simp only [if_neg readable]
        exact .stopped ran single (.inr ⟨rfl, readable⟩)

variable {volume stack inode}

/-- What `run` and reading a block keep is kept. -/
theorem Walk.keeps {view : State → Device} {put : State → Device → State}
    {run : List Nat → State → Bool × State} {start last : State} {outcome : Outcome}
    (walk : Walk volume stack inode view put run start outcome last) {keep : Device → Prop}
    (puts : ∀ state device, view (put state device) = device)
    (reads : ∀ device, keep device → keep (askSingle volume inode device))
    (runs : ∀ numbers state, keep (view state) → keep (view (run numbers state).2))
    (starts : keep (view start)) : keep (view last) := by
  have early := runs (direct inode) start starts
  cases walk with
  | cut ran | short ran =>
    rw [ran] at early
    exact early
  | stopped ran =>
    rw [ran] at early
    rw [puts]
    exact reads _ early
  | @whole first _ _ _ ran _ _ again =>
    rw [ran] at early
    have asked := reads _ early
    rw [← puts first (askSingle volume inode _)] at asked
    rw [show last = (run _ _).2 from (congrArg Prod.snd again).symm]
    exact runs _ _ asked

end Walks

section Files

variable {volume : Volume} {inode : Inode} {index : Nat}

/-- The numbers in the indirect block are those on the disk. -/
theorem indirect_pointer {fs : FsData} (stack disk : Bytes) (number : Nat)
    (inside : index < 1024) (sectors : 4 * index + 4 ≤ 512 * fs.secPerBlock) :
    (indirect fs stack fun offset => disk (512 * number + offset))[index]? =
      some (load 4 disk (512 * number + 4 * index)) := by
  simp only [indirect, getElem?_map, getElem?_range inside, Option.map_some, Option.some.injEq]
  rw [← load_window 4 disk (512 * number) (4 * index)]
  refine load_congr _ _ _ _ fun probe lower upper => ?_
  have there := splice_inside stack 0 (fun offset => disk (512 * number + offset))
    (show probe < 512 * fs.secPerBlock by omega)
  rwa [Nat.zero_add] at there

/-- The numbers before the first missing one stay in place. -/
theorem filter_leading {numbers : List Nat} {index : Nat}
    (present : ∀ lower ≤ index, ∃ number, numbers[lower]? = some number ∧ number ≠ 0) :
    (numbers.filter (· ≠ 0))[index]? = numbers[index]? := by
  induction numbers generalizing index with
  | nil => simp
  | cons number rest ih =>
    obtain ⟨first, isFirst, nonzero⟩ := present 0 (Nat.zero_le _)
    have isNumber : number = first := Option.some.inj isFirst
    rw [filter_cons_of_pos (by simp [isNumber, nonzero])]
    cases index with
    | zero => rfl
    | succ index =>
      rw [getElem?_cons_succ, getElem?_cons_succ]
      refine ih (fun lower below => ?_)
      exact present (lower + 1) (Nat.succ_le_succ below)

/-- A byte of a block of the file that the loop has put in its place. -/
theorem filled_byte {numbers : List Nat} {before after : Progress}
    (accepted : Accepted volume.fs) (dense : Dense volume inode)
    (filled : Filled volume.fs (numbers.filter (· ≠ 0)) before after)
    (disk : before.device.disk = volume.device.disk) {first index : Nat}
    (inFile : first + index < blockCount volume.fs inode)
    (leading : ∀ lower ≤ index, numbers[lower]? =
      some (blockOf volume.device.disk volume.fs inode (first + lower)))
    {offset : Nat} (inBlock : offset < volume.fs.blockSize) :
    after.buffer (before.position + volume.fs.blockSize * index + offset) =
      volume.device.disk (blockOf volume.device.disk volume.fs inode (first + index) *
        volume.fs.blockSize + offset) := by
  have whole := accepted.whole
  have found : (numbers.filter (· ≠ 0))[index]? =
      some (blockOf volume.device.disk volume.fs inode (first + index)) := by
    rw [filter_leading, leading index (Nat.le_refl _)]
    exact fun lower below => ⟨_, leading lower below, dense.present _ (by omega)⟩
  have byte := filled.blocks index _ found offset (by omega)
  rw [sectorOf_eq (dense.sectors _ inFile), disk] at byte
  rw [whole, byte, Nat.mul_left_comm]

/-- A read that succeeds has filled the buffer from the direct blocks and then the indirect ones. -/
theorem readFile_done {stack buffer : Bytes}
    (success : (readFile volume stack buffer inode).1 = .done) :
    ∃ first, Filled volume.fs ((direct inode).filter (· ≠ 0)) ⟨volume.device, buffer, 0⟩ first ∧
      (inode.sibp = 0 ∧ (readFile volume stack buffer inode).2 = first ∨
        inode.sibp ≠ 0 ∧ ∃ before : Progress, before.device.disk = volume.device.disk ∧
          before.buffer = first.buffer ∧ before.position = first.position ∧
          Filled volume.fs
            ((indirect volume.fs stack fun offset => volume.device.disk
              (512 * sectorOf volume.fs inode.sibp + offset)).filter (· ≠ 0)) before
            (readFile volume stack buffer inode).2) := by
  have walk := readFile_walk volume stack inode buffer
  have filled := readBlocks_filled volume.fs (direct inode) ⟨volume.device, buffer, 0⟩
  rw [success] at walk
  generalize (readFile volume stack buffer inode).2 = last at walk ⊢
  cases walk with
  | short ran none =>
    rw [ran] at filled
    exact ⟨_, filled rfl, .inl ⟨none, rfl⟩⟩
  | stopped _ _ stops => simp at stops
  | @whole first _ done _ ran single _ again ends =>
    rw [ran] at filled
    have disk : first.device.disk = volume.device.disk := (filled rfl).disk
    cases done with
    | false => simp at ends
    | true =>
      rw [disk] at again
      have second := readBlocks_filled volume.fs _ _ (congrArg Prod.fst again)
      rw [again] at second
      refine ⟨first, filled rfl, .inr ⟨single, _, ?_, ?_, ?_, second⟩⟩
      · exact disk
      · rfl
      · rfl

theorem block_inside (sized : 0 < volume.fs.blockSize) {place : Nat} (inside : place < inode.size) :
    place / volume.fs.blockSize < blockCount volume.fs inode := by
  have below := Nat.div_mul_le_self place volume.fs.blockSize
  refine (Nat.le_div_iff_mul_le sized).mpr ?_
  rw [Nat.succ_mul]
  omega

/-- The direct pointers of a file are its first blocks. -/
theorem direct_leading (disk : Bytes) (fs : FsData) (inode : Inode) (isDirect : index < 12) :
    ∀ lower ≤ index, (direct inode)[lower]? =
      some (blockOf disk fs inode (0 + lower)) := by
  intro lower below
  have small : 0 + lower < 12 := by omega
  rw [blockOf, if_pos small, Nat.zero_add]
  simp [direct, show lower < 12 by omega]

/-- Behind the direct blocks come those of the single indirect block. -/
theorem blockOf_single (disk : Bytes) {fs : FsData} (inode : Inode)
    (below : index < fs.blockSize / 4) :
    blockOf disk fs inode (12 + index) = pointerIn disk fs inode.sibp index := by
  simp only [blockOf]
  rw [if_neg (by omega), if_pos (by omega), Nat.add_sub_cancel_left]

/-- A single indirect block that is read whole fits into its array. -/
theorem readFile_array {stack buffer : Bytes}
    (success : (readFile volume stack buffer inode).1 = .done) (single : inode.sibp ≠ 0) :
    volume.fs.secPerBlock ≤ 8 := by
  rw [readFile] at success
  simp only [if_neg single] at success
  split at success
  · cases success
  · split at success
    · cases success
    · split at success
      · cases success
      · omega

/-- The pointers in the single indirect block of a file are its next blocks. -/
theorem indirect_leading (stack : Bytes) (accepted : Accepted volume.fs)
    (reached : inode.sibp * volume.fs.secPerBlock < 2 ^ 32) (single : inode.sibp ≠ 0)
    (array : volume.fs.secPerBlock ≤ 8) (inside : index < volume.fs.blockSize / 4) :
    ∀ lower ≤ index, (indirect volume.fs stack fun offset =>
        volume.device.disk (512 * sectorOf volume.fs inode.sibp + offset))[lower]? =
      some (blockOf volume.device.disk volume.fs inode (12 + lower)) := by
  intro lower below
  have whole := accepted.whole
  rw [indirect_pointer _ _ _ (by omega) (by omega), blockOf_single _ inode (by omega), pointerIn,
    if_neg single, sectorOf_eq reached, whole, Nat.mul_left_comm]

/-- A file with more than the direct blocks has all of them. -/
theorem direct_full (dense : Dense volume inode) (long : 12 < blockCount volume.fs inode) :
    (direct inode).filter (· ≠ 0) = direct inode := by
  refine filter_eq_self.mpr fun number member => decide_eq_true ?_
  obtain ⟨lower, below, rfl⟩ := mem_map.mp member
  have inDirect := mem_range.mp below
  have nonzero := dense.present lower (by omega)
  rwa [blockOf, if_pos inDirect] at nonzero

end Files

/-- A volume of 100 blocks of 4096 bytes. -/
def plainFs : FsData :=
  ⟨store 4 (store 4 (store 2 (store 4 (store 4 (fun _ => 0) 4 100) 24 2) 56 ext2Signature)
    1056 4096) 1060 8⟩

/-- Its device; the byte at an address is the number of its block. -/
def plainDevice : Device where
  disk probe := UInt8.ofNat (probe / 4096)
  reads _ _ := true
  writes _ _ := true
  log := []

/-- An inode with a size and two direct pointers. -/
def plainInode (size first second : Nat) : Inode :=
  ⟨store 4 (store 4 (store 4 (fun _ => 0) 4 size) 40 first) 44 second⟩

theorem plainFs_accepted : Accepted plainFs :=
  ⟨by decide +kernel, by decide +kernel, by decide +kernel⟩

/-- The pointers that `__ext2_read_file` goes through. -/
def visited (volume : Volume) (stack : Bytes) (inode : Inode) : List Nat :=
  direct inode ++ if inode.sibp = 0 then [] else
    indirect volume.fs stack fun offset =>
      volume.device.disk (512 * sectorOf volume.fs inode.sibp + offset)

/-- What is asked of a read: it stays inside the array for the pointers of the single indirect block,
and writes no more bytes than the buffer of either caller has. -/
def Fits (volume : Volume) (stack buffer : Bytes) (inode : Inode) : Prop :=
  (readFile volume stack buffer inode).1 ≠ .smashed ∧
  (∀ probe, (readFile volume stack buffer inode).2.position ≤ probe →
    (readFile volume stack buffer inode).2.buffer probe = buffer probe) ∧
  (readFile volume stack buffer inode).2.position ≤ lookupSize inode.size ∧
  (readFile volume stack buffer inode).2.position ≤ openSize inode.size

/-- A single indirect block has at most 4096 bytes, and the blocks of the pointers that are not 0 are
no more than the size of the inode makes room for. -/
structure Modest (volume : Volume) (stack : Bytes) (inode : Inode) : Prop where
  array : inode.sibp = 0 ∨ volume.fs.secPerBlock ≤ 8
  lookup : 512 * volume.fs.secPerBlock * ((visited volume stack inode).filter (· ≠ 0)).length ≤
    lookupSize inode.size
  opened : 512 * volume.fs.secPerBlock * ((visited volume stack inode).filter (· ≠ 0)).length ≤
    openSize inode.size

section Bounds

variable {volume : Volume} {inode : Inode}

/-- What a loop has written, also if it fails: the bytes up to its position, which has moved on by at
most a block for every pointer. -/
structure Bounded (fs : FsData) (numbers : List Nat) (before after : Progress) : Prop where
  disk : after.device.disk = before.device.disk
  moved : before.position ≤ after.position
  position : after.position ≤ before.position + 512 * fs.secPerBlock * numbers.length
  behind : ∀ probe, after.position ≤ probe → after.buffer probe = before.buffer probe

/-- The loop fills the buffer by no more than its blocks. -/
theorem readBlocks_bounded (fs : FsData) (numbers : List Nat) (progress : Progress) :
    Bounded fs (numbers.filter (· ≠ 0)) progress (readBlocks fs numbers progress).2 := by
  induction numbers generalizing progress with
  | nil => exact ⟨rfl, Nat.le_refl _, Nat.le_add_right _ _, fun _ _ => rfl⟩
  | cons number rest ih =>
    rw [readBlocks]
    by_cases isZero : number = 0
    · rw [if_pos isZero, filter_cons_of_neg (by simp [isZero])]
      exact ih progress
    · rw [if_neg isZero, Device.read, filter_cons_of_pos (by simp [isZero])]
      by_cases readable : progress.device.reads (sectorOf fs number) fs.secPerBlock = true
      · simp only [readable, if_true]
        generalize isNext : Progress.mk _ _ _ = next
        obtain ⟨disk, moved, position, behind⟩ := ih next
        subst isNext
        simp only at disk moved position behind
        refine ⟨disk, by omega, ?_, fun probe after => ?_⟩
        · rw [length_cons, Nat.mul_add, Nat.mul_one]
          omega
        · rw [behind probe after, splice_outside (.inr (by omega))]
      · simp only [readable]
        exact ⟨rfl, Nat.le_refl _, Nat.le_add_right _ _, fun _ _ => rfl⟩

/-- What `__ext2_read_file` has written, also if it fails. -/
theorem readFile_bounded (volume : Volume) (stack buffer : Bytes) (inode : Inode) :
    (∀ probe, (readFile volume stack buffer inode).2.position ≤ probe →
      (readFile volume stack buffer inode).2.buffer probe = buffer probe) ∧
    (readFile volume stack buffer inode).2.position ≤
      512 * volume.fs.secPerBlock * ((visited volume stack inode).filter (· ≠ 0)).length := by
  have walk := readFile_walk volume stack inode buffer
  have early := readBlocks_bounded volume.fs (direct inode) ⟨volume.device, buffer, 0⟩
  rw [visited, filter_append, length_append, Nat.mul_add]
  generalize (readFile volume stack buffer inode).1 = outcome at walk
  generalize (readFile volume stack buffer inode).2 = last at walk ⊢
  cases walk with
  | cut ran | short ran | stopped ran =>
    obtain ⟨_, _, position, behind⟩ := ran ▸ early
    rw [Nat.zero_add] at position
    exact ⟨behind, Nat.le_trans position (Nat.le_add_right _ _)⟩
  | @whole first _ _ _ ran single _ again =>
    obtain ⟨disk, _, position, behind⟩ := ran ▸ early
    rw [Nat.zero_add] at position
    rw [show first.device.disk = volume.device.disk from disk] at again
    obtain ⟨_, moved, later, behindOn⟩ := again ▸ readBlocks_bounded volume.fs _ _
    rw [if_neg single]
    refine ⟨fun probe after => ?_, Nat.le_trans later (Nat.add_le_add_right position _)⟩
    rw [behindOn probe after]
    exact behind probe (Nat.le_trans moved after)

/-- Two states of a device between which it was only read. -/
structure OnlyRead (before after : Device) : Prop where
  disk : after.disk = before.disk
  reads : after.reads = before.reads
  writes : after.writes = before.writes

theorem OnlyRead.trans {before between after : Device} (first : OnlyRead before between)
    (second : OnlyRead between after) : OnlyRead before after :=
  ⟨second.disk.trans first.disk, second.reads.trans first.reads,
    second.writes.trans first.writes⟩

theorem readBlocks_onlyRead (fs : FsData) (numbers : List Nat) (progress : Progress) :
    OnlyRead progress.device (readBlocks fs numbers progress).2.device := by
  induction numbers generalizing progress with
  | nil => exact ⟨rfl, rfl, rfl⟩
  | cons number rest ih =>
    have read : OnlyRead progress.device
        (progress.device.read (sectorOf fs number) fs.secPerBlock).2 := ⟨rfl, rfl, rfl⟩
    rw [readBlocks]
    generalize progress.device.read (sectorOf fs number) fs.secPerBlock = result at *
    obtain ⟨data, device⟩ := result
    split
    · exact ih progress
    · cases data with
      | none => exact read
      | some data =>
        exact read.trans (ih
          { device := device
            buffer := splice progress.buffer progress.position (512 * fs.secPerBlock) data
            position := progress.position + 512 * fs.secPerBlock })

/-- Reading a file writes nothing. -/
theorem readFile_onlyRead (volume : Volume) (stack buffer : Bytes) (inode : Inode) :
    OnlyRead volume.device (readFile volume stack buffer inode).2.device :=
  (readFile_walk volume stack inode buffer).keeps (fun _ _ => rfl)
    (fun _ only => only.trans ⟨rfl, rfl, rfl⟩)
    (fun numbers state only => only.trans (readBlocks_onlyRead volume.fs numbers state))
    ⟨rfl, rfl, rfl⟩

/-- On a device that answers for the sectors of all blocks, the loop comes to its end. -/
theorem readBlocks_reliable (fs : FsData) (numbers : List Nat) (progress : Progress)
    (reliable : ∀ number, progress.device.reads (sectorOf fs number) fs.secPerBlock = true) :
    (readBlocks fs numbers progress).1 = true := by
  induction numbers generalizing progress with
  | nil => rfl
  | cons number rest ih =>
    rw [readBlocks, Device.read]
    split
    · exact ih progress reliable
    · simp only [reliable, if_true]
      exact ih _ reliable

theorem readFile_reliable (volume : Volume) (stack buffer : Bytes) (inode : Inode)
    (reliable : ∀ number,
      volume.device.reads (sectorOf volume.fs number) volume.fs.secPerBlock = true) :
    (readFile volume stack buffer inode).1 =
      if inode.sibp ≠ 0 ∧ 8 < volume.fs.secPerBlock then .smashed else .done := by
  have first := readBlocks_reliable volume.fs (direct inode) ⟨volume.device, buffer, 0⟩ reliable
  have only := readBlocks_onlyRead volume.fs (direct inode) ⟨volume.device, buffer, 0⟩
  rw [readFile, first]
  simp only [Bool.true_eq_false, if_false]
  have still : ∀ number, (readBlocks volume.fs (direct inode) ⟨volume.device, buffer,
      0⟩).2.device.reads (sectorOf volume.fs number) volume.fs.secPerBlock = true := by
    intro number
    rw [only.reads]
    exact reliable number
  by_cases single : inode.sibp = 0
  · rw [if_pos single, if_neg fun both => both.1 single]
  · simp only [if_neg single, Device.read, still, if_true]
    by_cases large : 8 < volume.fs.secPerBlock
    · rw [if_pos large, if_pos ⟨single, large⟩]
    · have whole : ¬ (inode.sibp ≠ 0 ∧ 8 < volume.fs.secPerBlock) := fun both => large both.2
      rw [if_neg large, if_neg whole]
      simp only [ite_eq_left_iff]
      intro failed
      refine absurd (readBlocks_reliable _ _ _ ?_) failed
      exact still

/-- A single indirect block of at most 4096 bytes stays inside its array. -/
theorem readFile_unsmashed {volume : Volume} {stack buffer : Bytes} {inode : Inode}
    (array : inode.sibp = 0 ∨ volume.fs.secPerBlock ≤ 8) :
    (readFile volume stack buffer inode).1 ≠ .smashed := by
  simp only [readFile]
  split
  · exact nofun
  · split
    · exact nofun
    · next single =>
      split
      · exact nofun
      · rw [if_neg (Nat.not_lt.mpr (array.resolve_left single))]
        simp only
        split <;> exact nofun

/-- A read that is done has written the blocks of all pointers that are not 0. -/
theorem readFile_position {volume : Volume} {stack buffer : Bytes} {inode : Inode}
    (success : (readFile volume stack buffer inode).1 = .done) :
    (readFile volume stack buffer inode).2.position =
      512 * volume.fs.secPerBlock * ((visited volume stack inode).filter (· ≠ 0)).length := by
  obtain ⟨first, filled, ⟨none', same⟩ | ⟨single, before, _, _, isPosition, later⟩⟩ :=
    readFile_done success
  · rw [same, filled.position, visited, if_pos none', append_nil, Nat.zero_add]
  · rw [later.position, isPosition, filled.position, visited, if_neg single, filter_append,
      length_append, Nat.mul_add, Nat.zero_add]

/-- Whatever the device refuses, `__ext2_read_file` stays inside the buffers of its callers exactly
if the inode has no more blocks than these have room for. -/
theorem read_fits_iff (volume : Volume) (stack buffer : Bytes) (inode : Inode) :
    (∀ reads writes, Fits (withFaults volume reads writes) stack buffer inode) ↔
      Modest volume stack inode := by
  constructor
  · intro fits
    obtain ⟨whole, _, lookup, opened⟩ := fits (fun _ _ => true) (fun _ _ => true)
    have outcome := readFile_reliable (withFaults volume (fun _ _ => true) (fun _ _ => true)) stack
      buffer inode fun _ => rfl
    have array : ¬ (inode.sibp ≠ 0 ∧ 8 < volume.fs.secPerBlock) := by
      intro smashes
      exact whole (outcome.trans (if_pos smashes))
    have position := readFile_position (outcome.trans (if_neg array))
    rw [position] at lookup opened
    exact ⟨by omega, lookup, opened⟩
  · intro modest reads writes
    obtain ⟨behind, position⟩ := readFile_bounded (withFaults volume reads writes) stack buffer inode
    exact ⟨readFile_unsmashed modest.array, behind, Nat.le_trans position modest.lookup,
      Nat.le_trans position modest.opened⟩

/-- A file of one byte with one block. -/
theorem read_fits_byte : (readFile ⟨plainDevice, plainFs⟩ (fun _ => 1) (fun _ => 7)
    (plainInode 1 5 0)).2.position ≤ lookupSize 1 := by
  have size : (plainInode 1 5 0).size = 1 := by decide +kernel
  have fits := (read_fits_iff ⟨plainDevice, plainFs⟩ (fun _ => 1) (fun _ => 7)
    (plainInode 1 5 0)).mpr ⟨by decide +kernel, by decide +kernel, by decide +kernel⟩
    (fun _ _ => true) (fun _ _ => true)
  exact size ▸ fits.2.2.1

/-- An empty inode with two blocks: 8192 bytes are written to buffers of 4096. -/
theorem buffer_overrun : lookupSize (plainInode 0 5 6).size = 4096 ∧
    openSize (plainInode 0 5 6).size = 4096 ∧
    (readFile ⟨plainDevice, plainFs⟩ (fun _ => 1) (fun _ => 7) (plainInode 0 5 6)).2.position = 8192 ∧
    (readFile ⟨plainDevice, plainFs⟩ (fun _ => 1) (fun _ => 7) (plainInode 0 5 6)).2.buffer 8191 =
      6 :=
  ⟨by decide +kernel, by decide +kernel, by decide +kernel, by decide +kernel⟩

end Bounds

end Balrog.Ext2Files
