import Balrog.Ext2Writes

/-!
# The sectors of blocks

The number of a block is multiplied by the sectors of a block to give the first of its sectors. The
product has 32 bits: a number that is too large for the volume may give the sectors of another
block, which a device has no reason to reject.

The three functions that follow pointers are `__ext2_read_file`, `__ext2_update_dir_entry` and
`__ext2_update_file`. Without such products they access the blocks that the pointers name, and
nothing else but the bitmap, the counters and the inode.
-/

namespace Balrog.Ext2Addresses

open ByteMemory Ext2Volume Ext2Bitmaps Ext2Inodes Ext2Files Ext2Writes List

/-- The device accepts sectors up to a total only. -/
def Rejects (device : Device) (total : Nat) : Prop :=
  ∀ lba count, total < lba + count →
    device.reads lba count = false ∧ device.writes lba count = false

/-- The blocks of some pointers lie on the device. -/
def InRange (fs : FsData) (numbers : List Nat) (total : Nat) : Prop :=
  ∀ number ∈ numbers, number ≠ 0 → number * fs.secPerBlock + fs.secPerBlock ≤ total

/-- The device reads or writes the blocks with these numbers; zero stands for no block. -/
def Accepts (device : Device) (fs : FsData) (numbers : List Nat) : Prop :=
  ∀ number ∈ numbers, number ≠ 0 →
    device.reads (number * fs.secPerBlock) fs.secPerBlock = true ∨
      device.writes (number * fs.secPerBlock) fs.secPerBlock = true

/-- The pointers of an inode and of its single indirect block, as the operations know them. -/
def pointers (volume : Volume) (stack : Bytes) (inode : Inode) : List Nat :=
  inode.sibp :: visited volume stack inode

/-- Every block number that a file can have: its indirect block, and the blocks of its content. -/
def filePointers (filling : Filling) : List Nat :=
  filling.inode.sibp :: (List.range 1036).map (blockId filling)

/-- The indirect block and the blocks of the given places of the content. -/
def filePlaces (filling : Filling) (places : List Nat) : List Nat :=
  filling.inode.sibp :: places.map (blockId filling)

/-- The sectors of all blocks have numbers of 32 bits, also those of blocks that are given to the
file. The single indirect block is not a block of the directory as well. -/
structure Unwrapped (volume : Volume) (stack : Bytes) (inode : Inode) : Prop where
  pointers : ∀ number ∈ pointers volume stack inode, number * volume.fs.secPerBlock < 2 ^ 32
  fresh : 4096 * ((volume.fs.blocks / 8 + 511) / 512) * volume.fs.secPerBlock < 2 ^ 32
  single : inode.sibp ∈ direct inode → inode.sibp = 0

variable {device : Device}
  {size index total number first second offset origin factor id address : Nat}
  {places numbers : List Nat}

section Pointers

variable {fs : FsData}

/-- On a device that rejects sectors, accepted blocks are in range. -/
theorem Accepts.inRange (accepts : Accepts device fs numbers) (rejects : Rejects device total) :
    InRange fs numbers total := by
  intro number member nonzero
  refine Nat.le_of_not_lt fun beyond => ?_
  obtain ⟨noRead, noWrite⟩ := rejects _ _ beyond
  have accepted := accepts number member nonzero
  simp [noRead, noWrite] at accepted

/-- What a loop over pointers does to the device: it accesses their blocks, all of them if it
succeeds, and leaves other blocks alone. -/
structure Exact (fs : FsData) (numbers : List Nat) (before after : Device) (done : Bool) : Prop where
  logged : Logged (Addressed fs numbers) before after
  accepted : done = true → Accepts before fs numbers
  frame : ∀ probe, Beside fs numbers probe → after.disk probe = before.disk probe

section Loops

variable {before between after : Device} {done success : Bool} {more : List Nat}

theorem Exact.nil (device : Device) : Exact fs [] device device true :=
  ⟨.refl _ _, fun _ _ member => (not_mem_nil member).elim, fun _ _ => rfl⟩

theorem Exact.mono (exact' : Exact fs numbers before after done)
    (included : ∀ number ∈ numbers, number ∈ more)
    (covers : success = true → done = true ∧ ∀ number ∈ more, number ≠ 0 → number ∈ numbers) :
    Exact fs more before after success := by
  refine ⟨exact'.logged.mono fun _ => Addressed.mono included,
    fun succeeds number member nonzero => ?_,
    fun probe outside => exact'.frame probe fun number member =>
      outside number (included number member)⟩
  obtain ⟨isDone, all⟩ := covers succeeds
  exact exact'.accepted isDone number (all number member nonzero) nonzero

/-- Two groups of accesses after each other. -/
theorem Exact.trans (first : Exact fs numbers before between true)
    (second : Exact fs more between after done) : Exact fs (numbers ++ more) before after done := by
  refine ⟨(first.logged.mono fun _ => Addressed.mono fun _ => mem_append_left _).trans
      (second.logged.mono fun _ => Addressed.mono fun _ => mem_append_right _),
    fun isDone number member nonzero => ?_, fun probe outside => ?_⟩
  · rcases mem_append.mp member with early | late
    · exact first.accepted rfl number early nonzero
    · rw [← first.logged.reads, ← first.logged.writes]
      exact second.accepted isDone number late nonzero
  · obtain ⟨early, late⟩ := forall_mem_append.mp outside
    exact (second.frame probe late).trans (first.frame probe early)

/-- A pointer that is 0 is passed over. -/
theorem Exact.skip (isZero : number = 0) (later : Exact fs numbers before after done) :
    Exact fs (number :: numbers) before after done :=
  later.mono (fun _ => mem_cons_of_mem _) fun isDone =>
    ⟨isDone, fun _ member nonzero => mem_of_ne_of_mem (isZero ▸ nonzero) member⟩

theorem Exact.stop (first : Exact fs [number] before after done) :
    Exact fs (number :: numbers) before after false :=
  first.mono (fun _ member => mem_singleton.mp member ▸ mem_cons_self) fun failed => by cases failed

/-- A read accesses its block and no other. -/
theorem read_exact (device : Device) (nonzero : number ≠ 0) :
    Exact fs [number] device (device.read (number * fs.secPerBlock) fs.secPerBlock).2
      (device.reads (number * fs.secPerBlock) fs.secPerBlock) := by
  refine ⟨.read device ⟨number, mem_cons_self, nonzero, .inl rfl⟩, fun readable other member _ => ?_,
    fun _ _ => rfl⟩
  rw [mem_singleton.mp member]
  exact .inl readable

/-- A write accesses its block and no other. -/
theorem write_exact (device : Device) (data : Bytes) (nonzero : number ≠ 0) :
    Exact fs [number] device (device.write data (number * fs.secPerBlock) fs.secPerBlock).2
      (device.write data (number * fs.secPerBlock) fs.secPerBlock).1 := by
  refine ⟨.write device data ⟨number, mem_cons_self, nonzero, .inr rfl⟩,
    fun written other member _ => ?_,
    fun probe outside => device.write_outside data _ _ (outside number mem_cons_self nonzero)⟩
  rw [mem_singleton.mp member]
  exact .inr ((device.write_result data _ _).symm.trans written)

/-- The loop accesses the blocks that it is given and no others, up to the first that fails. -/
theorem readBlocks_exact (numbers : List Nat) (progress : Progress)
    (small : ∀ number ∈ numbers, number * fs.secPerBlock < 2 ^ 32) :
    Exact fs numbers progress.device (readBlocks fs numbers progress).2.device
      (readBlocks fs numbers progress).1 := by
  induction numbers generalizing progress with
  | nil => exact .nil _
  | cons number rest ih =>
    obtain ⟨here, later⟩ := forall_mem_cons.mp small
    rw [readBlocks]
    by_cases isZero : number = 0
    · rw [if_pos isZero]
      exact (ih progress later).skip isZero
    · have first := @read_exact _ fs progress.device isZero
      rw [if_neg isZero, sectorOf_exact here]
      rw [Device.read] at first ⊢
      by_cases readable : progress.device.reads (number * fs.secPerBlock) fs.secPerBlock = true
      · simp only [readable, if_true] at first ⊢
        exact first.trans (ih ⟨_, _, _⟩ later)
      · simp only [if_neg readable]
        exact first.stop

/-- So does the loop that writes a directory. -/
theorem writeDir_exact (dir : Bytes) (numbers : List Nat) (position : Nat) (device : Device)
    (small : ∀ number ∈ numbers, number * fs.secPerBlock < 2 ^ 32) :
    Exact fs numbers device (writeDir fs dir numbers position device).2.2
      (writeDir fs dir numbers position device).1 := by
  induction numbers generalizing position device with
  | nil => exact .nil _
  | cons number rest ih =>
    obtain ⟨here, later⟩ := forall_mem_cons.mp small
    rw [writeDir]
    by_cases isZero : number = 0
    · rw [if_pos isZero]
      exact (ih position device later).skip isZero
    · rw [if_neg isZero, sectorOf_exact here]
      have first := @write_exact _ fs device (fun offset => dir (position + offset)) isZero
      generalize device.write _ _ _ = next at *
      obtain ⟨done, next⟩ := next
      cases done with
      | false => exact first.stop
      | true => exact first.trans (ih _ next later)

/-- So does the loop that writes a file. -/
theorem writeBlocks_exact (buffer : Bytes) (blockId : Nat → Nat) (places : List Nat)
    (device : Device) (small : ∀ index ∈ places, blockId index * fs.secPerBlock < 2 ^ 32) :
    Exact fs (places.map blockId) device (writeBlocks fs buffer blockId places device).2
      (writeBlocks fs buffer blockId places device).1 := by
  induction places generalizing device with
  | nil => exact .nil _
  | cons index rest ih =>
    obtain ⟨here, later⟩ := forall_mem_cons.mp small
    rw [writeBlocks, map_cons]
    by_cases isZero : blockId index = 0
    · rw [if_pos isZero]
      exact (ih device later).skip isZero
    · rw [if_neg isZero, sectorOf_exact here]
      have first := @write_exact _ fs device (fun offset => buffer (4096 * index + offset)) isZero
      generalize device.write _ _ _ = next at *
      obtain ⟨done, next⟩ := next
      cases done with
      | false => exact first.stop
      | true => exact first.trans (ih next later)

end Loops

end Pointers

section Operations

variable {volume : Volume} {stack : Bytes} {inode : Inode}

theorem direct_pointers (member : number ∈ direct inode) : number ∈ pointers volume stack inode :=
  mem_cons_of_mem _ (mem_append_left _ member)

/-- The pointers in the single indirect block are pointers, if there is one. -/
theorem indirect_pointers (single : inode.sibp ≠ 0) {number : Nat}
    (member : number ∈ indirect volume.fs stack fun offset =>
      volume.device.disk (512 * sectorOf volume.fs inode.sibp + offset)) :
    number ∈ pointers volume stack inode := by
  refine mem_cons_of_mem _ (mem_append_right _ ?_)
  rw [if_neg single]
  exact member

/-- The pointers that are read depend on the bytes of the block only. -/
theorem indirect_congr (fs : FsData) (stack : Bytes) {data other : Bytes}
    (same : ∀ offset < 512 * fs.secPerBlock, data offset = other offset) :
    indirect fs stack data = indirect fs stack other := by
  have array : splice stack 0 (512 * fs.secPerBlock) data =
      splice stack 0 (512 * fs.secPerBlock) other := by
    funext probe
    simp only [splice]
    split
    · exact same _ (by omega)
    · rfl
  rw [indirect, indirect, array]

/-- Two blocks share no byte. -/
theorem blocks_apart (different : first ≠ second) (inside : offset < 512 * size) :
    512 * (second * size) + offset < 512 * (first * size) ∨
      512 * (first * size) + 512 * size ≤ 512 * (second * size) + offset := by
  rcases Nat.lt_or_gt_of_ne different with below | above
  · have next := Nat.mul_le_mul_right size (Nat.succ_le_of_lt below)
    rw [Nat.succ_mul] at next
    omega
  · have next := Nat.mul_le_mul_right size (Nat.succ_le_of_lt above)
    rw [Nat.succ_mul] at next
    omega

/-- A walk over the blocks of an inode is a loop over all pointers, if the single indirect block is
still what it was when it is read. -/
theorem walk_exact {State : Type} {view : State → Device} {put : State → Device → State}
    {run : List Nat → State → Bool × State} {start last : State} {outcome : Outcome}
    (walk : Walk volume stack inode view put run start outcome last)
    (small : ∀ number ∈ pointers volume stack inode, number * volume.fs.secPerBlock < 2 ^ 32)
    (puts : ∀ state device, view (put state device) = device) (starts : view start = volume.device)
    (runs : ∀ numbers state, (∀ number ∈ numbers, number * volume.fs.secPerBlock < 2 ^ 32) →
      Exact volume.fs numbers (view state) (view (run numbers state).2) (run numbers state).1)
    (same : inode.sibp ≠ 0 → ∀ offset < 512 * volume.fs.secPerBlock,
      (view (run (direct inode) start).2).disk (512 * sectorOf volume.fs inode.sibp + offset) =
        volume.device.disk (512 * sectorOf volume.fs inode.sibp + offset)) :
    Exact volume.fs (pointers volume stack inode) volume.device (view last)
      (decide (outcome = .done)) := by
  have early := runs (direct inode) start fun number member => small number (direct_pointers member)
  rw [starts] at early
  cases walk with
  | cut ran =>
    rw [ran] at early
    exact early.mono (fun _ => direct_pointers) fun done => by cases done
  | short ran none =>
    rw [ran] at early
    refine early.mono (fun _ => direct_pointers) fun _ => ⟨rfl, fun number member nonzero => ?_⟩
    simpa [pointers, visited, none, nonzero] using member
  | stopped ran single stops =>
    rw [ran] at early
    rw [puts, askSingle, sectorOf_exact (small _ mem_cons_self)]
    refine (early.trans (read_exact _ single)).mono (fun number member => ?_) fun done => ?_
    · rcases mem_append.mp member with member | member
      · exact direct_pointers member
      · exact mem_singleton.mp member ▸ mem_cons_self
    · rcases stops with rfl | ⟨rfl, _⟩
      · cases done
      · cases done
  | @whole first _ isDone _ ran single readable again ends =>
    rw [ran] at early same
    rw [indirect_congr _ _ (same single)] at again
    have later := runs (indirect volume.fs stack fun offset =>
        volume.device.disk (512 * sectorOf volume.fs inode.sibp + offset))
      (put first (askSingle volume inode (view first)))
      fun number member => small number (indirect_pointers single member)
    rw [again, puts] at later
    rw [sectorOf_exact (small _ mem_cons_self)] at readable
    have asked := @read_exact _ volume.fs (view first) single
    rw [readable, ← sectorOf_exact (small _ mem_cons_self)] at asked
    refine ((early.trans asked).trans later).mono (fun number member => ?_) fun done => ?_
    · simpa [pointers, visited, single, or_assoc, or_left_comm] using member
    · refine ⟨?_, fun number member _ => ?_⟩
      · by_contra failed
        simp [ends, failed] at done
      · simpa [pointers, visited, single, or_assoc, or_left_comm] using member

/-- `__ext2_read_file` accesses the blocks of the pointers, all of them if it succeeds. -/
theorem readFile_exact (buffer : Bytes)
    (small : ∀ number ∈ pointers volume stack inode, number * volume.fs.secPerBlock < 2 ^ 32) :
    Exact volume.fs (pointers volume stack inode) volume.device
      (readFile volume stack buffer inode).2.device
      (decide ((readFile volume stack buffer inode).1 = .done)) :=
  walk_exact (readFile_walk volume stack inode buffer) small (fun _ _ => rfl) rfl readBlocks_exact
    fun _ _ _ => congrFun (readBlocks_bounded volume.fs (direct inode) _).disk _

section

variable (dir : Bytes)
  (small : ∀ number ∈ pointers volume stack inode, number * volume.fs.secPerBlock < 2 ^ 32)
  (apart : inode.sibp ∈ direct inode → inode.sibp = 0)
include small apart

/-- Writing the direct blocks leaves the single indirect block alone, which is none of them. -/
theorem direct_kept (single : inode.sibp ≠ 0) (offset : Nat)
    (inside : offset < 512 * volume.fs.secPerBlock) :
    (writeDir volume.fs dir (direct inode) 0 volume.device).2.2.disk
        (512 * sectorOf volume.fs inode.sibp + offset) =
      volume.device.disk (512 * sectorOf volume.fs inode.sibp + offset) := by
  rw [sectorOf_exact (small _ mem_cons_self)]
  refine (writeDir_exact dir (direct inode) 0 volume.device fun number member =>
    small number (direct_pointers member)).frame _ fun number member _ => blocks_apart ?_ inside
  exact fun same => single (apart (same ▸ member))

/-- `__ext2_update_dir_entry` accesses the blocks of the pointers, all of them if it succeeds, and
leaves every byte outside them alone. -/
theorem updateDirEntry_exact :
    Exact volume.fs (pointers volume stack inode) volume.device
      (updateDirEntry volume stack inode dir).2.device
      (decide ((updateDirEntry volume stack inode dir).1 = .done)) := by
  obtain ⟨outcome, last, result, walk⟩ := updateDirEntry_walk volume stack inode dir
  rw [result]
  change Exact _ _ _ last.2 _
  exact walk_exact walk small (fun _ _ => rfl) rfl
    (fun numbers state => writeDir_exact dir numbers state.1 state.2) (direct_kept dir small apart)

end

end Operations

section Allocation

variable {fs : FsData}

/-- The pointers of a file that is being given blocks are small enough. -/
structure Ready (fs : FsData) (sibp : Nat) (filling : Filling) : Prop where
  geometry : Geometry fs filling.volume.fs
  single : filling.inode.sibp = sibp
  direct : ∀ index < 12, load 4 filling.inode.bytes (40 + 4 * index) * fs.secPerBlock < 2 ^ 32
  words : ∀ index < 1024, load 4 filling.buf (0 + 4 * index) * fs.secPerBlock < 2 ^ 32

/-- A small number in the place of a pointer keeps pointers small. -/
theorem small_store {bytes : Bytes}
    (small : ∀ index < size, load 4 bytes (origin + 4 * index) * factor < 2 ^ 32)
    (idSmall : id * factor < 2 ^ 32) (place : Nat) :
    ∀ index < size, load 4 (store 4 bytes (origin + 4 * place) id) (origin + 4 * index) * factor <
      2 ^ 32 := by
  intro index inside
  by_cases same : index = place
  · rw [same, load_store_same]
    exact Nat.lt_of_le_of_lt (Nat.mul_le_mul_right _ (Nat.mod_le _ _)) idSmall
  · rw [load_store_apart (by omega)]
    exact small index inside

/-- An allocated block number does not make its sector wrap around. -/
theorem allocated_small {volume : Volume} (geometry : Geometry fs volume.fs)
    (fresh : 4096 * ((fs.blocks / 8 + 511) / 512) * fs.secPerBlock < 2 ^ 32) (mapIdxStart : Nat) :
    (findFree .block mapIdxStart volume).1 * fs.secPerBlock < 2 ^ 32 := by
  have bounded := (findFree_logged mapIdxStart volume 0).2.2
  rw [geometry.blocks] at bounded
  exact Nat.lt_of_le_of_lt (Nat.mul_le_mul_right _ bounded) fresh

variable {sibp : Nat} {filling : Filling}

/-- Giving a place its block keeps the file ready for the writes. -/
theorem fillOne_ready (inodeIdx : Nat) (ready : Ready fs sibp filling)
    (fresh : 4096 * ((fs.blocks / 8 + 511) / 512) * fs.secPerBlock < 2 ^ 32) {index : Nat}
    (inside : index < 1036) :
    Ready fs sibp (fillOne filling index) ∧
    Logged (Bookkeeping fs inodeIdx) filling.volume.device
      (fillOne filling index).volume.device := by
  obtain ⟨geometry, single, direct, words⟩ := ready
  have small := allocated_small geometry fresh 0
  obtain ⟨logged, kept, _⟩ := findFree_logged 0 filling.volume inodeIdx
  replace logged := logged.mono fun access => (geometry.bookkeeping access).mp
  replace kept := geometry.trans kept
  have unchanged : Ready fs sibp filling ∧
      Logged (Bookkeeping fs inodeIdx) filling.volume.device filling.volume.device :=
    ⟨⟨geometry, single, direct, words⟩, .refl _ _⟩
  simp only [fillOne, findFreeBlocks]
  split
  · next isDirect =>
    split
    · refine ⟨⟨kept, ?_, small_store direct small index, words⟩, logged⟩
      rw [← single]
      exact load_store_apart (by omega)
    · exact unchanged
  · split
    · split
      · have stored := small_store words small (index - 12)
        simp only [Nat.zero_add] at stored
        refine ⟨⟨kept, single, direct, ?_⟩, logged⟩
        simpa only [Nat.zero_add] using stored
      · exact unchanged
    · exact unchanged

/-- The whole loop; the induction is on the places that are left. -/
theorem fill_ready (inodeIdx : Nat)
    (fresh : 4096 * ((fs.blocks / 8 + 511) / 512) * fs.secPerBlock < 2 ^ 32) (places : List Nat)
    (inside : ∀ index ∈ places, index < 1036) (ready : Ready fs sibp filling) :
    Ready fs sibp (places.foldl fillOne filling) ∧
    Logged (Bookkeeping fs inodeIdx) filling.volume.device
      (places.foldl fillOne filling).volume.device := by
  induction places generalizing filling with
  | nil => exact ⟨ready, .refl _ _⟩
  | cons index rest ih =>
    obtain ⟨here, later⟩ := forall_mem_cons.mp inside
    obtain ⟨next, first⟩ := fillOne_ready inodeIdx ready fresh here
    obtain ⟨last, second⟩ := ih later next
    exact ⟨last, first.trans second⟩

end Allocation

section Updates

variable {volume : Volume} {stack : Bytes} {inode : Inode}

theorem grown_load (inode : Inode) (offset len width : Nat) (behind : 8 ≤ address) :
    load width (grown inode offset len).bytes address = load width inode.bytes address := by
  rw [grown]
  split
  · exact load_store_apart (.inl behind)
  · rfl

/-- The pointers that the array gets are those that another array would get, or 0. -/
theorem indirect_zeros (fs : FsData) (stack data : Bytes) (index : Nat) :
    load 4 (splice (fun _ => 0) 0 (512 * fs.secPerBlock) data) (4 * index) =
        load 4 (splice stack 0 (512 * fs.secPerBlock) data) (4 * index) ∨
      load 4 (splice (fun _ => 0) 0 (512 * fs.secPerBlock) data) (4 * index) = 0 := by
  by_cases inside : 4 * index < 512 * fs.secPerBlock
  · refine .inl (load_congr _ _ _ _ fun probe lower upper => ?_)
    rw [splice, splice, if_pos (by omega), if_pos (by omega)]
  · refine .inr (Eq.trans (load_congr 4 _ (fun _ => 0) _ fun probe lower upper => ?_) (by rfl))
    rw [splice, if_neg (by omega)]

/-- The array for the single indirect block starts with small pointers. -/
theorem loadIndirect_ready (inodeIdx : Nat) (volume : Volume) (stack : Bytes) (inode : Inode)
    (small : ∀ number ∈ pointers volume stack inode, number * volume.fs.secPerBlock < 2 ^ 32)
    (fresh : 4096 * ((volume.fs.blocks / 8 + 511) / 512) * volume.fs.secPerBlock < 2 ^ 32) :
    ∃ sibp, sibp * volume.fs.secPerBlock < 2 ^ 32 ∧
      Ready volume.fs sibp (loadIndirect volume inode).2 ∧
      Logged (fun access => Bookkeeping volume.fs inodeIdx access ∨
        Addressed volume.fs [sibp] access) volume.device
          (loadIndirect volume inode).2.volume.device := by
  have direct : ∀ index < 12, load 4 inode.bytes (40 + 4 * index) * volume.fs.secPerBlock <
      2 ^ 32 := fun index inside =>
    small _ (direct_pointers (mem_map.mpr ⟨index, mem_range.mpr inside, rfl⟩))
  have zeros : ∀ index < 1024, load 4 (fun _ => 0) (0 + 4 * index) * volume.fs.secPerBlock <
      2 ^ 32 := by
    intro index _
    have zero : load 4 (fun _ => 0) (0 + 4 * index) = 0 := rfl
    rw [zero, Nat.zero_mul]
    decide
  have geometry := Geometry.refl volume.fs
  simp only [loadIndirect]
  split
  · obtain ⟨logged, kept, _⟩ := findFree_logged (volume.fs.blocks / 8 / 2) volume inodeIdx
    have idSmall := allocated_small geometry fresh (volume.fs.blocks / 8 / 2)
    refine ⟨(findHigherHalfFreeBlocks volume).1 % 256 ^ 4, ?_, ⟨kept, ?_, ?_, zeros⟩,
      logged.mono fun _ => .inl⟩
    · exact Nat.lt_of_le_of_lt (Nat.mul_le_mul_right _ (Nat.mod_le _ _)) idSmall
    · exact load_store_same _ _ _ _
    · intro index inside
      rw [load_store_apart (by omega)]
      exact direct index inside
  · split
    · exact ⟨inode.sibp, small _ mem_cons_self, ⟨geometry, rfl, direct, zeros⟩, .refl _ _⟩
    · next isZero =>
      have isSingle := sectorOf_exact (small inode.sibp mem_cons_self)
      have members := @indirect_pointers volume stack inode isZero
      have read := Logged.read volume.device
        (show Addressed volume.fs [inode.sibp]
          (.read (sectorOf volume.fs inode.sibp) volume.fs.secPerBlock) from
            ⟨inode.sibp, mem_cons_self, isZero, .inl (by rw [isSingle])⟩)
      have content := @Device.read_some volume.device (sectorOf volume.fs inode.sibp)
        volume.fs.secPerBlock
      generalize volume.device.read _ _ = next at *
      obtain ⟨data, next⟩ := next
      replace read := read.mono fun access addressed =>
        show Bookkeeping volume.fs inodeIdx access ∨ Addressed volume.fs [inode.sibp] access from
          .inr addressed
      refine ⟨inode.sibp, small _ mem_cons_self, ?_⟩
      cases data with
      | none => exact ⟨⟨geometry, rfl, direct, zeros⟩, read⟩
      | some data =>
        obtain ⟨_, isData⟩ := content rfl
        simp only
        split
        · exact ⟨⟨geometry, rfl, direct, zeros⟩, read⟩
        · refine ⟨⟨geometry, rfl, direct, fun index inside => ?_⟩, read⟩
          rw [Nat.zero_add]
          rcases indirect_zeros volume.fs stack data index with same | zero
          · refine small _ (members (isData ▸ ?_))
            rw [same]
            exact mem_map.mpr ⟨index, mem_range.mpr inside, rfl⟩
          · rw [zero, Nat.zero_mul]
            decide

/-- A new size leaves the block numbers of the inode alone. -/
theorem pointers_grown (volume : Volume) (stack : Bytes) (inode : Inode) (offset len : Nat) :
    pointers volume stack (grown inode offset len) = pointers volume stack inode := by
  have single : (grown inode offset len).sibp = inode.sibp :=
    grown_load inode offset len 4 (by decide)
  have same : direct (grown inode offset len) = direct inode :=
    map_congr_left fun index _ => grown_load inode offset len 4 (by omega)
  rw [pointers, pointers, visited, visited, same, single]

/-- When every place has a block, all pointers are small, and only the single indirect block has
been accessed. -/
theorem prepare_ready (inodeIdx : Nat) (unwrapped : Unwrapped volume stack inode)
    (offset len : Nat) :
    ∃ sibp, sibp * volume.fs.secPerBlock < 2 ^ 32 ∧
      Ready volume.fs sibp (prepare volume inode offset len).2 ∧
      Logged (fun access => Bookkeeping volume.fs inodeIdx access ∨
        Addressed volume.fs [sibp] access) volume.device
          (prepare volume inode offset len).2.volume.device := by
  obtain ⟨small, fresh, _⟩ := unwrapped
  rw [← pointers_grown volume stack inode offset len] at small
  obtain ⟨sibp, isSmall, ready, first⟩ := loadIndirect_ready inodeIdx volume stack _ small fresh
  refine ⟨sibp, isSmall, ?_⟩
  simp only [prepare]
  generalize loadIndirect volume (grown inode offset len) = loaded at *
  obtain ⟨outcome, filling⟩ := loaded
  cases outcome with
  | failed => exact ⟨ready, first⟩
  | smashed => exact ⟨ready, first⟩
  | done =>
    have inside : ∀ index ∈ List.range (needed (grown inode offset len)), index < 1036 := by
      intro index member
      have below := mem_range.mp member
      rw [needed] at below
      omega
    obtain ⟨last, second⟩ := fill_ready inodeIdx fresh _ inside ready
    exact ⟨last, first.trans (second.mono fun _ => .inl)⟩

variable {sibp : Nat} {filling : Filling}

variable {fs : FsData}

/-- The pointers to the places of a file are small. -/
theorem Ready.blockId_small (ready : Ready fs sibp filling) (inside : index < 1036) :
    blockId filling index * fs.secPerBlock < 2 ^ 32 := by
  rw [blockId]
  split
  · next isDirect => exact ready.direct index isDirect
  · have word := ready.words (index - 12) (by omega)
    rwa [Nat.zero_add] at word

theorem writeContent_logged (buffer : Bytes) (ready : Ready fs sibp filling) (inodeIdx : Nat)
    (inside : ∀ index ∈ places, index < 1036) :
    Logged (fun access =>
        Bookkeeping fs inodeIdx access ∨ Addressed fs (filePointers filling) access)
      filling.volume.device (writeContent filling buffer places inodeIdx).2.volume.device ∧
    ((writeContent filling buffer places inodeIdx).1 = .done →
      Accepts filling.volume.device fs (places.map (blockId filling))) := by
  obtain ⟨first, sameFs⟩ := updateInodeTable_logged filling.volume filling.inode inodeIdx
  have sectors : (updateInodeTable filling.volume inodeIdx filling.inode).2.fs.secPerBlock =
      fs.secPerBlock := by
    rw [sameFs]
    exact ready.geometry.sectors
  simp only [writeContent]
  generalize (updateInodeTable filling.volume inodeIdx filling.inode).2 = next at *
  obtain ⟨second, all, _⟩ := @writeBlocks_exact next.fs buffer (blockId filling) places next.device
    fun index member => sectors ▸ ready.blockId_small (inside index member)
  have addressed : ∀ access, Addressed next.fs (places.map (blockId filling)) access →
      Addressed fs (filePointers filling) access := by
    intro access found
    simp only [Addressed, sectors] at found
    refine Addressed.mono (fun number member => ?_) found
    obtain ⟨index, isPlace, rfl⟩ := mem_map.mp member
    exact mem_cons_of_mem _
      (mem_map.mpr ⟨index, mem_range.mpr (inside index isPlace), rfl⟩)
  constructor
  · have early := first.mono fun access found =>
      show Bookkeeping fs inodeIdx access ∨ Addressed fs (filePointers filling) access from
        .inl ((ready.geometry.bookkeeping access).mp found)
    exact early.trans (second.mono fun access found => .inr (addressed access found))
  · intro success
    have success : (writeBlocks next.fs buffer (blockId filling) places next.device).1 = true := by
      by_contra failed
      simp [failed] at success
    intro number member nonzero
    have accepted := all success number member nonzero
    rw [sectors, first.reads, first.writes] at accepted
    exact accepted

/-- The number of sectors is no pointer. -/
theorem Ready.sized (ready : Ready fs sibp filling) (device : Device) (sectors : Nat) :
    Ready fs sibp (setSectors { filling with volume := ⟨device, filling.volume.fs⟩ } sectors) := by
  obtain ⟨geometry, single, direct, words⟩ := ready
  refine ⟨geometry, ?_, fun index inside => ?_, words⟩
  · rw [← single]
    exact load_store_apart (by omega)
  · simp only [setSectors]
    rw [load_store_apart (by omega)]
    exact direct index inside

theorem blockId_sized (filling : Filling) (device : Device) (sectors : Nat) :
    blockId (setSectors { filling with volume := ⟨device, filling.volume.fs⟩ } sectors) =
      blockId filling := by
  funext index
  simp only [blockId]
  split
  · exact load_store_apart (by omega)
  · rfl

theorem filePointers_sized (filling : Filling) (device : Device) (sectors : Nat) :
    filePointers (setSectors { filling with volume := ⟨device, filling.volume.fs⟩ } sectors) =
      filePointers filling := by
  have single : (setSectors { filling with volume := ⟨device, filling.volume.fs⟩ }
      sectors).inode.sibp = filling.inode.sibp :=
    load_store_apart (by omega)
  rw [filePointers, filePointers, blockId_sized, single]

/-- The single indirect block, the inode and the blocks are written. -/
theorem writeBack_logged (stack buffer : Bytes) (ready : Ready fs sibp filling)
    (isSmall : sibp * fs.secPerBlock < 2 ^ 32) (count inodeIdx : Nat)
    (inside : ∀ index ∈ places, index < 1036) :
    Logged (fun access =>
        Bookkeeping fs inodeIdx access ∨ Addressed fs (filePointers filling) access)
      filling.volume.device
      (writeBack filling stack buffer count places inodeIdx).2.volume.device ∧
    ((writeBack filling stack buffer count places inodeIdx).1 = .done →
      Accepts filling.volume.device fs (filePlaces filling places)) := by
  have sectors := ready.geometry.sectors
  have content := fun device sectors =>
    writeContent_logged buffer (ready.sized device sectors) inodeIdx inside
  simp only [filePointers_sized, blockId_sized] at content
  simp only [writeBack]
  split
  · next isZero =>
    obtain ⟨logged, all⟩ :=
      content filling.volume.device (count * filling.volume.fs.secPerBlock)
    refine ⟨logged, fun success number member nonzero => ?_⟩
    rcases mem_cons.mp member with rfl | member
    · exact absurd isZero nonzero
    · exact all success number member nonzero
  · next nonzero =>
    have isSingle : sectorOf filling.volume.fs filling.inode.sibp =
        filling.inode.sibp * fs.secPerBlock := by
      rw [sectorOf, sectors, ready.single, Nat.mod_eq_of_lt isSmall]
    have first : Logged (fun access => Bookkeeping fs inodeIdx access ∨
        Addressed fs (filePointers filling) access) filling.volume.device
        (filling.volume.device.write (splice stack 0 4096 filling.buf)
          (sectorOf filling.volume.fs filling.inode.sibp) filling.volume.fs.secPerBlock).2 :=
      .write _ _ (.inr ⟨filling.inode.sibp, mem_cons_self, nonzero, .inr (by
        rw [isSingle, sectors])⟩)
    have result := filling.volume.device.write_result (splice stack 0 4096 filling.buf)
      (sectorOf filling.volume.fs filling.inode.sibp) filling.volume.fs.secPerBlock
    generalize filling.volume.device.write _ _ _ = next at *
    obtain ⟨done, next⟩ := next
    cases done with
    | false => exact ⟨first, by simp⟩
    | true =>
      obtain ⟨logged, all⟩ := content next
        (count * filling.volume.fs.secPerBlock + filling.volume.fs.secPerBlock)
      have sameReads : next.reads = filling.volume.device.reads := first.reads
      have sameWrites : next.writes = filling.volume.device.writes := first.writes
      refine ⟨first.trans logged, fun success number member nonzero => ?_⟩
      rcases mem_cons.mp member with rfl | member
      · rw [isSingle, sectors] at result
        exact .inr result.symm
      · have accepted := all success number member nonzero
        simp only [setSectors, sameReads, sameWrites] at accepted
        exact accepted

end Updates

/-- The three operations access the blocks that the pointers name, and the bookkeeping; and on a
device that rejects sectors, they only succeed if those blocks are on the device. -/
structure Follows (volume : Volume) (stack : Bytes) (inode : Inode) (total : Nat) : Prop where
  reads : ∀ buffer, Logged (Addressed volume.fs (pointers volume stack inode)) volume.device
        (readFile volume stack buffer inode).2.device ∧
      ((readFile volume stack buffer inode).1 = .done →
        InRange volume.fs (pointers volume stack inode) total)
  updates : ∀ dir, Logged (Addressed volume.fs (pointers volume stack inode)) volume.device
        (updateDirEntry volume stack inode dir).2.device ∧
      ((updateDirEntry volume stack inode dir).1 = .done →
        InRange volume.fs (pointers volume stack inode) total)
  writes : ∀ buffer offset len inodeIdx,
      Logged (fun access => Bookkeeping volume.fs inodeIdx access ∨
          Addressed volume.fs (filePointers (prepare volume inode offset len).2) access)
        volume.device (updateFile volume stack buffer offset len inode inodeIdx).2.volume.device ∧
      ((updateFile volume stack buffer offset len inode inodeIdx).1 = .done →
        InRange volume.fs (filePlaces (prepare volume inode offset len).2
          (written (grown inode offset len) offset len)) total)

theorem Unwrapped.follows {volume : Volume} {stack : Bytes} {inode : Inode}
    (unwrapped : Unwrapped volume stack inode) (rejects : Rejects volume.device total) :
    Follows volume stack inode total := by
  refine ⟨fun buffer => ?_, fun dir => ?_, fun buffer offset len inodeIdx => ?_⟩
  · obtain ⟨logged, all, _⟩ := readFile_exact buffer unwrapped.pointers
    exact ⟨logged, fun success => (all (decide_eq_true success)).inRange rejects⟩
  · obtain ⟨logged, all, _⟩ := updateDirEntry_exact dir unwrapped.pointers unwrapped.single
    exact ⟨logged, fun success => (all (decide_eq_true success)).inRange rejects⟩
  · obtain ⟨sibp, isSmall, ready, prepared⟩ := prepare_ready inodeIdx unwrapped offset len
    simp only [updateFile]
    generalize prepare volume inode offset len = result at *
    obtain ⟨outcome, filling⟩ := result
    have early := prepared.mono fun access found =>
      show Bookkeeping volume.fs inodeIdx access ∨
          Addressed volume.fs (filePointers filling) access from
        found.imp id (Addressed.mono fun number member => by
          rw [mem_singleton.mp member, ← ready.single]
          exact mem_cons_self)
    cases outcome with
    | failed => exact ⟨early, by simp⟩
    | smashed => exact ⟨early, by simp⟩
    | done =>
      have inside : ∀ index ∈ written (grown inode offset len) offset len, index < 1036 := by
        intro index member
        simp only [written, mem_range'_1, needed] at member
        omega
      obtain ⟨logged, all⟩ := writeBack_logged stack buffer ready isSmall
        (needed (grown inode offset len)) inodeIdx inside
      refine ⟨early.trans logged, fun success => Accepts.inRange ?_ rejects⟩
      have accepted := all success
      have sameReads : filling.volume.device.reads = volume.device.reads := prepared.reads
      have sameWrites : filling.volume.device.writes = volume.device.writes := prepared.writes
      simp only [Accepts, sameReads, sameWrites] at accepted
      exact accepted

/-- Whatever else the device refuses, if it rejects sectors from some number on, a read only succeeds
if all blocks of the inode are on the device. -/
def ReadsInRange (volume : Volume) (stack : Bytes) (inode : Inode) : Prop :=
  ∀ reads writes total buffer, Rejects (withFaults volume reads writes).device total →
    (readFile (withFaults volume reads writes) stack buffer inode).1 = .done →
      InRange volume.fs (pointers volume stack inode) total

/-- A device of little more than 2^32 sectors has no reason to reject a product that wraps, so the
read succeeds. -/
theorem small_of_readsInRange {volume : Volume} {stack : Bytes} {inode : Inode}
    (array : inode.sibp = 0 ∨ volume.fs.secPerBlock ≤ 8)
    (inRange : ReadsInRange volume stack inode) :
    ∀ number ∈ pointers volume stack inode, number * volume.fs.secPerBlock < 2 ^ 32 := by
  intro number member
  let answers : Nat → Nat → Bool := fun lba count =>
    decide (lba + count ≤ 2 ^ 32 - 1 + volume.fs.secPerBlock)
  have reliable : ∀ number, answers (sectorOf volume.fs number) volume.fs.secPerBlock = true := by
    intro number
    have small : sectorOf volume.fs number < 2 ^ 32 := Nat.mod_lt _ (by decide)
    exact decide_eq_true (by omega)
  have outcome := readFile_reliable (withFaults volume answers answers) stack (fun _ => 0) inode
    reliable
  have whole : ¬ (inode.sibp ≠ 0 ∧ 8 < volume.fs.secPerBlock) := by omega
  have there := inRange answers answers (2 ^ 32 - 1 + volume.fs.secPerBlock) (fun _ => 0)
    (fun lba count beyond => ⟨decide_eq_false (by omega), decide_eq_false (by omega)⟩)
    (outcome.trans (if_neg whole))
  by_cases isZero : number = 0
  · rw [isZero, Nat.zero_mul]
    decide
  · have onDevice := there number member isZero
    omega

/-- The device of the plain volume, which has 800 sectors and rejects others. -/
def boundedDevice : Device :=
  { plainDevice with
    reads := fun lba count => lba + count ≤ 800
    writes := fun lba count => lba + count ≤ 800 }

end Balrog.Ext2Addresses
