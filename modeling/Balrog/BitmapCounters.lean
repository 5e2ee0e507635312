import Balrog.BlockBitmap
import Balrog.Runs
import Mathlib.Data.List.Nodup

/-!
# Allocation and release in the two bitmaps of a volume

Blocks and inodes of a volume with one group have a bitmap each, and a free counter of 32 bits
in the superblock and one of 16 bits in the group descriptor. The functions for blocks and those
for inodes are the same up to the bitmap and the counters they use. Every call may find the
device failing anywhere.

The results speak about ids, which are positions plus one, and about the bitmaps as they are
stored, each in a block of its own. Counters are compared as machine integers of their width.
Left out: the copies of the counters on the device, which are in the superblock and the group
descriptor and so in no bitmap.
-/

namespace Balrog.BitmapCounters

open BlockBitmap Runs Function List

/-- The two bitmaps of a group: that of its blocks and that of its inodes. -/
inductive Kind where
  | block
  | inode
deriving DecidableEq, Repr

/-- The fields of `ext2_fs_data` that allocation uses, for both bitmaps. -/
structure Volume where
  device : Device
  blocks : Nat
  secPerBlock : Nat
  bitmap : Kind → Nat
  unalloc : Kind → Nat
  groupUnalloc : Kind → Nat

/-- How an allocation counts and searches; the search starts at a byte of the bitmap, and its
size is that of the block bitmap for both kinds. -/
def findFree (kind : Kind) (mapIdxStart : Nat) (volume : Volume) : Nat × Volume :=
  let (id, device) := findFreeBitmap volume.device (volume.blocks / 8) (volume.bitmap kind)
    volume.secPerBlock mapIdxStart
  if id ≠ 0 then
    (id, { volume with
      device := device
      unalloc := update volume.unalloc kind ((volume.unalloc kind + (2 ^ 32 - 1)) % 2 ^ 32)
      groupUnalloc := update volume.groupUnalloc kind
        ((volume.groupUnalloc kind + (2 ^ 16 - 1)) % 2 ^ 16) })
  else (id, { volume with device := device })

/-- `__ext2_find_free_blocks` -/
def findFreeBlocks (volume : Volume) : Nat × Volume := findFree .block 0 volume

/-- `__ext2_find_higher_half_free_blocks` -/
def findHigherHalfFreeBlocks (volume : Volume) : Nat × Volume :=
  findFree .block (volume.blocks / 8 / 2) volume

/-- `__ext2_find_free_inode` -/
def findFreeInode (volume : Volume) : Nat × Volume := findFree .inode 0 volume

/-- How a release clears a bit and counts; nothing stands for the result -1. -/
def freeAlloc (kind : Kind) (volume : Volume) (id : Nat) : Option Volume :=
  let position := (id + (2 ^ 32 - 1)) % 2 ^ 32
  let lba := volume.bitmap kind * volume.secPerBlock + position / 8 / 512
  let index := position / 8 % 512
  if volume.device.reads lba ∧ volume.device.writes lba then
    some { volume with
      device := volume.device.set lba index
        (volume.device.sector lba index &&& (0xff#8 ^^^ (1#8 <<< (position % 8))))
      unalloc := update volume.unalloc kind ((volume.unalloc kind + 1) % 2 ^ 32)
      groupUnalloc := update volume.groupUnalloc kind ((volume.groupUnalloc kind + 1) % 2 ^ 16) }
  else none

/-- `__ext2_free_alloc_block` -/
def freeAllocBlock (volume : Volume) (id : Nat) : Option Volume := freeAlloc .block volume id

/-- `__ext2_free_alloc_inode` -/
def freeAllocInode (volume : Volume) (id : Nat) : Option Volume := freeAlloc .inode volume id

/-- The volume as the block search sees it, with the number of its first data block. -/
def Volume.image (volume : Volume) (firstDataBlock : Nat) : Image where
  device := volume.device
  blocks := volume.blocks
  firstDataBlock := firstDataBlock
  unallocBlocks := volume.unalloc .block
  groupUnallocBlocks := volume.groupUnalloc .block
  bitmapBlock := volume.bitmap .block
  secPerBlock := volume.secPerBlock

/-- The volume has one group: a bitmap fits in its block, the two bitmaps are in different
blocks, and these are blocks of the volume. Blocks have at most 64 KiB, so that the sectors of a
bitmap have numbers of 32 bits. -/
structure SingleGroup (volume : Volume) : Prop where
  fits : volume.blocks ≤ 4096 * volume.secPerBlock
  sectors : volume.secPerBlock ≤ 128
  apart : volume.bitmap .block ≠ volume.bitmap .inode
  inside : ∀ kind, volume.bitmap kind < volume.blocks

/-- The bit at a position of one of the two bitmaps on the device. -/
def Volume.bit (volume : Volume) (kind : Kind) (position : Nat) : Bool :=
  volume.device.bit (volume.bitmap kind * volume.secPerBlock) position

/-- How many bits of a bitmap are clear, over the sectors of one block. -/
def Volume.clear (volume : Volume) (kind : Kind) : Nat :=
  (List.range (4096 * volume.secPerBlock)).countP fun position => !volume.bit kind position

/-- The device answers or fails at each sector. -/
def Volume.withFaults (volume : Volume) (reads writes : Nat → Bool) : Volume :=
  { volume with device := { volume.device with reads := reads, writes := writes } }

variable (device : Device)

variable {bit set lba probe place bound id : Nat} {byte : BitVec 8} {other kind : Kind}
  {value : Bool}

/-- Setting a bit of a byte leaves the others alone. -/
theorem or_bit (byte : BitVec 8) (sets : set < 8) (inside : bit < 8) :
    (byte ||| (1#8 <<< set)).getLsbD bit = (byte.getLsbD bit || decide (bit = set)) := by
  rw [BitVec.getLsbD_or, one_bit sets inside]

/-- Setting a clear bit and clearing it again gives the byte back. -/
theorem or_mask (inside : bit < 8) (clear : byte.getLsbD bit = false) :
    (byte ||| (1#8 <<< bit)) &&& (0xff#8 ^^^ (1#8 <<< bit)) = byte := by
  refine BitVec.eq_of_getLsbD_eq fun probe below => ?_
  rw [mask_bit _ inside below, or_bit byte inside below]
  by_cases same : probe = bit
  · simp [same, clear]
  · simp [same]

/-- The bits of a bitmap after one of its bytes has been written. -/
theorem set_bit (start place position : Nat) (byte : BitVec 8) :
    (device.set (start + place / 4096) (place / 8 % 512) byte).bit start position =
      if position / 8 = place / 8 then byte.getLsbD (position % 8)
      else device.bit start position := by
  simp only [Device.bit, Device.set]
  by_cases isSector : position / 4096 = place / 4096
  · rw [if_pos (by omega)]
    by_cases isByte : position / 8 = place / 8
    · rw [if_pos isByte, if_pos (by omega)]
    · rw [if_neg isByte, if_neg (by omega), isSector]
  · rw [if_neg (by omega), if_neg (by omega)]

variable {position : Nat}

/-- Two volumes with the same numbers of blocks and sectors and the same places of the bitmaps. -/
structure SameLayout (before after : Volume) : Prop where
  blocks : after.blocks = before.blocks
  sectors : after.secPerBlock = before.secPerBlock
  bitmap : after.bitmap = before.bitmap

theorem SameLayout.trans {first second third : Volume} (left : SameLayout first second)
    (right : SameLayout second third) : SameLayout first third :=
  ⟨right.blocks.trans left.blocks, right.sectors.trans left.sectors,
    right.bitmap.trans left.bitmap⟩

/-- One bit of one bitmap has been given a value. -/
structure Flipped (kind : Kind) (position : Nat) (value : Bool) (before after : Volume) : Prop where
  layout : SameLayout before after
  bits : ∀ other, ∀ probe < 4096 * before.secPerBlock,
    after.bit other probe =
      if other = kind ∧ probe = position then value else before.bit other probe

variable {volume : Volume}

/-- The two bitmaps have no sector in common. -/
theorem SingleGroup.sectors_apart (single : SingleGroup volume) (different : other ≠ kind)
    (inside : position < 4096 * volume.secPerBlock) (below : probe < 4096 * volume.secPerBlock) :
    volume.bitmap other * volume.secPerBlock + probe / 4096 ≠
      volume.bitmap kind * volume.secPerBlock + position / 4096 := by
  have apart : volume.bitmap other ≠ volume.bitmap kind := by
    have blockInode := single.apart
    cases kind <;> cases other
    · exact absurd rfl different
    · exact Ne.symm blockInode
    · exact blockInode
    · exact absurd rfl different
  have low : probe / 4096 < volume.secPerBlock := by omega
  have high : position / 4096 < volume.secPerBlock := by omega
  intro same
  have divided := congrArg (· / volume.secPerBlock) same
  simp only [Nat.mul_comm _ volume.secPerBlock] at divided
  rw [Nat.mul_add_div (by omega), Nat.mul_add_div (by omega), Nat.div_eq_of_lt low,
    Nat.div_eq_of_lt high] at divided
  exact apart divided

/-- Writing a byte in which one bit differs flips that bit of the bitmap and no other. -/
theorem flipped_of_set {after : Volume} (single : SingleGroup volume)
    (layout : SameLayout volume after) (inside : position < 4096 * volume.secPerBlock)
    (device : after.device = volume.device.set
      (volume.bitmap kind * volume.secPerBlock + position / 4096) (position / 8 % 512) byte)
    (bits : ∀ bit < 8, byte.getLsbD bit = if bit = position % 8 then value else
      (volume.device.sector (volume.bitmap kind * volume.secPerBlock + position / 4096)
        (position / 8 % 512)).getLsbD bit) : Flipped kind position value volume after := by
  refine ⟨layout, fun other probe below => ?_⟩
  rw [Volume.bit, layout.bitmap, layout.sectors, device]
  by_cases same : other = kind
  · subst same
    rw [set_bit]
    split
    · next isByte =>
      rw [bits _ (Nat.mod_lt _ (by decide))]
      by_cases isBit : probe = position
      · rw [if_pos (by rw [isBit]), if_pos ⟨rfl, isBit⟩]
      · rw [if_neg (by omega), if_neg (fun both => isBit both.2), Volume.bit, Device.bit]
        congr 2
        · congr 1
          omega
        · omega
    · next otherByte =>
      rw [if_neg (fun both => otherByte (by rw [both.2]))]
      rfl
  · rw [if_neg (fun both => same both.1)]
    simp only [Volume.bit, Device.bit, Device.set, if_neg (single.sectors_apart same inside below)]

/-- Changing a predicate at one place changes the count by that place only. -/
theorem countP_flip {before after : Nat → Bool} (inside : place < bound)
    (same : ∀ other < bound, other ≠ place → after other = before other) :
    (List.range bound).countP after + (before place).toNat =
      (List.range bound).countP before + (after place).toNat := by
  induction bound with
  | zero => exact absurd inside (Nat.not_lt_zero place)
  | succ bound ih =>
    simp only [range_succ, countP_append, countP_singleton]
    by_cases isLast : place = bound
    · subst isLast
      have equal : (List.range place).countP after = (List.range place).countP before := by
        refine countP_congr fun other member => ?_
        have below := mem_range.mp member
        rw [same other (by omega) (by omega)]
      rw [equal]
      cases before place <;> cases after place <;> rfl
    · have earlier := ih (by omega) fun other below => same other (by omega)
      rw [same bound (Nat.lt_succ_self _) (Ne.symm isLast)]
      omega

variable {before after : Volume}

/-- A flipped bit changes the number of clear bits by one. -/
theorem Flipped.clear (flipped : Flipped kind position value before after)
    (inside : position < 4096 * before.secPerBlock) :
    after.clear kind + (!before.bit kind position).toNat = before.clear kind + (!value).toNat := by
  have now : after.bit kind position = value := by
    rw [flipped.bits kind position inside, if_pos ⟨rfl, rfl⟩]
  rw [Volume.clear, Volume.clear, flipped.layout.sectors, ← now]
  refine @countP_flip _ _ (!before.bit kind ·) (!after.bit kind ·) inside
    fun other below different => ?_
  rw [flipped.bits kind other below, if_neg (fun both => different both.2)]

/-- It does not change that of the other bitmap. -/
theorem Flipped.clear_other (flipped : Flipped kind position value before after)
    (different : other ≠ kind) : after.clear other = before.clear other := by
  rw [Volume.clear, Volume.clear, flipped.layout.sectors]
  refine countP_congr fun probe member => ?_
  rw [flipped.bits other probe (mem_range.mp member), if_neg (fun both => different both.1)]

/-- The volume after the bit at a position has been set and the counters lowered. -/
def Volume.taken (volume : Volume) (kind : Kind) (position : Nat) : Volume :=
  { volume with
    device := volume.device.set (volume.bitmap kind * volume.secPerBlock + position / 4096)
      (position / 8 % 512)
      (volume.device.sector (volume.bitmap kind * volume.secPerBlock + position / 4096)
        (position / 8 % 512) ||| (1#8 <<< (position % 8)))
    unalloc := update volume.unalloc kind ((volume.unalloc kind + (2 ^ 32 - 1)) % 2 ^ 32)
    groupUnalloc := update volume.groupUnalloc kind
      ((volume.groupUnalloc kind + (2 ^ 16 - 1)) % 2 ^ 16) }

/-- The volume after the bit at a position has been cleared and the counters raised. -/
def Volume.given (volume : Volume) (kind : Kind) (position : Nat) : Volume :=
  { volume with
    device := volume.device.set (volume.bitmap kind * volume.secPerBlock + position / 4096)
      (position / 8 % 512)
      (volume.device.sector (volume.bitmap kind * volume.secPerBlock + position / 4096)
        (position / 8 % 512) &&& (0xff#8 ^^^ (1#8 <<< (position % 8))))
    unalloc := update volume.unalloc kind ((volume.unalloc kind + 1) % 2 ^ 32)
    groupUnalloc := update volume.groupUnalloc kind ((volume.groupUnalloc kind + 1) % 2 ^ 16) }

/-- An allocation fails and changes nothing, or takes a position whose bit is clear. -/
theorem findFree_cases (single : SingleGroup volume) (kind : Kind) (mapIdxStart : Nat) :
    findFree kind mapIdxStart volume = (0, volume) ∨
      ∃ position < 4096 * volume.secPerBlock, volume.bit kind position = false ∧
        volume.device.reads (volume.bitmap kind * volume.secPerBlock + position / 4096) = true ∧
        volume.device.writes (volume.bitmap kind * volume.secPerBlock + position / 4096) = true ∧
        findFree kind mapIdxStart volume = (position + 1, volume.taken kind position) := by
  have fits := single.fits
  have sectors := single.sectors
  rcases @findFreeBitmap_searched volume.device (volume.blocks / 8) (volume.bitmap kind)
    volume.secPerBlock mapIdxStart with
    ⟨nothing, _⟩ | ⟨position, _, below, clear, _, readable, writable, found⟩
  · left
    simp only [findFree, nothing, ne_eq, not_true_eq_false, if_false]
  · right
    have isId : (position + 1) % 2 ^ 32 = position + 1 := Nat.mod_eq_of_lt (by omega)
    refine ⟨position, by omega, clear, readable, writable, ?_⟩
    simp only [findFree, found, isId, ne_eq, Nat.succ_ne_zero, not_false_eq_true, if_true,
      Volume.taken, Device.setBit]

/-- A release fails, or clears the bit of its position. -/
theorem freeAlloc_cases (volume : Volume) (kind : Kind) (small : position + 1 < 2 ^ 32) :
    freeAlloc kind volume (position + 1) = none ∨
      freeAlloc kind volume (position + 1) = some (volume.given kind position) := by
  have isPosition : (position + 1 + (2 ^ 32 - 1)) % 2 ^ 32 = position := by omega
  have isSector : position / 8 / 512 = position / 4096 := by omega
  simp only [freeAlloc, isPosition, isSector]
  split
  · exact .inr rfl
  · exact .inl rfl

theorem taken_flipped (single : SingleGroup volume)
    (inside : position < 4096 * volume.secPerBlock) :
    Flipped kind position true volume (volume.taken kind position) := by
  refine flipped_of_set single ⟨rfl, rfl, rfl⟩ inside rfl fun bit below => ?_
  rw [or_bit _ (Nat.mod_lt _ (by decide)) below]
  split
  · next isBit => simp [isBit]
  · next other => simp [other]

/-- Giving a position back clears its bit. -/
theorem given_flipped (single : SingleGroup volume)
    (inside : position < 4096 * volume.secPerBlock) :
    Flipped kind position false volume (volume.given kind position) := by
  refine flipped_of_set single ⟨rfl, rfl, rfl⟩ inside rfl fun bit below => ?_
  rw [mask_bit _ (Nat.mod_lt _ (by decide)) below]
  split
  · next isBit => simp [isBit]
  · next other => simp [other]

/-- Taking a position whose bit is clear and giving it back restores every sector. -/
theorem taken_given (clear : volume.bit kind position = false) (reads writes : Nat → Bool) :
    (((volume.taken kind position).withFaults reads writes).given kind position).device.sector =
      volume.device.sector := by
  have restored := or_mask
    (Nat.mod_lt position (by decide)) clear
  funext lba index
  simp only [Volume.given, Volume.withFaults, Volume.taken, Device.set]
  split
  · next isSector =>
    rw [isSector]
    simp only [if_true]
    split
    · next isByte => rw [isByte, restored]
    · rfl
  · rfl

/-- A volume with the numbers that its allocations have handed out and not got back. -/
structure System where
  volume : Volume
  held : Kind → List Nat

/-- The calls of a run, with what the device answers during the call. -/
inductive Call where
  | findFreeBlocks (reads writes : Nat → Bool)
  | findHigherHalfFreeBlocks (reads writes : Nat → Bool)
  | findFreeInode (reads writes : Nat → Bool)
  | freeAllocBlock (id : Nat) (reads writes : Nat → Bool)
  | freeAllocInode (id : Nat) (reads writes : Nat → Bool)

/-- An id that was returned is held. -/
def System.allocated (system : System) (kind : Kind) (result : Nat × Volume) : System :=
  { volume := result.2
    held := if result.1 = 0 then system.held
      else update system.held kind (result.1 :: system.held kind) }

/-- The system after a release: where it failed, nothing has changed. -/
def System.released (system : System) (kind : Kind) (id : Nat) (result : Option Volume) : System :=
  match result with
  | none => system
  | some volume =>
    { volume := volume, held := update system.held kind ((system.held kind).erase id) }

/-- One call on the system, with the faults of the device that it meets. -/
def step (system : System) : Call → Option System
  | .findFreeBlocks reads writes =>
    some (system.allocated .block (findFreeBlocks (system.volume.withFaults reads writes)))
  | .findHigherHalfFreeBlocks reads writes =>
    some (system.allocated .block
      (findHigherHalfFreeBlocks (system.volume.withFaults reads writes)))
  | .findFreeInode reads writes =>
    some (system.allocated .inode (findFreeInode (system.volume.withFaults reads writes)))
  | .freeAllocBlock id reads writes =>
    some (system.released .block id (freeAllocBlock (system.volume.withFaults reads writes) id))
  | .freeAllocInode id reads writes =>
    some (system.released .inode id (freeAllocInode (system.volume.withFaults reads writes) id))

/-- A caller releases only numbers that it holds. -/
def allowed (system : System) : Call → Prop
  | .freeAllocBlock id _ _ => id ∈ system.held .block
  | .freeAllocInode id _ _ => id ∈ system.held .inode
  | _ => True

/-- The runs from a volume on which nothing is held yet. -/
def machine (start : Volume) : Machine System Call where
  initial system := system = { volume := start, held := fun _ => [] }
  allowed := allowed
  step := step

/-- How a bitmap has come out of the one at the start of the run: the ids that are held have been
taken, and nothing else. -/
structure Account (start volume : Volume) (kind : Kind) (held : List Nat) : Prop where
  bits : ∀ position < 4096 * start.secPerBlock,
    volume.bit kind position = (start.bit kind position || decide (position + 1 ∈ held))
  nodup : held.Nodup
  fresh : ∀ id ∈ held, ∃ position < 4096 * start.secPerBlock,
    id = position + 1 ∧ start.bit kind position = false
  clear : volume.clear kind + held.length = start.clear kind
  unalloc : (volume.unalloc kind + held.length) % 2 ^ 32 = start.unalloc kind % 2 ^ 32
  group : (volume.groupUnalloc kind + held.length) % 2 ^ 16 = start.groupUnalloc kind % 2 ^ 16

/-- How a volume has come out of the volume at the start of the run. -/
structure Invariant (start : Volume) (system : System) : Prop where
  layout : SameLayout start system.volume
  account : ∀ kind, Account start system.volume kind (system.held kind)

/-- A volume of the same layout has a single group too. -/
theorem SingleGroup.same {start : Volume} (single : SingleGroup start)
    (layout : SameLayout start volume) : SingleGroup volume := by
  obtain ⟨fits, sectors, apart, inside⟩ := single
  constructor
  · rw [layout.blocks, layout.sectors]
    exact fits
  · rw [layout.sectors]
    exact sectors
  · rw [layout.bitmap]
    exact apart
  · rw [layout.bitmap, layout.blocks]
    exact inside

variable {start : Volume} {system : System}

/-- What the device answers does not matter to the invariant. -/
theorem Invariant.withFaults (invariant : Invariant start system) (reads writes : Nat → Bool) :
    Invariant start { system with volume := system.volume.withFaults reads writes } := by
  refine ⟨⟨invariant.layout.blocks, invariant.layout.sectors, invariant.layout.bitmap⟩,
    fun kind => ?_⟩
  obtain ⟨bits, nodup, fresh, clear, unalloc, group⟩ := invariant.account kind
  exact ⟨bits, nodup, fresh, clear, unalloc, group⟩

/-- A change in one bitmap is accounted for there; the other bitmap has its account as before. -/
theorem Invariant.flip (invariant : Invariant start system) {held : List Nat}
    (flipped : Flipped kind position value system.volume after)
    (unalloc : ∀ other, other ≠ kind → after.unalloc other = system.volume.unalloc other)
    (group : ∀ other, other ≠ kind → after.groupUnalloc other = system.volume.groupUnalloc other)
    (account : Account start after kind held) :
    Invariant start { volume := after, held := update system.held kind held } := by
  refine ⟨invariant.layout.trans flipped.layout, fun other => ?_⟩
  by_cases same : other = kind
  · subst same
    simpa only [update_self] using account
  · have old := invariant.account other
    simp only [update_of_ne same]
    refine ⟨fun probe below => ?_, old.nodup, old.fresh, ?_, ?_, ?_⟩
    · rw [flipped.bits other probe (invariant.layout.sectors ▸ below),
        if_neg fun both => same both.1]
      exact old.bits probe below
    · rw [flipped.clear_other same]
      exact old.clear
    · rw [unalloc other same]
      exact old.unalloc
    · rw [group other same]
      exact old.group

section

variable (single : SingleGroup start)
include single

/-- Taking a clear bit keeps the counters right. -/
theorem Invariant.taken (invariant : Invariant start system)
    (inside : position < 4096 * start.secPerBlock)
    (isClear : system.volume.bit kind position = false) :
    Invariant start
      { volume := system.volume.taken kind position
        held := update system.held kind ((position + 1) :: system.held kind) } := by
  have here : position < 4096 * system.volume.secPerBlock := invariant.layout.sectors ▸ inside
  have flipped : Flipped kind position true system.volume _ :=
    taken_flipped (single.same invariant.layout) here
  obtain ⟨bits, nodup, fresh, clear, unalloc, group⟩ := invariant.account kind
  have wasClear : start.bit kind position = false ∧ position + 1 ∉ system.held kind := by
    have old := bits position inside
    rw [isClear] at old
    simpa using old.symm
  have one := flipped.clear here
  rw [isClear] at one
  simp only [Bool.not_false, Bool.not_true, Bool.toNat_true, Bool.toNat_false] at one
  refine invariant.flip flipped (fun other different => update_of_ne different _ _)
    (fun other different => update_of_ne different _ _)
    ⟨fun probe below => ?_, nodup_cons.mpr ⟨wasClear.2, nodup⟩, fun id member => ?_, ?_, ?_, ?_⟩
  · rw [flipped.bits kind probe (invariant.layout.sectors ▸ below), bits probe below]
    by_cases isPosition : probe = position
    · simp [isPosition]
    · simp [isPosition]
  · rcases mem_cons.mp member with rfl | old
    · exact ⟨position, inside, rfl, wasClear.1⟩
    · exact fresh id old
  · rw [length_cons]
    omega
  · simp only [Volume.taken, update_self, length_cons]
    omega
  · simp only [Volume.taken, update_self, length_cons]
    omega

/-- Giving back a held number keeps the counters right. -/
theorem Invariant.given (invariant : Invariant start system)
    (inside : position < 4096 * start.secPerBlock) (isHeld : position + 1 ∈ system.held kind) :
    Invariant start
      { volume := system.volume.given kind position
        held := update system.held kind ((system.held kind).erase (position + 1)) } := by
  have here : position < 4096 * system.volume.secPerBlock := invariant.layout.sectors ▸ inside
  have flipped : Flipped kind position false system.volume _ :=
    given_flipped (single.same invariant.layout) here
  obtain ⟨bits, nodup, fresh, clear, unalloc, group⟩ := invariant.account kind
  have wasSet : system.volume.bit kind position = true := by
    rw [bits position inside, decide_eq_true isHeld, Bool.or_true]
  have wasClear : start.bit kind position = false := by
    obtain ⟨other, _, isPosition, free⟩ := fresh _ isHeld
    rwa [Nat.add_right_cancel isPosition]
  have length := length_erase_of_mem isHeld
  have positive := length_pos_of_mem isHeld
  have one := flipped.clear here
  rw [wasSet] at one
  simp only [Bool.not_false, Bool.not_true, Bool.toNat_true, Bool.toNat_false] at one
  refine invariant.flip flipped (fun other different => update_of_ne different _ _)
    (fun other different => update_of_ne different _ _)
    ⟨fun probe below => ?_, nodup.erase _, fun id member => fresh id (mem_of_mem_erase member),
      ?_, ?_, ?_⟩
  · have erased := nodup.mem_erase_iff (a := probe + 1) (b := position + 1)
    rw [flipped.bits kind probe (invariant.layout.sectors ▸ below), bits probe below]
    by_cases isPosition : probe = position
    · subst isPosition
      simp [wasClear, erased]
    · simp [isPosition, erased]
  · omega
  · simp only [Volume.given, update_self]
    omega
  · simp only [Volume.given, update_self]
    omega

/-- An allocation keeps the counters right, whether it finds a bit or not. -/
theorem Invariant.find (invariant : Invariant start system) (kind : Kind) (mapIdxStart : Nat) :
    Invariant start (system.allocated kind (findFree kind mapIdxStart system.volume)) := by
  rcases findFree_cases (single.same invariant.layout) kind mapIdxStart with nothing |
    ⟨position, inside, isClear, _, _, found⟩
  · rw [nothing]
    exact invariant
  · rw [found]
    exact invariant.taken single (invariant.layout.sectors ▸ inside) isClear

/-- A release keeps the counters right, whether the device fails or not. -/
theorem Invariant.release (invariant : Invariant start system) (isHeld : id ∈ system.held kind)
    (reads writes : Nat → Bool) :
    Invariant start (system.released kind id
      (freeAlloc kind (system.volume.withFaults reads writes) id)) := by
  obtain ⟨position, inside, rfl, _⟩ := (invariant.account kind).fresh id isHeld
  have sectors := single.sectors
  have fits : position + 1 < 2 ^ 32 := by omega
  rcases freeAlloc_cases (system.volume.withFaults reads writes) kind fits with nothing | freed
  · rw [nothing]
    exact invariant
  · rw [freed]
    exact (invariant.withFaults reads writes).given single inside isHeld

/-- The counters are right throughout a run. -/
theorem invariant_inductive :
    Inductive (machine start) (Invariant start) where
  starts := by
    rintro _ rfl
    exact ⟨⟨rfl, rfl, rfl⟩, fun _ => ⟨fun _ _ => by simp, nodup_nil,
      fun _ member => absurd member not_mem_nil, rfl, rfl, rfl⟩⟩
  preserved := by
    rintro system call invariant permitted
    cases call with
    | findFreeBlocks reads writes =>
      exact ⟨_, rfl, (invariant.withFaults reads writes).find single .block 0⟩
    | findHigherHalfFreeBlocks reads writes =>
      exact ⟨_, rfl, (invariant.withFaults reads writes).find single .block _⟩
    | findFreeInode reads writes =>
      exact ⟨_, rfl, (invariant.withFaults reads writes).find single .inode 0⟩
    | freeAllocBlock id reads writes =>
      exact ⟨_, rfl, invariant.release single permitted reads writes⟩
    | freeAllocInode id reads writes =>
      exact ⟨_, rfl, invariant.release single permitted reads writes⟩

end

/-- The ids that are held are distinct, and none of them was allocated at the start. -/
def IdsDistinct (start : Volume) (system : System) : Prop :=
  ∀ kind, (system.held kind).Nodup ∧
    ∀ id ∈ system.held kind, id ≠ 0 ∧ start.bit kind (id - 1) = false

/-- Since the start, the counters have changed by the change in the number of clear bits. -/
def CountersFollow (start : Volume) (system : System) : Prop :=
  ∀ kind,
    (system.volume.unalloc kind + start.clear kind) % 2 ^ 32 =
      (start.unalloc kind + system.volume.clear kind) % 2 ^ 32 ∧
    (system.volume.groupUnalloc kind + start.clear kind) % 2 ^ 16 =
      (start.groupUnalloc kind + system.volume.clear kind) % 2 ^ 16

/-- An allocation that fails changes nothing; the release of an id that was just allocated
restores every sector. -/
def AllocationExact (volume : Volume) (kind : Kind) (mapIdxStart : Nat) : Prop :=
  ((findFree kind mapIdxStart volume).1 = 0 → (findFree kind mapIdxStart volume).2 = volume) ∧
    ((findFree kind mapIdxStart volume).1 ≠ 0 → ∀ reads writes after,
      freeAlloc kind ((findFree kind mapIdxStart volume).2.withFaults reads writes)
        (findFree kind mapIdxStart volume).1 = some after →
      after.device.sector = volume.device.sector)

/-- A release that fails changes nothing. -/
def ReleaseExact (system : System) (kind : Kind) (id : Nat) (result : Option Volume) : Prop :=
  result = none → system.released kind id result = system

/-- An allocation that fails changes nothing, and the release of what it handed out undoes it. -/
theorem allocation_exact (single : SingleGroup volume) (kind : Kind) (mapIdxStart : Nat) :
    AllocationExact volume kind mapIdxStart := by
  have sectors := single.sectors
  rcases findFree_cases single kind mapIdxStart with nothing |
    ⟨position, inside, isClear, _, _, found⟩
  · rw [AllocationExact, nothing]
    exact ⟨fun _ => rfl, fun nonzero => absurd rfl nonzero⟩
  · rw [AllocationExact, found]
    refine ⟨fun zero => absurd zero (Nat.succ_ne_zero position),
      fun _ reads writes after freed => ?_⟩
    rcases freeAlloc_cases ((volume.taken kind position).withFaults reads writes) kind
      (by omega : position + 1 < 2 ^ 32) with nothing | given
    · exact absurd (nothing.symm.trans freed) (by simp)
    · obtain rfl := Option.some.inj (given.symm.trans freed)
      exact taken_given isClear reads writes

/-- In every run of allocations and releases on a volume with one group, with a device that may
fail in every call. -/
theorem bitmaps_exact {start : Volume} (single : SingleGroup start) {system : System}
    (reached : Reachable (machine start) system) :
    IdsDistinct start system ∧ CountersFollow start system ∧
      (∀ kind mapIdxStart reads writes,
        AllocationExact (system.volume.withFaults reads writes) kind mapIdxStart) ∧
      ∀ kind id reads writes, ReleaseExact system kind id
        (freeAlloc kind (system.volume.withFaults reads writes) id) := by
  have invariant := (invariant_inductive single).holds reached
  refine ⟨fun kind => ⟨(invariant.account kind).nodup, fun id member => ?_⟩, fun kind => ?_,
    fun kind mapIdxStart reads writes => ?_, fun kind id reads writes failed => ?_⟩
  · obtain ⟨position, _, rfl, free⟩ := (invariant.account kind).fresh id member
    exact ⟨Nat.succ_ne_zero position, free⟩
  · obtain ⟨_, _, _, clear, unalloc, group⟩ := invariant.account kind
    omega
  · exact allocation_exact (single.same (invariant.withFaults reads writes).layout) kind mapIdxStart
  · rw [failed]
    rfl

/-- A volume of 64 blocks with its bitmaps in blocks 3 and 4, of which the first eight blocks
and inodes are allocated. -/
def smallVolume : Volume where
  device :=
    { sector := fun lba index => if (lba = 24 ∨ lba = 32) ∧ index = 0 then 0xff#8 else 0#8
      reads := fun _ => true
      writes := fun _ => true }
  blocks := 64
  secPerBlock := 8
  bitmap := fun kind => match kind with
    | .block => 3
    | .inode => 4
  unalloc := fun _ => 56
  groupUnalloc := fun _ => 56

/-- The small volume after one block has been handed out. -/
def oneBlock : System :=
  System.allocated { volume := smallVolume, held := fun _ => [] } .block
    (findFreeBlocks (smallVolume.withFaults (fun _ => true) fun _ => true))

/-- The block that is held is block 9. -/
theorem bitmaps_exact_one : oneBlock.held .block = [9] ∧ IdsDistinct smallVolume oneBlock ∧
    CountersFollow smallVolume oneBlock := by
  have single : SingleGroup smallVolume :=
    ⟨by decide, by decide, by decide, fun kind => by cases kind <;> decide⟩
  have reached : Reachable (machine smallVolume) oneBlock :=
    (Reachable.initial rfl).call (.findFreeBlocks (fun _ => true) fun _ => true) trivial rfl
  obtain ⟨distinct, counters, _⟩ := bitmaps_exact single reached
  exact ⟨by decide +kernel, distinct, counters⟩

end Balrog.BitmapCounters
