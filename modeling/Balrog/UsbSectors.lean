import Balrog.ChunkedCopies

/-!
# Sectors of a USB disk

`__usb_read` and `__usb_write` count in sectors of 512 bytes and hand their counts to
`__scsi_rw10`, which counts in blocks of the disk. The address of a command has 32 bits and its
count 16. The source means to convert between sectors and blocks, and does not: a disk whose
blocks are not sectors moves other bytes, and one with blocks of more than 8192 bytes is asked
for no blocks at all, for ever.

Whether a command passes is up to the disk and the transport below it. One that passes has moved
all its data; what one that fails leaves behind is not modelled.
-/

namespace Balrog.UsbSectors

open ByteMemory ChunkedCopies

/-- `ATA_SECTOR_SIZE` -/
def ataSectorSize : Nat := 512

/-- `USB_BOUNCE_SIZE` -/
def usbBounceSize : Nat := 8192

/-- A disk: its block size, the commands it passes by direction, address and count, its contents,
and the memory of the caller. -/
structure Usb where
  blockSize : Nat
  passes : Bool → Nat → Nat → Bool
  disk : Bytes
  memory : Bytes

/-- `__scsi_rw10` -/
def scsiRw10 (usb : Usb) (lba blocks buffer : Nat) (write : Bool) : Bool × Usb :=
  let lba := lba % 2 ^ 32
  let blocks := blocks % 2 ^ 16
  let length := blocks * usb.blockSize % 2 ^ 32
  if usb.passes write lba blocks then
    (true,
      if write then
        { usb with
          disk := splice usb.disk (usb.blockSize * lba) length fun offset =>
            usb.memory (buffer + offset) }
      else
        { usb with
          memory := splice usb.memory buffer length fun offset =>
            usb.disk (usb.blockSize * lba + offset) })
  else (false, usb)

/-- The loop of `__usb_read` and `__usb_write`, which differ in how far the buffer advances. `first`
is what `get_first_lba` returns. -/
def usbTransfer (write : Bool) (first fuel : Nat) (usb : Usb) (buffer lba len : Nat) :
    Option (Bool × Usb) :=
  copyLoop
    (fun len =>
      if usbBounceSize < len * ataSectorSize % 2 ^ 64 then usbBounceSize / usb.blockSize else len)
    (fun count => if write then usbBounceSize else count * ataSectorSize)
    (fun usb buffer lba count => scsiRw10 usb ((first + lba) % 2 ^ 64) count buffer write)
    fuel usb buffer lba len

/-- `__usb_read` -/
def usbRead : Nat → Nat → Usb → Nat → Nat → Nat → Option (Bool × Usb) := usbTransfer false

/-- `__usb_write` -/
def usbWrite : Nat → Nat → Usb → Nat → Nat → Nat → Option (Bool × Usb) := usbTransfer true

/-- What the disk and the caller hold. -/
def Usb.sides (usb : Usb) : Sides := { disk := usb.disk, memory := usb.memory }

section Transfers

variable {write : Bool} {usb : Usb} {buffer first lba len : Nat}

/-- A command for at most 16 blocks of 512 bytes moves these sectors, if it passes. -/
theorem scsiRw10_moves (block : usb.blockSize = 512) (few : len ≤ 16) (range : lba < 2 ^ 32) :
    ∃ done after, scsiRw10 usb lba len buffer write = (done, after) ∧ after.blockSize = 512 ∧
      (done = true → after.sides = moved 512 write usb.sides buffer lba len) := by
  have length : len * 512 % 2 ^ 32 = 512 * len := by omega
  simp only [scsiRw10, block, length, Nat.mod_eq_of_lt range,
    Nat.mod_eq_of_lt (by omega : len < 2 ^ 16)]
  split
  · cases write with
    | false => exact ⟨_, _, rfl, rfl, fun _ => rfl⟩
    | true => exact ⟨_, _, rfl, rfl, fun _ => rfl⟩
  · exact ⟨_, _, rfl, block, fun done => by cases done⟩

/-- The loop ends, and if all commands passed it has moved the sectors. Every round but the last
moves 16 sectors. -/
theorem usbTransfer_moves (fuel : Nat) (enough : len < fuel) (block : usb.blockSize = 512)
    (range : lba + first + len ≤ 2 ^ 32) :
    ∃ done after, usbTransfer write first fuel usb buffer lba len = some (done, after) ∧
      after.blockSize = 512 ∧
      (done = true → after.sides = moved 512 write usb.sides buffer (lba + first) len) := by
  refine copyLoop_moves 16 first (2 ^ 32) (by decide) (by decide) (fun len inside => ?_) ?_
    (fun usb buffer lba count block _ few range => ?_) fuel usb buffer lba len enough block range
  · rw [block, usbBounceSize, ataSectorSize]
    split
    · omega
    · omega
  · cases write with
    | false => rfl
    | true => rfl
  · rw [Nat.add_comm first, Nat.mod_eq_of_lt (by omega)]
    exact scsiRw10_moves block few (by omega)

end Transfers

/-- What is asked of a disk with some block size: a read and a write of some sectors end, and if they
succeed they have moved these sectors and nothing else. -/
def MovesSectors (blockSize first buffer lba len : Nat) : Prop :=
  ∀ usb : Usb, usb.blockSize = blockSize → ∀ fuel > len,
    (∃ done after, usbRead first fuel usb buffer lba len = some (done, after) ∧
      (done = true → after.sides = moved 512 false usb.sides buffer (lba + first) len)) ∧
    ∃ done after, usbWrite first fuel usb buffer lba len = some (done, after) ∧
      (done = true → after.sides = moved 512 true usb.sides buffer (lba + first) len)

/-- Where nothing is to be moved no command is given. -/
theorem usbTransfer_none (write : Bool) (usb : Usb) (first buffer lba : Nat) {fuel : Nat}
    (enough : 0 < fuel) : ∃ done after,
      usbTransfer write first fuel usb buffer lba 0 = some (done, after) ∧
      (done = true → after.sides = moved 512 write usb.sides buffer (lba + first) 0) := by
  obtain ⟨fuel, rfl⟩ := Nat.exists_eq_add_one_of_ne_zero (Nat.ne_of_gt enough)
  exact ⟨true, usb, rfl, fun _ => moved_none.symm⟩

theorem movesSectors_of_sector {blockSize first buffer lba len : Nat}
    (fits : len = 0 ∨ blockSize = 512 ∧ lba + first + len ≤ 2 ^ 32) :
    MovesSectors blockSize first buffer lba len := by
  intro usb isSize fuel enough
  rcases fits with rfl | ⟨block, range⟩
  · exact ⟨usbTransfer_none false usb first buffer lba enough,
      usbTransfer_none true usb first buffer lba enough⟩
  · obtain ⟨done, after, read, _, copied⟩ := usbTransfer_moves fuel enough (isSize.trans block) range
    obtain ⟨done', after', wrote, _, copied'⟩ :=
      usbTransfer_moves fuel enough (isSize.trans block) range
    exact ⟨⟨done, after, read, copied⟩, done', after', wrote, copied'⟩

/-- A disk that passes every command. -/
def plainDisk (blockSize : Nat) : Usb :=
  { blockSize := blockSize, passes := fun _ _ _ => true, disk := fun _ => 1, memory := fun _ => 0 }

/-- A read of at most 16 sectors is one command, for as many blocks. -/
theorem usbRead_once {blockSize first buffer lba len : Nat} (some' : len ≠ 0) (few : len ≤ 16)
    (small : blockSize ≤ 8192) : ∃ after,
      usbRead first (len + 1) (plainDisk blockSize) buffer lba len = some (true, after) ∧
      after.memory = splice (fun _ => 0) buffer (len * blockSize) fun _ => 1 := by
  have short : ¬ usbBounceSize < len * ataSectorSize % 2 ^ 64 := by
    unfold usbBounceSize ataSectorSize
    omega
  have bytes : len * blockSize % 2 ^ 32 = len * blockSize := by
    refine Nat.mod_eq_of_lt (Nat.lt_of_le_of_lt (Nat.mul_le_mul few small) (by decide))
  have blocks : len % 2 ^ 16 = len := Nat.mod_eq_of_lt (by omega)
  have rest : (len + 2 ^ 64 - len) % 2 ^ 64 = 0 := by omega
  obtain ⟨rounds, isRounds⟩ := Nat.exists_eq_add_one_of_ne_zero some'
  rw [usbRead, usbTransfer, copyLoop, if_neg some']
  simp only [if_neg short, scsiRw10, plainDisk, blocks, bytes, rest]
  rw [isRounds, copyLoop, if_pos rfl]
  exact ⟨_, rfl, rfl⟩

end Balrog.UsbSectors
