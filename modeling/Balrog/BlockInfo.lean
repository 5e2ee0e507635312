import Balrog.ByteMemory
import Balrog.BlockTiling

/-!
# The heap block header in memory

`include/balrog/memory/heap.h` declares a packed 24-byte header: a pointer to the
previous block, one 64-bit word of bit fields, and the next free block. The bit
field word holds a 60-bit size and, from bit 60 on, `_non_arena`, `_is_mmapped`,
`_present` and `_full`. The header is read from and written to raw bytes, so two
headers that overlapped would corrupt each other here as they would in memory.

Each assignment to a field is one store. Its lemma says which header it leaves at
the same address; `header_frame` says that headers elsewhere keep their bytes.
-/

namespace Balrog.BlockInfo

open ByteMemory BlockTiling

/-- `sizeof(block_info)`. -/
def headerSize : Nat := 24

theorem header_size_eq : headerSize = 24 := rfl

/-- The fields of `block_info` as a reader sees them. -/
structure Header where
  previousChunk : Nat
  size : Nat
  nonArena : Bool
  isMmapped : Bool
  present : Bool
  full : Bool
  nextFree : Nat
deriving DecidableEq, Repr

/-- The block header that stands at an address of the memory. -/
def header (memory : Bytes) (block : Nat) : Header where
  previousChunk := load 8 memory block
  size := load 8 memory (block + 8) % 2 ^ 60
  nonArena := (load 8 memory (block + 8)).testBit 60
  isMmapped := (load 8 memory (block + 8)).testBit 61
  present := (load 8 memory (block + 8)).testBit 62
  full := (load 8 memory (block + 8)).testBit 63
  nextFree := load 8 memory (block + 16)

/-- The four flag bits above the size, `_non_arena` lowest. -/
def flags (info : Header) : Nat :=
  info.nonArena.toNat + 2 * info.isMmapped.toNat + 4 * info.present.toNat + 8 * info.full.toNat

/-- The bit field word for the given field values. A size wider than its 60 bits
loses its high bits, as the assignment to the bit field does. -/
def word (info : Header) : Nat := 2 ^ 60 * flags info + info.size % 2 ^ 60

/-- `block->previous_chunk = value` -/
def setPreviousChunk (memory : Bytes) (block value : Nat) : Bytes := store 8 memory block value

/-- `block->next_free = value` -/
def setNextFree (memory : Bytes) (block value : Nat) : Bytes := store 8 memory (block + 16) value

/-- `block->_size = value` -/
def setSize (memory : Bytes) (block value : Nat) : Bytes :=
  store 8 memory (block + 8) (word { header memory block with size := value })

/-- `block->_non_arena = value` -/
def setNonArena (memory : Bytes) (block : Nat) (value : Bool) : Bytes :=
  store 8 memory (block + 8) (word { header memory block with nonArena := value })

/-- `block->_is_mmapped = value` -/
def setIsMmapped (memory : Bytes) (block : Nat) (value : Bool) : Bytes :=
  store 8 memory (block + 8) (word { header memory block with isMmapped := value })

/-- `block->_present = value` -/
def setPresent (memory : Bytes) (block : Nat) (value : Bool) : Bytes :=
  store 8 memory (block + 8) (word { header memory block with present := value })

/-- `block->_full = value` -/
def setFull (memory : Bytes) (block : Nat) (value : Bool) : Bytes :=
  store 8 memory (block + 8) (word { header memory block with full := value })

variable (info : Header)

/-- The flag bits are read back from their packing. -/
theorem flags_bits :
    flags info < 16 ∧ (flags info).testBit 0 = info.nonArena ∧
      (flags info).testBit 1 = info.isMmapped ∧ (flags info).testBit 2 = info.present ∧
      (flags info).testBit 3 = info.full := by
  unfold flags
  cases info.nonArena <;> cases info.isMmapped <;> cases info.present <;> cases info.full <;> decide

/-- The packed word fits 64 bits, so storing it drops nothing. -/
theorem word_bound : word info < 256 ^ 8 := by
  have size : info.size % 2 ^ 60 < 2 ^ 60 := Nat.mod_lt _ (by decide)
  have bound := (flags_bits info).1
  unfold word
  omega

/-- Each field is read back from the packed word. -/
theorem word_fields :
    word info % 2 ^ 60 = info.size % 2 ^ 60 ∧ (word info).testBit 60 = info.nonArena ∧
      (word info).testBit 61 = info.isMmapped ∧ (word info).testBit 62 = info.present ∧
      (word info).testBit 63 = info.full := by
  have size : info.size % 2 ^ 60 < 2 ^ 60 := Nat.mod_lt _ (by decide)
  obtain ⟨_, arena, mapped, present, full⟩ := flags_bits info
  have bit (index : Nat) : (word info).testBit (60 + index) = (flags info).testBit index := by
    rw [word, Nat.testBit_two_pow_mul_add _ size, if_neg (by omega), Nat.add_sub_cancel_left]
  refine ⟨?_, (bit 0).trans arena, (bit 1).trans mapped, (bit 2).trans present,
    (bit 3).trans full⟩
  rw [word, Nat.mul_add_mod, Nat.mod_mod]

/-- Storing a packed word leaves a header with exactly its field values. -/
theorem header_store_word (memory : Bytes) (block : Nat) (info : Header)
    (previous : info.previousChunk = load 8 memory block)
    (next : info.nextFree = load 8 memory (block + 16)) :
    header (store 8 memory (block + 8) (word info)) block =
      { info with size := info.size % 2 ^ 60 } := by
  obtain ⟨size, arena, mapped, present, full⟩ := word_fields info
  have stored : load 8 (store 8 memory (block + 8) (word info)) (block + 8) = word info := by
    rw [load_store_same]
    exact Nat.mod_eq_of_lt (word_bound info)
  have below := @load_store_apart memory (block + 8) 8 (word info) 8 block (by omega)
  have above := @load_store_apart memory (block + 8) 8 (word info) 8 (block + 16) (by omega)
  simp only [header, stored, size, arena, mapped, present, full, below, above, previous, next]

/-- A size read from a header fits its bit field. -/
theorem size_bound (memory : Bytes) (block : Nat) : (header memory block).size < 2 ^ 60 :=
  Nat.mod_lt _ (by decide)

section SameBlock

variable (memory : Bytes) (block : Nat)

@[simp] theorem header_set_previous_chunk (value : Nat) :
    header (setPreviousChunk memory block value) block =
      { header memory block with previousChunk := value % 256 ^ 8 } := by
  have flags := @load_store_apart memory block 8 value 8 (block + 8) (by omega)
  have next := @load_store_apart memory block 8 value 8 (block + 16) (by omega)
  simp only [header, setPreviousChunk, load_store_same, flags, next]

@[simp] theorem header_set_next_free (value : Nat) :
    header (setNextFree memory block value) block =
      { header memory block with nextFree := value % 256 ^ 8 } := by
  have flags := @load_store_apart memory (block + 16) 8 value 8 (block + 8) (by omega)
  have previous := @load_store_apart memory (block + 16) 8 value 8 block (by omega)
  simp only [header, setNextFree, load_store_same, flags, previous]

@[simp] theorem header_set_size (value : Nat) :
    header (setSize memory block value) block =
      { header memory block with size := value % 2 ^ 60 } := by
  rw [setSize, header_store_word memory block { header memory block with size := value } rfl rfl]

variable (value : Bool)

@[simp] theorem header_set_non_arena :
    header (setNonArena memory block value) block =
      { header memory block with nonArena := value } := by
  rw [setNonArena, header_store_word memory block { header memory block with nonArena := value } rfl rfl]
  simp only [Nat.mod_eq_of_lt (size_bound memory block)]

@[simp] theorem header_set_is_mmapped :
    header (setIsMmapped memory block value) block =
      { header memory block with isMmapped := value } := by
  rw [setIsMmapped, header_store_word memory block { header memory block with isMmapped := value } rfl rfl]
  simp only [Nat.mod_eq_of_lt (size_bound memory block)]

@[simp] theorem header_set_present :
    header (setPresent memory block value) block =
      { header memory block with present := value } := by
  rw [setPresent, header_store_word memory block { header memory block with present := value } rfl rfl]
  simp only [Nat.mod_eq_of_lt (size_bound memory block)]

@[simp] theorem header_set_full :
    header (setFull memory block value) block =
      { header memory block with full := value } := by
  rw [setFull, header_store_word memory block { header memory block with full := value } rfl rfl]
  simp only [Nat.mod_eq_of_lt (size_bound memory block)]

end SameBlock

/-- A header depends on its own bytes only. -/
theorem header_frame {left right : Bytes} {block : Nat}
    (same : ∀ probe, block ≤ probe → probe < block + headerSize → left probe = right probe) :
    header left block = header right block := by
  simp only [headerSize] at same
  have previous := load_congr 8 left right block
    (fun probe lower upper => same probe (by omega) (by omega))
  have flags := load_congr 8 left right (block + 8)
    (fun probe lower upper => same probe (by omega) (by omega))
  have next := load_congr 8 left right (block + 16)
    (fun probe lower upper => same probe (by omega) (by omega))
  simp only [header, previous, flags, next]

section OtherBytes

variable {memory : Bytes} {block probe value : Nat}
  (outside : probe < block ∨ block + headerSize ≤ probe)

include outside

theorem set_previous_chunk_outside :
    setPreviousChunk memory block value probe = memory probe := by
  unfold headerSize at outside
  exact store_outside (by omega)

theorem set_next_free_outside :
    setNextFree memory block value probe = memory probe := by
  unfold headerSize at outside
  exact store_outside (by omega)

theorem store_flags_outside :
    store 8 memory (block + 8) value probe = memory probe := by
  unfold headerSize at outside
  exact store_outside (by omega)

theorem set_size_outside : setSize memory block value probe = memory probe :=
  store_flags_outside outside

variable {value : Bool}

theorem set_non_arena_outside : setNonArena memory block value probe = memory probe :=
  store_flags_outside outside

theorem set_is_mmapped_outside :
    setIsMmapped memory block value probe = memory probe :=
  store_flags_outside outside

theorem set_present_outside : setPresent memory block value probe = memory probe :=
  store_flags_outside outside

theorem set_full_outside : setFull memory block value probe = memory probe :=
  store_flags_outside outside

end OtherBytes

/-- The boundary tag a header stands for. A block is free when `_is_mmapped` is
clear, and `_present` says that the block before it is free. -/
def tag (memory : Bytes) (block : Nat) : BlockTiling.Tag where
  size := (header memory block).size
  free := !(header memory block).isMmapped
  afterFree := (header memory block).present
  previous := (header memory block).previousChunk
  next := (header memory block).nextFree

/-- So does a tag. -/
theorem tag_frame {left right : Bytes} {block : Nat}
    (same : ∀ probe, block ≤ probe → probe < block + headerSize → left probe = right probe) :
    tag left block = tag right block := by
  simp only [tag, header_frame same]

/-- The boundary tags of a region depend only on its bytes. -/
theorem tagged_frame {left right : Bytes} {before : Option Nat} {address beyond : Nat}
    {blocks : List Block} (tagged : Tagged headerSize (tag right) before address blocks beyond)
    (same : ∀ probe, address ≤ probe → probe < address + span headerSize blocks →
      left probe = right probe) :
    Tagged headerSize (tag left) before address blocks beyond := by
  refine tagged_congr headerSize _ _ _ _ tagged (fun block lower upper => ?_)
  exact tag_frame (fun probe low high => same probe (by omega) (by omega))

end Balrog.BlockInfo
