import Mathlib.Algebra.Group.Nat.Defs
import Mathlib.Tactic.Common

/-!
# Byte-addressed memory

Storage is a total function from addresses to bytes. Multi-byte fields are read
and written in little-endian order, the layout of the machines this development
speaks about. A write touches exactly the bytes of its field: a read of the same
field returns the stored value modulo the field width, and a read of any field
that does not overlap it is unchanged. Overlapping accesses are not excluded;
they simply fall outside these laws, so a client must establish separation.

Nothing here depends on a particular record layout. Records are built by clients
from `load` and `store` at fixed displacements.
-/

namespace ByteMemory

open List

/-- Byte-addressed storage. Addresses are unbounded mathematical naturals; a
client states where its own addresses lie. -/
abbrev Bytes := Nat → UInt8

/-- The memory after one byte has been written. -/
def put (bytes : Bytes) (address : Nat) (value : UInt8) : Bytes :=
  fun probe => if probe = address then value else bytes probe

/-- Read a little-endian field of the given width. -/
def load : Nat → Bytes → Nat → Nat
  | 0, _, _ => 0
  | width + 1, bytes, address =>
      (bytes address).toNat + 256 * load width bytes (address + 1)

/-- Write a little-endian field. Digits above the field width are dropped. -/
def store : Nat → Bytes → Nat → Nat → Bytes
  | 0, bytes, _, _ => bytes
  | width + 1, bytes, address, value =>
      put (store width bytes (address + 1) (value / 256)) address (UInt8.ofNat value)

/-- The memory after `memset` over a range. -/
def fill (bytes : Bytes) (address length : Nat) (value : UInt8) : Bytes :=
  fun probe => if address ≤ probe ∧ probe < address + length then value else bytes probe

/-- The memory after `memcpy` of the data to an address. -/
def copy (bytes : Bytes) (address : Nat) (data : List UInt8) : Bytes :=
  fun probe =>
    if address ≤ probe ∧ probe < address + data.length then data.getD (probe - address) 0
    else bytes probe

/-- Replace a range by the first bytes of another storage. -/
def splice (bytes : Bytes) (address length : Nat) (data : Bytes) : Bytes :=
  fun probe =>
    if address ≤ probe ∧ probe < address + length then data (probe - address) else bytes probe

/-- The bytes of a range, in the order of their addresses. -/
def readRange (bytes : Bytes) (address length : Nat) : List UInt8 :=
  (List.range length).map fun offset => bytes (address + offset)

/-- Two byte ranges share no address. -/
def Apart (first firstLength second secondLength : Nat) : Prop :=
  first + firstLength ≤ second ∨ second + secondLength ≤ first

variable (width : Nat)

/-- A load depends on the bytes that it reads only. -/
theorem load_congr (left right : Bytes) (address : Nat)
    (same : ∀ probe, address ≤ probe → probe < address + width → left probe = right probe) :
    load width left address = load width right address := by
  induction width generalizing address with
  | zero => rfl
  | succ width ih =>
    have head : left address = right address := same address (Nat.le_refl _) (by omega)
    have tail : load width left (address + 1) = load width right (address + 1) :=
      ih (address + 1) (fun probe lower upper => same probe (by omega) (by omega))
    simp only [load, head, tail]

variable {bytes : Bytes} {address probe : Nat}

variable {offset length value readWidth readAddress : Nat}

/-- A store leaves the bytes outside its range alone. -/
theorem store_outside {width : Nat} (outside : probe < address ∨ address + width ≤ probe) :
    store width bytes address value probe = bytes probe := by
  induction width generalizing address value with
  | zero => rfl
  | succ width ih =>
    have different : probe ≠ address := by omega
    simp only [store, put, different, if_false]
    exact ih (by omega)

/-- Reading back the written field returns the value modulo the field width. -/
@[simp] theorem load_store_same (bytes : Bytes) (address value : Nat) :
    load width (store width bytes address value) address = value % 256 ^ width := by
  induction width generalizing address value with
  | zero => simp [load, Nat.mod_one]
  | succ width ih =>
    have tail : load width (store (width + 1) bytes address value) (address + 1) =
        load width (store width bytes (address + 1) (value / 256)) (address + 1) := by
      apply load_congr
      intro probe lower _
      have different : probe ≠ address := by omega
      simp only [store, put, different, if_false]
    have digit : (store (width + 1) bytes address value address).toNat = value % 256 := by
      simp [store, put]
    rw [load, tail, digit, ih, Nat.pow_succ, Nat.mul_comm (256 ^ width),
      Nat.mod_mul]

/-- Reading a field apart from the written one is unaffected by the write. -/
theorem load_store_apart {width value readWidth readAddress : Nat}
    (apart : address + width ≤ readAddress ∨ readAddress + readWidth ≤ address) :
    load readWidth (store width bytes address value) readAddress =
      load readWidth bytes readAddress := by
  apply load_congr
  intro probe lower upper
  apply store_outside
  omega

/-- Reading a field through a window that starts at another address. -/
theorem load_window (bytes : Bytes) (origin address : Nat) :
    load width (fun probe => bytes (origin + probe)) address =
      load width bytes (origin + address) := by
  induction width generalizing address with
  | zero => rfl
  | succ width ih =>
    simp only [load, ih (address + 1), Nat.add_assoc]

variable {data : List UInt8}

theorem copy_inside (below : offset < data.length) :
    copy bytes address data (address + offset) = data.getD offset 0 := by
  rw [copy, if_pos (by omega), Nat.add_sub_cancel_left]

theorem copy_outside (outside : probe < address ∨ address + data.length ≤ probe) :
    copy bytes address data probe = bytes probe := by
  rw [copy, if_neg (by omega)]

/-- A copy elsewhere does not change what is loaded. -/
theorem load_copy_apart
    (apart : address + data.length ≤ readAddress ∨ readAddress + readWidth ≤ address) :
    load readWidth (copy bytes address data) readAddress = load readWidth bytes readAddress := by
  apply load_congr
  intro probe lower upper
  apply copy_outside
  omega

/-- A field is smaller than its width allows. -/
theorem load_lt (bytes : Bytes) (address : Nat) :
    load width bytes address < 256 ^ width := by
  induction width generalizing address with
  | zero => exact Nat.one_pos
  | succ width ih =>
    have digit := UInt8.toNat_lt (bytes address)
    have rest := ih (address + 1)
    rw [load, Nat.pow_succ]
    omega

theorem splice_inside (bytes : Bytes) (address : Nat) (data : Bytes) (below : offset < length) :
    splice bytes address length data (address + offset) = data offset := by
  rw [splice, if_pos (by omega), Nat.add_sub_cancel_left]

theorem splice_outside {data : Bytes} (outside : probe < address ∨ address + length ≤ probe) :
    splice bytes address length data probe = bytes probe := by
  rw [splice, if_neg (by omega)]

/-- Two ranges behind one another are one range. -/
theorem splice_splice (bytes source : Bytes) (address origin length more : Nat) :
    splice (splice bytes address length fun offset => source (origin + offset)) (address + length)
        more (fun offset => source (origin + length + offset)) =
      splice bytes address (length + more) fun offset => source (origin + offset) := by
  funext probe
  by_cases later : address + length ≤ probe ∧ probe < address + length + more
  · rw [splice, if_pos later, splice, if_pos (by omega)]
    congr 1
    omega
  · rw [splice, if_neg later, splice, splice]
    by_cases early : address ≤ probe ∧ probe < address + length
    · rw [if_pos early, if_pos (by omega)]
    · rw [if_neg early, if_neg (by omega)]

/-- A range that is changed in a copy and copied back. -/
theorem splice_window {place size length : Nat} (bytes : Bytes) (origin : Nat) (data : Bytes)
    (inside : place + size ≤ length) :
    splice bytes origin length (splice (fun offset => bytes (origin + offset)) place size data) =
      splice bytes (origin + place) size data := by
  funext probe
  simp only [splice]
  by_cases changed : origin + place ≤ probe ∧ probe < origin + place + size
  · rw [if_pos (by omega), if_pos (by omega), if_pos changed, Nat.sub_sub]
  · rw [if_neg changed]
    split
    · rw [if_neg (by omega)]
      exact congrArg bytes (by omega)
    · rfl

section Ranges

variable {bytes other : Bytes} {address : Nat}

@[simp] theorem readRange_length (bytes : Bytes) (address length : Nat) :
    (readRange bytes address length).length = length := by
  simp [readRange]

/-- A range depends on its own bytes only. -/
theorem readRange_congr
    (same : ∀ offset < length, other (address + offset) = bytes (address + offset)) :
    readRange other address length = readRange bytes address length :=
  map_congr_left fun offset inside => same offset (mem_range.mp inside)

/-- A range is read in two pieces. -/
theorem readRange_add (bytes : Bytes) (address first second : Nat) :
    readRange bytes address (first + second) =
      readRange bytes address first ++ readRange bytes (address + first) second := by
  simp [readRange, range_add, Nat.add_assoc, Function.comp_def]

/-- What was copied is read back. -/
theorem readRange_copy (bytes : Bytes) (address : Nat) (data : List UInt8) :
    readRange (copy bytes address data) address data.length = data := by
  refine ext_getElem (readRange_length _ _ _) fun index below inside => ?_
  simp only [readRange, getElem_map, getElem_range]
  rw [copy_inside inside,
    getD_eq_getElem?_getD, getElem?_eq_getElem inside, Option.getD_some]

/-- Data copied behind a range extends it. -/
theorem readRange_copy_behind (bytes : Bytes) (address length : Nat) (data : List UInt8) :
    readRange (copy bytes (address + length) data) address (length + data.length) =
      readRange bytes address length ++ data := by
  rw [readRange_add, readRange_copy]
  congr 1
  exact readRange_congr fun offset inside => copy_outside (.inl (by omega))

theorem readRange_succ (bytes : Bytes) (address length : Nat) :
    readRange bytes address (length + 1) =
      bytes address :: readRange bytes (address + 1) length := by
  rw [Nat.add_comm length, readRange_add]
  rfl

@[simp] theorem copy_nil (bytes : Bytes) (address : Nat) : copy bytes address [] = bytes :=
  funext fun _ => copy_outside (Nat.lt_or_ge _ _)

/-- One byte and those behind it. -/
theorem copy_put (bytes : Bytes) (address : Nat) (byte : UInt8) (data : List UInt8) :
    copy (put bytes address byte) (address + 1) data = copy bytes address (byte :: data) := by
  funext probe
  simp only [copy, put, length_cons]
  grind

end Ranges

end ByteMemory
