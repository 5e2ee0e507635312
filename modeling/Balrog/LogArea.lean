import Balrog.ByteMemory
import Balrog.CycleRing
import Mathlib.Data.List.GetD

/-!
# The log area in memory

Every message goes to the area that the linker script sets aside, in turn, from the end of the
area back to its start. The index can stand at the end: the next message then starts at the
beginning. The area lies in the image of the kernel, so that no address wraps, and the messages
are counted from `klog_claim_buffer` on; those before it are dropped. The handlers of `__klog_emit`
do not touch the area.
-/

namespace Balrog.LogArea

open ByteMemory CycleRing List

/-- `klog_vstart`, `klog_vend` and `klog_area_index`, with the memory. -/
structure Area where
  memory : Bytes
  vstart : Nat
  vend : Nat
  index : Nat

/-- `klog_claim_buffer` -/
def claimBuffer (memory : Bytes) (klogArea klogAreaEnd : Nat) : Area :=
  { memory := fill memory klogArea (klogAreaEnd - klogArea) 0
    vstart := klogArea
    vend := klogAreaEnd
    index := 0 }

/-- `__klog_klog_area_write` -/
def areaWrite (area : Area) (str : List UInt8) : Area :=
  if area.vstart = 0 then area
  else if area.vend < area.vstart + area.index + str.length then
    let sizeLeft := area.vend - (area.vstart + area.index)
    { area with
      memory := copy (copy area.memory (area.vstart + area.index) (str.take sizeLeft))
        area.vstart (str.drop sizeLeft)
      index := str.length - sizeLeft }
  else
    { area with
      memory := copy area.memory (area.vstart + area.index) str
      index := area.index + str.length }

/-- The area of `size` bytes after a stream: where the next byte goes, and where those are that no
later one has replaced. -/
structure Holds (memory : Bytes) (start size : Nat) (stream : List UInt8) (area : Area) : Prop where
  vstart : area.vstart = start
  vend : area.vend = start + size
  inside : area.index ≤ size
  index : area.index % size = stream.length % size
  stored : ∀ k < stream.length, stream.length ≤ k + size →
    area.memory (start + k % size) = stream.getD k 0
  outside : ∀ probe, probe < start ∨ start + size ≤ probe → area.memory probe = memory probe

section Write

variable {area : Area} {size : Nat} {str : List UInt8}

/-- Where a message puts its bytes: byte `j` of it behind the index, modulo the size. -/
theorem areaWrite_bytes (claimed : area.vstart ≠ 0) (ends : area.vend = area.vstart + size)
    (inside : area.index ≤ size) (short : str.length ≤ size) {offset : Nat} (below : offset < size) :
    (areaWrite area str).memory (area.vstart + offset) =
      if area.index ≤ offset ∧ offset < area.index + str.length then
        str.getD (offset - area.index) 0
      else if offset + size < area.index + str.length then str.getD (offset + size - area.index) 0
      else area.memory (area.vstart + offset) := by
  rw [areaWrite, if_neg claimed]
  split
  · next wraps =>
    simp only [copy, length_drop, length_take, ends]
    split
    · rw [if_neg (by omega), if_pos (by omega), getD_eq_getElem?_getD, getElem?_drop,
        getD_eq_getElem?_getD]
      congr 2
      omega
    · split
      · rw [if_pos (by omega), getD_eq_getElem?_getD, getElem?_take_of_lt (by omega),
          getD_eq_getElem?_getD]
        congr 2
        omega
      · rw [if_neg (by omega), if_neg (by omega)]
  · next fits =>
    simp only [copy]
    split
    · rw [if_pos (by omega)]
      congr 1
      omega
    · rw [if_neg (by omega), if_neg (by omega)]

/-- A write touches nothing outside the area. -/
theorem areaWrite_outside (ends : area.vend = area.vstart + size)
    (inside : area.index ≤ size) (short : str.length ≤ size) {probe : Nat}
    (outside : probe < area.vstart ∨ area.vstart + size ≤ probe) :
    (areaWrite area str).memory probe = area.memory probe := by
  rw [areaWrite]
  split
  · rfl
  · split
    · dsimp only
      rw [copy_outside (by rw [length_drop]; omega), copy_outside (by rw [length_take]; omega)]
    · exact copy_outside (by omega)

/-- The index stays inside the area and advances by the length of the text, around its end. -/
theorem areaWrite_index (claimed : area.vstart ≠ 0) (ends : area.vend = area.vstart + size)
    (inside : area.index ≤ size) (short : str.length ≤ size) :
    (areaWrite area str).index ≤ size ∧
      (areaWrite area str).index % size = (area.index + str.length) % size := by
  rw [areaWrite, if_neg claimed]
  split
  · refine ⟨by simp only; omega, ?_⟩
    have total : area.index + str.length =
        str.length - (area.vend - (area.vstart + area.index)) + size := by omega
    rw [total, Nat.add_mod_right]
  · exact ⟨by simp only; omega, rfl⟩

end Write

/-- One more message: its bytes are the next of the stream, and an earlier byte gives way only to
the one that comes `size` later. -/
theorem areaWrite_holds {memory : Bytes} {start size : Nat} {stream str : List UInt8} {area : Area}
    (holds : Holds memory start size stream area) (claimed : start ≠ 0)
    (short : str.length ≤ size) : Holds memory start size (stream ++ str) (areaWrite area str) := by
  obtain ⟨rfl, ends, inside, index, stored, outside⟩ := holds
  have frame : (areaWrite area str).vstart = area.vstart ∧
      (areaWrite area str).vend = area.vend := by
    rw [areaWrite, if_neg claimed]
    split <;> exact ⟨rfl, rfl⟩
  have positions (count : Nat) :
      (stream.length + count) % size = (area.index + count) % size := by
    rw [Nat.add_mod, ← index, ← Nat.add_mod]
  obtain ⟨indexInside, indexMod⟩ := areaWrite_index claimed ends inside short
  refine ⟨frame.1, frame.2.trans ends, indexInside, ?_, fun k below recent => ?_,
    fun probe apart => ?_⟩
  · rw [indexMod, length_append, positions]
  · rw [length_append] at below recent
    rw [areaWrite_bytes claimed ends inside short (Nat.mod_lt _ (by omega))]
    by_cases old : k < stream.length
    · -- A byte of the message in the same place would be less than `size` bytes later.
      have apart (count : Nat) (inMessage : count < str.length) :
          k % size ≠ (area.index + count) % size := by
        rw [← positions]
        exact slot_ne (by omega) (by omega)
      have small := Nat.mod_lt k (by omega : 0 < size)
      rw [if_neg fun here => apart (k % size - area.index) (by omega) (by
          rw [Nat.add_sub_cancel' here.1, Nat.mod_mod]),
        if_neg fun here => apart (k % size + size - area.index) (by omega) (by
          rw [Nat.add_sub_cancel' (by omega), Nat.add_mod_right, Nat.mod_mod]),
        stored k old (by omega), getD_append _ _ _ _ old]
    · obtain ⟨count, rfl⟩ := Nat.exists_eq_add_of_le (Nat.le_of_not_lt old)
      rw [positions, getD_append_right _ _ _ _ (Nat.le_add_right _ _), Nat.add_sub_cancel_left]
      by_cases fits : area.index + count < size
      · rw [Nat.mod_eq_of_lt fits, if_pos (by omega), Nat.add_sub_cancel_left]
      · rw [Nat.mod_eq_sub_mod (by omega), Nat.mod_eq_of_lt (by omega), if_neg (by omega),
          if_pos (by omega), Nat.sub_add_cancel (by omega), Nat.add_sub_cancel_left]
  · rw [areaWrite_outside ends inside short apart, outside probe apart]

/-- After any messages the area holds the end of the stream. The induction is on the messages, with
the stream so far as the accumulator. -/
theorem writes_hold {memory : Bytes} {start size : Nat} (claimed : start ≠ 0)
    (messages : List (List UInt8)) (short : ∀ message ∈ messages, message.length ≤ size)
    {stream : List UInt8} {area : Area} (holds : Holds memory start size stream area) :
    Holds memory start size (stream ++ messages.flatten) (messages.foldl areaWrite area) := by
  induction messages generalizing stream area with
  | nil => rwa [flatten_nil, append_nil]
  | cons message messages ih =>
    rw [flatten_cons, ← append_assoc, foldl_cons]
    exact ih (forall_mem_cons.mp short).2
      (areaWrite_holds holds claimed (short message mem_cons_self))

/-- After any messages that are not longer than the area, byte `k` of the stream is at offset
`k % size` unless byte `k + size` has been logged, and no byte outside the area has changed. -/
theorem log_area (memory : Bytes) (start size : Nat) (claimed : start ≠ 0)
    (messages : List (List UInt8)) (short : ∀ message ∈ messages, message.length ≤ size) :
    (∀ k < messages.flatten.length, messages.flatten.length ≤ k + size →
      (messages.foldl areaWrite (claimBuffer memory start (start + size))).memory
        (start + k % size) = messages.flatten.getD k 0) ∧
    ∀ probe, probe < start ∨ start + size ≤ probe →
      (messages.foldl areaWrite (claimBuffer memory start (start + size))).memory probe =
        memory probe := by
  have first : Holds memory start size [] (claimBuffer memory start (start + size)) := by
    refine ⟨rfl, rfl, Nat.zero_le _, rfl, fun k below => absurd below (Nat.not_lt_zero k),
      fun probe outside => ?_⟩
    exact if_neg (by omega)
  have holds := writes_hold claimed messages short first
  exact ⟨holds.stored, holds.outside⟩

/-- Five bytes in an area of four: the last one is at the start of the area. -/
theorem log_area_wraps :
    ([[1, 2, 3], [4, 5]].foldl areaWrite (claimBuffer (fun _ => 9) 16 20)).memory 16 = 5 :=
  (log_area (fun _ => 9) 16 4 (by decide) [[1, 2, 3], [4, 5]] (by decide)).1 4 (by decide)
    (by decide)

end Balrog.LogArea
