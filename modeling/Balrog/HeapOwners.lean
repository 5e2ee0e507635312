import Balrog.HeapFree
import Mathlib.Algebra.GroupWithZero.Nat

/-!
# A heap and the owners of its blocks

`kheap.c`, `vmheap.c` and the libc `malloc.c` share the block code and differ in
how they search and grow. This module states what all three keep: the boundary
tags read back from memory, in the source's own fields, and the correspondence
between live pointers and blocks in use. One lemma each covers taking a block,
returning it, and an owner writing into its payload.
-/

namespace Balrog.HeapOwners

open ByteMemory BlockInfo BlockTiling HeapAlloc HeapFree Option
open List hiding span

/-- Addresses of the free blocks, in layout order. -/
def freePlaces (start : Nat) (blocks : List Block) : List Nat :=
  ((place headerSize start blocks).filter (fun entry => entry.2.free)).map Prod.fst

/-- Following `next_free` from `current` visits these addresses and then stops at
`top`. -/
def Listed (memory : Bytes) : Nat → List Nat → Nat → Prop
  | current, [], top => current = top
  | current, address :: rest, top =>
      current = address ∧ Listed memory (header memory address).nextFree rest top

/-- The boundary-tag invariant read from memory. The blocks are laid end to end
from `start` to `currentTop`, with their sizes and `_is_mmapped` in their headers;
the free list visits the free blocks in ascending order; free blocks never touch;
`_present` is set exactly after a free block, whose address is then in
`previous_chunk`. -/
structure WellFormed (heap : Heap) (start currentTop : Nat) (blocks : List Block) : Prop where
  headers : ∀ entry ∈ place headerSize start blocks,
    (header heap.memory entry.1).size = entry.2.size ∧
      (header heap.memory entry.1).isMmapped = !entry.2.free
  reaches : start + span headerSize blocks = currentTop
  listed : Listed heap.memory heap.firstFree (freePlaces start blocks) currentTop
  ascending : (freePlaces start blocks).Pairwise (· < ·)
  separated : ∀ below left right above, blocks = below ++ left :: right :: above →
    left.free = true → right.free = false
  flagged : ∀ below block above, blocks = below ++ block :: above →
    ((header heap.memory (start + span headerSize below)).present = true ↔
      ∃ lower previous, below = lower ++ [previous] ∧ previous.free = true)
  named : ∀ lower previous block above, blocks = lower ++ previous :: block :: above →
    previous.free = true →
      (header heap.memory (start + span headerSize (lower ++ [previous]))).previousChunk =
        start + span headerSize lower

theorem tagged_listed (memory : Bytes) (before : Option Nat) (address beyond : Nat)
    (blocks : List Block) (tagged : Tagged headerSize (tag memory) before address blocks beyond) :
    Listed memory (firstFree headerSize address blocks beyond) (freePlaces address blocks)
      beyond := by
  induction blocks generalizing before address with
  | nil => rfl
  | cons block rest ih =>
    have later := ih _ _ tagged.2
    cases status : block.free with
    | false => simpa [firstFree, freePlaces, place, status] using later
    | true =>
      have next : (header memory address).nextFree =
          firstFree headerSize (address + (headerSize + block.size)) rest beyond :=
        (tagged.1.2.2.2.2 status).2
      simp only [firstFree, freePlaces, place, status, if_true, filter_cons_of_pos,
        map_cons, Listed, next, true_and]
      exact later

/-- The free block ending at the end of a list exists exactly when the last block
is free. -/
theorem free_before_some (address : Nat) (below : List Block) :
    (freeBefore headerSize none address below).isSome = true ↔
      ∃ lower previous, below = lower ++ [previous] ∧ previous.free = true := by
  constructor
  · intro found
    obtain ⟨last, found⟩ := isSome_iff_exists.mp found
    obtain ⟨lower, previous, same, free, _⟩ :=
      free_before_split headerSize address below last found
    exact ⟨lower, previous, same, free⟩
  · rintro ⟨lower, previous, rfl, free⟩
    simp [freeBefore, free]

variable {heap after : Heap} {start currentTop pointer currentBlock : Nat}
  {below above lower upper rest blocks remaining : List Block} {block : Block}

/-- The tags of one block of a tiled heap, as the header holds them. -/
theorem tiled_block (tiled : Tiled heap start currentTop (below ++ block :: above)) :
    (header heap.memory (start + span headerSize below)).size = block.size ∧
      (header heap.memory (start + span headerSize below)).isMmapped = !block.free ∧
      (header heap.memory (start + span headerSize below)).present =
        (freeBefore headerSize none start below).isSome ∧
      (∀ previous, freeBefore headerSize none start below = some previous →
        (header heap.memory (start + span headerSize below)).previousChunk = previous) ∧
      (block.free = true → freeBefore headerSize none start below = none) := by
  have here := ((tagged_append headerSize none start below (block :: above) currentTop).mp
    tiled.tagged).2.1
  obtain ⟨size, free, present, previous, next⟩ := here
  have mapped : (!(header heap.memory (start + span headerSize below)).isMmapped) = block.free :=
    free
  exact ⟨size, by rw [← mapped, Bool.not_not], present, previous, fun isFree => (next isFree).1⟩

/-- One round of a walk of the free list. The walk has passed the blocks `below`
and stands at the first free block of the rest: either there is none and it is at
the top, or the rest splits there, and the round after it starts with that block
as the last free block passed. -/
theorem walk_cases (tiled : Tiled heap start currentTop (below ++ rest))
    (current : currentBlock =
      firstFree headerSize (start + span headerSize below) rest currentTop) :
    (currentBlock = currentTop ∧ (∀ block ∈ rest, block.free = false) ∧
      lastFree headerSize start (below ++ rest) = lastFree headerSize start below) ∨
    ∃ middle block upper, rest = middle ++ block :: upper ∧
      (∀ other ∈ middle, other.free = false) ∧ block.free = true ∧
      currentBlock = start + span headerSize (below ++ middle) ∧ currentBlock < currentTop ∧
      Tiled heap start currentTop (below ++ middle ++ block :: upper) ∧
      lastFree headerSize start (below ++ middle) = lastFree headerSize start below ∧
      (header heap.memory currentBlock).size = block.size ∧
      (header heap.memory currentBlock).nextFree =
        firstFree headerSize (start + span headerSize (below ++ middle ++ [block])) upper
          currentTop ∧
      lastFree headerSize start (below ++ middle ++ [block]) = some currentBlock := by
  have width := header_size_eq
  rcases first_free_cases headerSize (start + span headerSize below) rest currentTop with
    used | ⟨middle, block, upper, rfl, used, free, located⟩
  · rw [first_free_used headerSize _ rest currentTop used] at current
    refine .inl ⟨current, used, ?_⟩
    rw [last_free_append, (last_free_none headerSize _ rest).mpr used, none_or]
  · have address : currentBlock = start + span headerSize (below ++ middle) := by
      rw [current, located, span_append]
      omega
    rw [← append_assoc] at tiled
    have ends := tiled.ends
    have here := ((tagged_append headerSize none start (below ++ middle) (block :: upper)
      currentTop).mp tiled.tagged).2.1
    rw [← address] at here
    refine .inr ⟨middle, block, upper, rfl, used, free, address, ?_, tiled, ?_, here.1, ?_, ?_⟩
    · simp only [span_append, span_cons] at ends address
      omega
    · rw [last_free_append, (last_free_none headerSize _ middle).mpr used, none_or]
    · rw [show start + span headerSize (below ++ middle ++ [block]) =
        currentBlock + (headerSize + block.size) by
          rw [address]
          simp only [span_append, span_cons, span_nil]
          omega]
      exact (here.2.2.2.2 free).2
    · rw [last_free_append]
      simp only [lastFree, free, if_true, none_or, some_or, address]

/-- A tiled heap satisfies the boundary-tag invariant. -/
theorem tiled_well_formed (tiled : Tiled heap start currentTop blocks) :
    WellFormed heap start currentTop blocks where
  headers entry member := by
    obtain ⟨below, above, rfl, located⟩ := place_split headerSize start blocks entry member
    have here := tiled_block tiled
    rw [located]
    exact ⟨here.1, here.2.1⟩
  reaches := tiled.ends
  listed := by
    rw [tiled.linked]
    exact tagged_listed heap.memory none start currentTop blocks tiled.tagged
  ascending := by
    refine pairwise_map.mpr (List.Pairwise.filter _ ?_)
    refine (place_pairwise headerSize start blocks).imp ?_
    intro left right apart
    have width := header_size_eq
    omega
  separated := by
    rintro below left right above rfl free
    have regrouped : Tiled heap start currentTop (below ++ [left] ++ right :: above) := by
      simpa using tiled
    have here := tiled_block regrouped
    cases status : right.free with
    | false => rfl
    | true =>
      have none := here.2.2.2.2 status
      simp [freeBefore, free] at none
  flagged := by
    rintro below block above rfl
    rw [(tiled_block tiled).2.2.1]
    exact free_before_some start below
  named := by
    rintro lower previous block above rfl free
    have regrouped : Tiled heap start currentTop (lower ++ [previous] ++ block :: above) := by
      simpa using tiled
    have here := tiled_block regrouped
    exact here.2.2.2.1 _ (by simp [freeBefore, free])

/-- The heap is tiled and the live pointers are exactly the payloads in use. -/
structure Owned (heap : Heap) (start currentTop : Nat) (live : List Nat) (blocks : List Block) :
    Prop where
  tiled : Tiled heap start currentTop blocks
  owners : live.Perm ((usedPlaces headerSize start blocks).map (fun entry => entry.1 + headerSize))

/-- The bytes in the used blocks of the heap. -/
def usedBytes (start : Nat) (blocks : List Block) : Nat :=
  ((usedPlaces headerSize start blocks).map (fun entry => entry.2.size)).sum

/-- The blocks of two pointers, headers included, do not overlap. -/
def BlocksApart (memory : Bytes) (left right : Nat) : Prop :=
  left + (header memory (left - headerSize)).size + headerSize ≤ right ∨
    right + (header memory (right - headerSize)).size + headerSize ≤ left

/-- The payload in use fits the region. -/
theorem used_bytes_le_span (start : Nat) (blocks : List Block) :
    usedBytes start blocks ≤ span headerSize blocks := by
  induction blocks generalizing start with
  | nil => simp [usedBytes, usedPlaces, place]
  | cons block rest ih =>
    have later := ih (start + (headerSize + block.size))
    unfold usedBytes at later ⊢
    cases status : block.free <;>
      simp only [used_places_cons, status, if_true, Bool.false_eq_true, if_false, nil_append,
        singleton_append, map_cons, sum_cons, span_cons] <;> omega

section Owners

variable {live : List Nat}

/-- A live pointer names a block in use, and the tiling splits there. -/
theorem owned_split (owned : Owned heap start currentTop live blocks) (member : pointer ∈ live) :
    ∃ below block above, blocks = below ++ block :: above ∧ block.free = false ∧
      pointer = start + span headerSize below + headerSize := by
  obtain ⟨entry, used, rfl⟩ := mem_map.mp (owned.owners.mem_iff.mp member)
  obtain ⟨placed, free⟩ := mem_filter.mp used
  obtain ⟨below, above, same, located⟩ := place_split headerSize start blocks entry placed
  exact ⟨below, entry.2, above, same, by simpa using free, by rw [located]⟩

theorem owned_apart (owned : Owned heap start currentTop live blocks) :
    live.Pairwise (BlocksApart heap.memory) := by
  refine (owned.owners.pairwise_iff (fun apart => apart.symm)).mpr ?_
  refine pairwise_map.mpr ?_
  have ordered := (place_pairwise headerSize start blocks).filter (fun entry => !entry.2.free)
  refine ordered.imp_of_mem ?_
  intro left right member _ apart
  have size := ((tiled_well_formed owned.tiled).headers left (mem_filter.mp member).1).1
  refine .inl ?_
  rw [Nat.add_sub_cancel, size]
  omega

/-- Taking a request from a free block makes its pointer live. -/
theorem owned_take
    (owners : live.Perm ((usedPlaces headerSize start (lower ++ block :: upper)).map
      (fun entry => entry.1 + headerSize))) (free : block.free = true) (size : Nat)
    (room : size ≤ block.size)
    (tiled : Tiled after start currentTop (lower ++ taken block size ++ upper)) :
    Owned after start currentTop
      ((start + span headerSize lower + (block.size - takenSize block size) + headerSize) :: live)
      (lower ++ taken block size ++ upper) ∧
    usedBytes start (lower ++ taken block size ++ upper) =
      usedBytes start (lower ++ block :: upper) + takenSize block size := by
  simp only [used_places_append, used_places_cons, free, if_true, nil_append,
    map_append] at owners
  constructor
  · refine ⟨tiled, ?_⟩
    rw [append_assoc, used_places_append, used_places_taken _ _ _ _ room, map_append,
      map_cons]
    exact (owners.cons _).trans perm_middle.symm
  · unfold usedBytes
    rw [append_assoc, used_places_append, used_places_taken _ _ _ _ room]
    simp only [used_places_append, used_places_cons, free, if_true, nil_append,
      map_append, sum_append, map_cons, sum_cons]
    omega

theorem taken_header (size : Nat) (room : size ≤ block.size)
    (tiled : Tiled heap start currentTop (lower ++ taken block size ++ upper)) :
    (header heap.memory
      (start + span headerSize lower + (block.size - takenSize block size))).size =
        takenSize block size := by
  have member : (start + span headerSize lower + (block.size - takenSize block size),
      { size := takenSize block size, free := false }) ∈
        usedPlaces headerSize start (lower ++ taken block size ++ upper) := by
    rw [append_assoc, used_places_append, used_places_taken _ _ _ _ room]
    simp
  exact ((tiled_well_formed tiled).headers _ (mem_filter.mp member).1).1

/-- Returning the block of a live pointer makes the pointer dead. -/
theorem owned_return (owned : Owned heap start currentTop live (below ++ block :: above))
    (used : block.free = false) (tiled : Tiled after start currentTop remaining)
    (kept : usedPlaces headerSize start remaining = usedPlaces headerSize start below ++
      usedPlaces headerSize (start + span headerSize below + (headerSize + block.size)) above) :
    Owned after start currentTop
      (live.erase (start + span headerSize below + headerSize)) remaining ∧
    usedBytes start remaining + block.size = usedBytes start (below ++ block :: above) := by
  have owners := owned.owners
  simp only [used_places_append, used_places_cons, used, Bool.false_eq_true, if_false,
    singleton_append, map_append, map_cons] at owners
  constructor
  · refine ⟨tiled, ?_⟩
    rw [kept, map_append]
    have erased := (owners.trans perm_middle).erase
      (start + span headerSize below + headerSize)
    rwa [erase_cons_head] at erased
  · unfold usedBytes
    simp only [kept, used_places_append, used_places_cons, used, Bool.false_eq_true, if_false,
      singleton_append, map_append, sum_append, map_cons, sum_cons]
    omega

/-- An owner's write into its payload leaves every header alone. -/
theorem owned_write (owned : Owned heap start currentTop live blocks) (member : pointer ∈ live)
    (address : Nat) (value : UInt8) (lower : pointer ≤ address)
    (upper : address < pointer + (header heap.memory (pointer - headerSize)).size) :
    Owned { heap with memory := put heap.memory address value } start currentTop live blocks := by
  have width := header_size_eq
  obtain ⟨below, block, above, rfl, used, rfl⟩ := owned_split owned member
  rw [Nat.add_sub_cancel, (tiled_block owned.tiled).1] at upper
  obtain ⟨⟨tagged, ends, linked, fits⟩, owners⟩ := owned
  have same (probe : Nat) (outside : probe + headerSize ≤ address ∨ address < probe) :
      tag (put heap.memory address value) probe = tag heap.memory probe := by
    refine tag_frame ?_
    intro byte low high
    rw [put, if_neg (by omega)]
  refine ⟨⟨?_, ends, linked, fits⟩, owners⟩
  -- The payload lies between the header of its block and that of the block after it.
  have split := (tagged_append headerSize none start below (block :: above) currentTop).mp tagged
  have lowerSame := tagged_congr headerSize none start below _ split.1
    (fun probe _ high => same probe (by omega))
  have upperSame := tagged_congr headerSize _ _ above currentTop split.2.2
    (fun probe low _ => same probe (by omega))
  refine (tagged_append headerSize none start below (block :: above) currentTop).mpr
    ⟨lowerSame, ?_, upperSame⟩
  rw [same _ (by omega)]
  exact split.2.1

/-- With no owner left all blocks are free, and free blocks never touch: there is at most one. -/
theorem owned_drained (owned : Owned heap start currentTop [] blocks) :
    blocks = [] ∨ blocks = [{ size := currentTop - start - headerSize, free := true }] := by
  have formed := tiled_well_formed owned.tiled
  have free : ∀ entry ∈ place headerSize start blocks, entry.2.free = true := by
    simpa [usedPlaces] using owned.owners
  rcases blocks with _ | ⟨first, _ | ⟨second, rest⟩⟩
  · exact .inl rfl
  · have ends := formed.reaches
    obtain ⟨size, _⟩ := first
    simp_all [place]
    omega
  · have used := formed.separated [] first second rest rfl (free _ mem_cons_self)
    have isFree := free _ (mem_cons_of_mem _ mem_cons_self)
    simp [used] at isFree

end Owners

end Balrog.HeapOwners
